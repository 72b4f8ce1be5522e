import TolerantParser.Proofs.Driver.Lockstep

/-! # Renaming as a likeness

A renaming changes the texts of numbers, names and doc comments, and leaves the kinds of tokens and
the texts of operators alone.  Whether a token is a marker run, and which remedy it has, depends on
no more than that and not on the place of the token.  So renaming is a `Likeness` that a driver
keeps if its automaton, offered a token and the token renamed, settles alike
(`Likeness.kept_renaming`). -/

set_option autoImplicit false

namespace TolerantParser

/-! ## Renamed tokens -/

def Kind.rename (f : String → String) : Kind → Kind
  | .text .int s => .text .int (f s)
  | .text .lowerIdent s => .text .lowerIdent (f s)
  | .text .upperIdent s => .text .upperIdent (f s)
  | .text .docString s => .text .docString (f s)
  | k => k

/-- The second token is the first one renamed, wherever the two stand. -/
def Token.Renamed (f : String → String) (t t' : Token) : Prop := t'.kind = t.kind.rename f

instance (f : String → String) (t t' : Token) : Decidable (t.Renamed f t') :=
  inferInstanceAs (Decidable (t'.kind = t.kind.rename f))

def Docstring.Renamed (f : String → String) (d d' : Docstring) : Prop := d'.text = f d.text

def Docstrings.Renamed (f : String → String) (ds ds' : Docstrings) : Prop :=
  List.Forall₂ (Docstring.Renamed f) ds.toList ds'.toList

/-- A renaming says nothing about positions. -/
def Likeness.renaming
    {Env Value : Type}
    (f : String → String)
    (E : Env → Env → Prop)
    (V : Value → Value → Prop) :
    Likeness Env Env Value Value :=
  ⟨E, V, Token.Renamed f, Docstring.Renamed f, fun _ _ => True⟩

section Tokens
variable (f : String → String)

@[simp] theorem Kind.tag_rename (k : Kind) : (k.rename f).tag = k.tag := by
  cases k with
  | text c s => cases c <;> rfl
  | reserved | eof => rfl

theorem Kind.rename_id (k : Kind) : k.rename id = k := by
  cases k with
  | text c s => cases c <;> rfl
  | reserved | eof => rfl

theorem Kind.markerCount_rename (k : Kind) : (k.rename f).markerCount = k.markerCount := by
  cases k with
  | text c s => cases c <;> rfl
  | reserved | eof => rfl

theorem markerTokens_renamed (n : Nat) (o o' : Offset) :
    List.Forall₂ (Token.Renamed f) (markerTokens n o) (markerTokens n o') := by
  unfold markerTokens
  rw [List.forall₂_map_left_iff, List.forall₂_map_right_iff, List.forall₂_same]
  exact fun _ _ => rfl

theorem FusedLabel.tokens_renamed (parts : FusedLabel) (span span' : Span) :
    List.Forall₂ (Token.Renamed f) (parts.tokens span) (parts.tokens span') := by
  unfold FusedLabel.tokens
  split
  · exact .cons rfl (.cons rfl (.cons rfl .nil))
  · exact .cons rfl (.cons rfl .nil)

variable (t t' : Token) (renamed : t.Renamed f t')
include renamed

theorem Token.Renamed.tag_eq : t'.tag = t.tag := by
  rw [Token.tag, renamed, Kind.tag_rename]
  rfl

theorem Token.Renamed.kind_eq
    (k : Kind)
    (kind : t.kind = k) :
    t'.kind = k.rename f := by
  rw [renamed, kind]

theorem Token.Renamed.docstring? :
    Option.Rel (Docstring.Renamed f) t.docstring? t'.docstring? := by
  unfold Token.docstring?
  rw [renamed]
  cases t.kind with
  | text c s => cases c <;> first | exact .none | exact .some rfl
  | reserved | eof => exact .none

theorem Token.Renamed.labelParts? :
    Option.Rel (List.Forall₂ (Token.Renamed f)) t.labelParts? t'.labelParts? := by
  unfold Token.labelParts?
  rw [renamed]
  cases t.kind with
  | text c s =>
    cases c with
    | infixOp0 =>
      simp only [Kind.rename, splitFusedLabel]
      cases FusedLabel.ofChars? s.toList with
      | none => exact .none
      | some parts => exact .some (parts.tokens_renamed f t.span t'.span)
    | int | lowerIdent | upperIdent | docString | infixOp1 | postfixOp => exact .none
  | reserved | eof => exact .none

theorem Token.Renamed.separated :
    List.Forall₂ (Token.Renamed f) t.separated t'.separated :=
  .cons rfl (.cons renamed .nil)

end Tokens

section Kept
variable {Env Value : Type} (f : String → String) (E : Env → Env → Prop) (V : Value → Value → Prop)

theorem Token.Renamed.remedy?
    (h : Heuristics)
    (t t' : Token)
    (renamed : t.Renamed f t') :
    Option.Rel (Likeness.renaming f E V).Remedies (h.remedy? t) (h.remedy? t') := by
  have retried : Option.Rel (Likeness.renaming f E V).Remedies
      (if starters.contains t.tag then
        if h.semicolon then some (.retry t.separated) else none
      else if h.labelSplit then t.labelParts?.map .retry else none)
      (if starters.contains t'.tag then
        if h.semicolon then some (.retry t'.separated) else none
      else if h.labelSplit then t'.labelParts?.map .retry else none) := by
    rw [renamed.tag_eq f t t']
    split
    · split
      · exact .some (.retry _ _ (renamed.separated f t t'))
      · exact .none
    · split
      · have parts := renamed.labelParts? f t t'
        generalize t.labelParts? = x, t'.labelParts? = x' at parts
        cases parts with
        | none => exact .none
        | some parts => exact .some (.retry _ _ parts)
      · exact .none
  have doc := renamed.docstring? f t t'
  unfold Heuristics.remedy?
  generalize t.docstring? = x, t'.docstring? = x' at doc
  cases doc with
  | none => cases h.docstrings <;> exact retried
  | some doc =>
    cases h.docstrings with
    | true => exact .some (.setAside _ _ doc)
    | false => exact retried

theorem Likeness.kept_renaming
    (d : Driver Env Value)
    (settled : ∀ env env' t t', E env env' → t.Renamed f t' →
      (Likeness.renaming f E V).Settlings (d.automaton.offerSettled env t)
        (d.automaton.offerSettled env' t')) :
    (Likeness.renaming f E V).Kept d d where
  heuristics := rfl
  markerCount t t' renamed := by rw [renamed, Kind.markerCount_rename]
  position _ _ _ := trivial
  markers n o o' _ := markerTokens_renamed f n o o'
  remedy? t t' renamed := renamed.remedy? f E V d.heuristics t t'
  settled := settled

end Kept

end TolerantParser
