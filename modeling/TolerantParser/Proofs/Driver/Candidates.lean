import TolerantParser.Mini.Lexer
import TolerantParser.Proofs.Driver.SetAside
import TolerantParser.Proofs.Driver.Stream

/-! # Candidates for a refused token

What can be tried for a refused token are three candidates in a fixed order: set it aside, put a
separator before it, split it.  `Candidate` describes each by itself, with the heuristic that
allows it and the steps that it takes.  A driver commits itself to one remedy by the tag of the
token, without trying any other; `offer_eq_first_candidate` says that this is always the first
candidate that does not fail. -/

set_option autoImplicit false

namespace TolerantParser.Driver

variable {Env Value : Type} (d : Driver Env Value)

/-- A step takes each of the tokens, and `o` is what the last step comes to.  Only the last token
may be accepted. -/
inductive Passes : State Env → List Token → Outcome Env Value → Prop
  | last (s : State Env) (t : Token) (o : Outcome Env Value)
      (stepped : d.step s t = o)
      (taken : o.isError = false) :
      Passes s [t] o
  | more (s next : State Env) (t : Token) (ts : List Token) (o : Outcome Env Value)
      (stepped : d.step s t = .intermediate next)
      (rest : Passes next ts o) :
      Passes s (t :: ts) o

/-- `Candidate d s t n o`: for the token `t`, refused at `s`, the candidate of rank `n` is allowed
and does not fail, and `o` is what it comes to. -/
inductive Candidate (s : State Env) (t : Token) : Nat → Outcome Env Value → Prop
  | setAside (doc : Docstring)
      (enabled : d.heuristics.docstrings = true)
      (documents : t.docstring? = some doc) :
      Candidate s t 0 (.intermediate (s.addDocstring doc))
  | separate (o : Outcome Env Value)
      (enabled : d.heuristics.semicolon = true)
      (starts : starters.contains t.tag = true)
      (passes : d.Passes s [⟨.reserved .semi, .point t.span.start⟩, t] o) :
      Candidate s t 1 o
  | split (parts : List Token) (o : Outcome Env Value)
      (enabled : d.heuristics.labelSplit = true)
      (fused : t.labelParts? = some parts)
      (passes : d.Passes s parts o) :
      Candidate s t 2 o

theorem stepAll_cons_eq_some_iff
    (s : State Env)
    (t : Token)
    (ts : List Token)
    (o : Outcome Env Value) :
    d.stepAll s (t :: ts) = some o ↔ d.Passes s (t :: ts) o := by
  induction ts generalizing s t with
  | nil =>
    constructor
    · intro stepped
      cases one : d.step s t with
      | intermediate next =>
        simp only [stepAll, one, Option.some.injEq] at stepped
        exact .last s t o (one.trans stepped) (by rw [← stepped]; rfl)
      | success p =>
        simp only [stepAll, one, List.isEmpty_nil, if_true, Option.some.injEq] at stepped
        exact .last s t o (one.trans stepped) (by rw [← stepped]; rfl)
      | error f => simp [stepAll, one] at stepped
    · intro passes
      cases passes with
      | last _ _ _ one taken =>
        cases o with
        | intermediate next => simp only [stepAll, one]
        | success p => simp only [stepAll, one, List.isEmpty_nil, if_true]
        | error f => cases taken
      | more _ _ _ _ _ _ rest => cases rest
  | cons u us ih =>
    constructor
    · intro stepped
      cases one : d.step s t with
      | intermediate next =>
        rw [stepAll, one] at stepped
        exact .more s next t _ o one ((ih next u).mp stepped)
      | success p => simp [stepAll, one] at stepped
      | error f => simp [stepAll, one] at stepped
    · intro passes
      cases passes with
      | more _ next _ _ _ one rest =>
        rw [stepAll, one]
        exact (ih next u).mpr rest

theorem apply_retry_eq_some_iff
    (s : State Env)
    (t : Token)
    (parts : List Token)
    (o : Outcome Env Value)
    (remedy : d.heuristics.remedy? t = some (.retry parts)) :
    d.apply s (.retry parts) = some o ↔ d.Passes s parts o := by
  obtain ⟨_, nonempty, _⟩ := edit_of_remedy_retry d.heuristics t parts remedy
  obtain ⟨first, rest, rfl⟩ := List.exists_cons_of_ne_nil nonempty
  exact d.stepAll_cons_eq_some_iff s first rest o

theorem exists_candidate_of_apply
    (s : State Env)
    (t : Token)
    (r : Remedy)
    (o : Outcome Env Value)
    (remedy : d.heuristics.remedy? t = some r)
    (applied : d.apply s r = some o) :
    ∃ n, d.Candidate s t n o := by
  cases r with
  | setAside doc =>
    cases applied
    have edit := edit_of_remedy_setAside d.heuristics t doc remedy
    exact ⟨0, .setAside doc edit.enabled edit.documents⟩
  | retry parts =>
    have passes := (d.apply_retry_eq_some_iff s t parts o remedy).mp applied
    rcases cases_of_remedy_retry d.heuristics t parts remedy with
      ⟨enabled, starts, rfl⟩ | ⟨enabled, fused⟩
    · exact ⟨1, .separate o enabled starts passes⟩
    · exact ⟨2, .split parts o enabled fused passes⟩

section Refused
variable (s : State Env) (t : Token) (f : Failure Env)
  (refused : d.step s t = .error f)
include refused

theorem offer_of_passing_retry
    (parts : List Token)
    (o : Outcome Env Value)
    (remedy : d.heuristics.remedy? t = some (.retry parts))
    (passes : d.Passes s parts o) :
    d.offer s t = o := by
  have applied := (d.apply_retry_eq_some_iff s t parts o remedy).mpr passes
  rw [d.offer_of_step_error s t f refused, remedy, Option.bind_some, applied, Option.getD_some]

/-- The remedy of the token is the first of its candidates.  A doc comment starts a statement too,
but to set it aside never fails; no other token has two candidates. -/
theorem offer_of_first_candidate
    (n : Nat)
    (o : Outcome Env Value)
    (candidate : d.Candidate s t n o)
    (first : ∀ m < n, ∀ other, ¬ d.Candidate s t m other) :
    d.offer s t = o := by
  cases candidate with
  | setAside doc enabled documents =>
    exact d.offer_of_refused_docstring s t doc f enabled documents refused
  | separate _ enabled starts passes =>
    have kept : d.heuristics.docstrings = true → t.docstring? = none := by
      intro enabled
      cases documents : t.docstring? with
      | none => rfl
      | some doc => exact absurd (.setAside doc enabled documents) (first 0 Nat.one_pos _)
    have remedy := remedy?_of_starter d.heuristics t starts kept
    rw [if_pos enabled] at remedy
    exact d.offer_of_passing_retry s t f refused t.separated o remedy passes
  | split parts _ enabled fused passes =>
    have remedy := remedy?_of_labelParts d.heuristics t parts fused
    rw [if_pos enabled] at remedy
    exact d.offer_of_passing_retry s t f refused parts o remedy passes

theorem offer_of_no_candidate
    (noCandidate : ∀ n o, ¬ d.Candidate s t n o) :
    d.offer s t = .error f := by
  rw [d.offer_of_step_error s t f refused]
  cases tried : (d.heuristics.remedy? t).bind (d.apply s) with
  | none => rfl
  | some o =>
    obtain ⟨r, remedy, applied⟩ := Option.bind_eq_some_iff.mp tried
    obtain ⟨n, candidate⟩ := d.exists_candidate_of_apply s t r o remedy applied
    exact absurd candidate (noCandidate n o)

/-- A token that is refused is settled by the first of its candidates that is allowed and does not
fail, and if there is none the refusal stands.  Where a split leaves the parse unfinished, offering
the parts as a stream leads to the same state. -/
theorem offer_eq_first_candidate :
    (∀ n o, d.Candidate s t n o → (∀ m < n, ∀ other, ¬ d.Candidate s t m other) →
        d.offer s t = o)
      ∧ ((∀ n o, ¬ d.Candidate s t n o) → d.offer s t = .error f)
      ∧ ∀ parts next, t.labelParts? = some parts → d.Passes s parts (.intermediate next) →
          d.offerMany s parts = ⟨.intermediate next, parts.length⟩ := by
  refine ⟨d.offer_of_first_candidate s t f refused, d.offer_of_no_candidate s t f refused, ?_⟩
  intro parts next fused passes
  obtain ⟨_, ⟨first, rest, rfl, _⟩, _⟩ := tags_of_labelParts t parts fused
  have stepped := (d.stepAll_cons_eq_some_iff s first rest _).mpr passes
  have noRemedy := remedy?_of_mem_labelParts d.heuristics t _ fused
  exact d.offerMany_of_intermediate s next _ (d.outcome_of_stepAll s _ _ noRemedy stepped)

end Refused

/-- A doc comment that is not to be set aside but can follow a separator, a parenthesis that nothing
can help, and an operator behind a label. -/
theorem offer_eq_first_candidate_behind_names :
    let d := Mini.driver { Heuristics.all with docstrings := false }
    let here : Span := .point .zero
    let doc : Token := ⟨.text .docString "d", here⟩
    let close : Token := ⟨.reserved .rparen, here⟩
    let fused : Token := ⟨.text .infixOp0 "=?-", here⟩
    let item : State Mini.Env :=
      ⟨⟨.implementation, [.token ⟨.text .lowerIdent "x", here⟩, .items [] true], none⟩, .empty,
        none⟩
    let next : State Mini.Env :=
      ⟨⟨.implementation, [.token doc, .items [.var "x"] true], none⟩, .empty, none⟩
    let label : State Mini.Env :=
      ⟨⟨.expression, [.token ⟨.text .lowerIdent "l", here⟩, .token ⟨.reserved .tilde, here⟩,
        .args [], .token ⟨.reserved .lparen, here⟩, .token ⟨.text .lowerIdent "f", here⟩], none⟩,
        .empty, none⟩
    (d.Candidate item doc 1 (.intermediate next) ∧ d.offer item doc = .intermediate next)
      ∧ (∃ f, d.step item close = .error f ∧ d.offer item close = .error f)
      ∧ ∃ parts last, fused.labelParts? = some parts
          ∧ d.Passes label parts (.intermediate last)
          ∧ d.offerMany label parts = ⟨.intermediate last, parts.length⟩ := by
  intro d here doc close fused item next label
  refine ⟨?_, ?_, ?_⟩
  · have candidate : d.Candidate item doc 1 (.intermediate next) :=
      .separate _ rfl (by decide) ((d.stepAll_cons_eq_some_iff item _ _ _).mp rfl)
    obtain ⟨first, _⟩ := offer_eq_first_candidate d item doc _ rfl
    refine ⟨candidate, first 1 _ candidate ?_⟩
    rintro m earlier _ (⟨_, enabled, _⟩ | _ | _)
    · cases enabled
    · exact absurd earlier (by decide)
    · exact absurd earlier (by decide)
  · obtain ⟨_, stands, _⟩ := offer_eq_first_candidate d item close _ rfl
    refine ⟨_, rfl, stands ?_⟩
    rintro n _ (⟨_, _, documents⟩ | ⟨_, _, starts⟩ | ⟨_, _, _, isLabel⟩)
    · cases documents
    · exact absurd starts (by decide)
    · cases isLabel
  · obtain ⟨last, passes⟩ :
        ∃ last, d.Passes label (fused.labelParts?.getD []) (.intermediate last) :=
      ⟨_, (d.stepAll_cons_eq_some_iff label _ _ _).mp rfl⟩
    obtain ⟨_, _, streams⟩ := offer_eq_first_candidate d label fused _ rfl
    exact ⟨_, last, rfl, passes, streams _ last rfl passes⟩

end TolerantParser.Driver
