import TolerantParser.Mini.Lexer
import TolerantParser.Proofs.Driver.Reading
import TolerantParser.Proofs.Mini.Settling

/-! # Every run reads an edited stream

The heuristics of a driver amount to edits of single tokens.  `Edit` lists them, and `Edits` edits
every token of a stream on its own.  `History` is the invariant of a run: the state is where a
plain run over some edited stream arrives, and if a marker run is pending it was the last token of
that stream and the fallback is where the automaton stood before it.  One offer extends the history
(`History.exists_of_offer`), hence so does a whole stream, and a parse that succeeds ends a plain
run over an edited stream (`exists_edits_of_offerMany`). -/

set_option autoImplicit false

namespace TolerantParser

/-- `Edit h t us ds`: the heuristics `h` may read the token `t` as the tokens `us`, with the doc
comments `ds` set aside. -/
inductive Edit (h : Heuristics) (t : Token) : List Token → List Docstring → Prop
  | keep : Edit h t [t] []
  | setAside (doc : Docstring) (enabled : h.docstrings = true)
      (documents : t.docstring? = some doc) : Edit h t [] [doc]
  | separate (enabled : h.semicolon = true) (starts : starters.contains t.tag = true) :
      Edit h t [⟨.reserved .semi, .point t.span.start⟩, t] []
  | split (parts : List Token) (enabled : h.labelSplit = true)
      (fused : t.labelParts? = some parts) : Edit h t parts []
  | replay (n : Nat) (enabled : h.postfixReplay = true) (marked : t.kind.markerCount = some n) :
      Edit h t (markerTokens n t.span.start) []

/-- Each token of the first list is edited on its own: in order, the results make up the second
list and the doc comments set aside the third. -/
inductive Edits (h : Heuristics) : List Token → List Token → List Docstring → Prop
  | nil : Edits h [] [] []
  | snoc {ts us vs : List Token} {t : Token} {ds es : List Docstring}
      (before : Edits h ts us ds) (last : Edit h t vs es) :
      Edits h (ts ++ [t]) (us ++ vs) (ds ++ es)

theorem Edit.documents
    {h : Heuristics} {t : Token} {us : List Token} {doc : Docstring}
    (edit : Edit h t us [doc]) :
    t.docstring? = some doc := by
  cases edit
  assumption

theorem Edit.enabled
    {h : Heuristics} {t : Token} {us : List Token} {doc : Docstring}
    (edit : Edit h t us [doc]) :
    h.docstrings = true := by
  cases edit
  assumption

/-! ## The tokens that remedies offer -/

theorem tag_of_markerCount
    (t : Token)
    (n : Nat)
    (marked : t.kind.markerCount = some n) :
    t.tag = .text .infixOp1 := by
  rw [Token.tag, ((t.kind.markerCount_eq_some_iff n).mp marked).1]
  rfl

theorem markerCount_eq_none_of_tag
    (t : Token)
    (other : t.tag ≠ .text .infixOp1) :
    t.kind.markerCount = none := by
  cases counted : t.kind.markerCount with
  | none => rfl
  | some n => exact absurd (tag_of_markerCount t n counted) other

theorem markerCount_eq_none_of_starter
    (t : Token)
    (starts : starters.contains t.tag = true) :
    t.kind.markerCount = none := by
  apply markerCount_eq_none_of_tag
  intro tagged
  rw [tagged] at starts
  exact absurd starts (by decide)

theorem FusedLabel.tag_of_mem_tokens
    (f : FusedLabel)
    (span : Span)
    (t : Token)
    (member : t ∈ f.tokens span) :
    t.tag = .reserved .equal ∨ t.tag = .reserved .question
      ∨ ∃ op : LabelOperator, t.tag = .reserved op.reserved := by
  obtain ⟨isOptional, operator⟩ := f
  cases isOptional <;> simp only [tokens, if_true, Bool.false_eq_true, if_false, List.mem_cons,
    List.not_mem_nil, or_false] at member
  · rcases member with rfl | rfl
    · exact .inl rfl
    · exact .inr (.inr ⟨operator, rfl⟩)
  · rcases member with rfl | rfl | rfl
    · exact .inl rfl
    · exact .inr (.inl rfl)
    · exact .inr (.inr ⟨operator, rfl⟩)

/-- A fused label operator has an equals sign and then more parts, none of which is one of the
classes with a text. -/
theorem tags_of_labelParts
    (t : Token)
    (parts : List Token)
    (fused : t.labelParts? = some parts) :
    t.tag = .text .infixOp0
      ∧ (∃ equal rest, parts = equal :: rest ∧ equal.tag = .reserved .equal)
      ∧ ∀ part ∈ parts, part.tag = .reserved .equal ∨ part.tag = .reserved .question
        ∨ ∃ op : LabelOperator, part.tag = .reserved op.reserved := by
  obtain ⟨kind, span⟩ := t
  unfold Token.labelParts? at fused
  split at fused
  · next s classed =>
    simp only at classed
    subst classed
    obtain ⟨f, _, rfl⟩ := Option.map_eq_some_iff.mp fused
    refine ⟨rfl, ?_, f.tag_of_mem_tokens span⟩
    unfold FusedLabel.tokens
    split <;> exact ⟨_, _, rfl, rfl⟩
  · cases fused

theorem markerCount_of_mem_labelParts
    (t : Token)
    (parts : List Token)
    (fused : t.labelParts? = some parts) :
    parts ≠ [] ∧ ∀ part ∈ parts, part.kind.markerCount = none := by
  obtain ⟨_, ⟨equal, rest, rfl, _⟩, tags⟩ := tags_of_labelParts t parts fused
  refine ⟨List.cons_ne_nil equal rest, fun part member => ?_⟩
  apply markerCount_eq_none_of_tag
  rcases tags part member with tagged | tagged | ⟨op, tagged⟩ <;> rw [tagged] <;> nofun

theorem cases_of_remedy_retry
    (h : Heuristics)
    (t : Token)
    (parts : List Token)
    (remedy : h.remedy? t = some (.retry parts)) :
    h.semicolon = true ∧ starters.contains t.tag = true ∧ parts = t.separated
      ∨ h.labelSplit = true ∧ t.labelParts? = some parts := by
  unfold Heuristics.remedy? at remedy
  split at remedy
  · cases remedy
  · split at remedy
    · next starts =>
      split at remedy
      · next enabled =>
        cases remedy
        exact .inl ⟨enabled, starts, rfl⟩
      · cases remedy
    · split at remedy
      · next enabled =>
        obtain ⟨parts', fused, same⟩ := Option.map_eq_some_iff.mp remedy
        cases same
        exact .inr ⟨enabled, fused⟩
      · cases remedy

/-- A remedy that retries tokens is an edit, and leaves no second reading open. -/
theorem edit_of_remedy_retry
    (h : Heuristics)
    (t : Token)
    (parts : List Token)
    (remedy : h.remedy? t = some (.retry parts)) :
    Edit h t parts [] ∧ parts ≠ [] ∧ ∀ part ∈ parts, part.kind.markerCount = none := by
  rcases cases_of_remedy_retry h t parts remedy with ⟨enabled, starts, rfl⟩ | ⟨enabled, fused⟩
  · refine ⟨.separate enabled starts, by simp [Token.separated], ?_⟩
    intro part member
    simp only [Token.separated, List.mem_cons, List.not_mem_nil, or_false] at member
    rcases member with rfl | rfl
    · rfl
    · exact markerCount_eq_none_of_starter part starts
  · exact ⟨.split parts enabled fused, markerCount_of_mem_labelParts t parts fused⟩

theorem edit_of_remedy_setAside
    (h : Heuristics)
    (t : Token)
    (doc : Docstring)
    (remedy : h.remedy? t = some (.setAside doc)) :
    Edit h t [] [doc] := by
  unfold Heuristics.remedy? at remedy
  split at remedy
  · next doc' enabled documents =>
    cases remedy
    exact .setAside doc enabled documents
  · split at remedy
    · split at remedy <;> cases remedy
    · split at remedy
      · obtain ⟨_, _, impossible⟩ := Option.map_eq_some_iff.mp remedy
        cases impossible
      · cases remedy

theorem docstring?_isSome_iff
    (t : Token) :
    t.docstring?.isSome = true ↔ t.tag = .text .docString := by
  obtain ⟨kind, span⟩ := t
  cases kind with
  | text c s => cases c <;> simp [Token.docstring?]
  | reserved r => simp [Token.docstring?]
  | eof => simp [Token.docstring?]

theorem tag_of_docstring?
    (t : Token)
    (doc : Docstring)
    (documents : t.docstring? = some doc) :
    t.tag = .text .docString := by
  rw [← docstring?_isSome_iff, documents]
  rfl

theorem docstring?_eq_none
    (t : Token)
    (other : t.tag ≠ .text .docString) :
    t.docstring? = none := by
  rw [← Option.not_isSome_iff_eq_none, docstring?_isSome_iff]
  exact other

theorem markerCount_eq_none_of_docstring
    (t : Token)
    (doc : Docstring)
    (documents : t.docstring? = some doc) :
    t.kind.markerCount = none := by
  apply markerCount_eq_none_of_tag
  rw [tag_of_docstring? t doc documents]
  decide

theorem tag_of_mem_markerTokens
    (n : Nat)
    (o : Offset)
    (u : Token)
    (member : u ∈ markerTokens n o) :
    u.tag = .text .postfixOp := by
  obtain ⟨i, _, rfl⟩ := List.mem_map.mp member
  rfl

theorem remedy?_eq_none
    (h : Heuristics)
    (t : Token)
    (noDoc : t.tag ≠ .text .docString)
    (noStarter : starters.contains t.tag = false)
    (noLabel : t.tag ≠ .text .infixOp0) :
    h.remedy? t = none := by
  have noParts : t.labelParts? = none := by
    cases fused : t.labelParts? with
    | none => rfl
    | some parts => exact absurd (tags_of_labelParts t parts fused).1 noLabel
  simp [Heuristics.remedy?, docstring?_eq_none t noDoc, noStarter, noParts]

theorem remedy?_of_operator
    (h : Heuristics)
    (t : Token)
    (operator : t.tag = .text .infixOp1 ∨ t.tag = .text .postfixOp) :
    h.remedy? t = none := by
  rcases operator with tagged | tagged <;>
    exact remedy?_eq_none h t (by rw [tagged]; decide) (by rw [tagged]; decide)
      (by rw [tagged]; decide)

theorem remedy?_of_starter
    (h : Heuristics)
    (t : Token)
    (starts : starters.contains t.tag = true)
    (kept : h.docstrings = true → t.docstring? = none) :
    h.remedy? t = if h.semicolon then some (.retry t.separated) else none := by
  unfold Heuristics.remedy?
  split
  · next doc enabled documents =>
    rw [kept enabled] at documents
    cases documents
  · rw [if_pos starts]

theorem remedy?_of_mem_labelParts
    (h : Heuristics)
    (t : Token)
    (parts : List Token)
    (fused : t.labelParts? = some parts) :
    ∀ part ∈ parts, h.remedy? part = none := by
  intro part member
  obtain ⟨_, _, tags⟩ := tags_of_labelParts t parts fused
  rcases tags part member with tagged | tagged | ⟨op, tagged⟩
  · exact remedy?_eq_none h part (by rw [tagged]; decide) (by rw [tagged]; decide)
      (by rw [tagged]; decide)
  · exact remedy?_eq_none h part (by rw [tagged]; decide) (by rw [tagged]; decide)
      (by rw [tagged]; decide)
  · refine remedy?_eq_none h part ?_ ?_ ?_ <;> rw [tagged] <;> cases op <;> decide

theorem remedy?_of_labelParts
    (h : Heuristics)
    (t : Token)
    (parts : List Token)
    (fused : t.labelParts? = some parts) :
    h.remedy? t = if h.labelSplit then some (.retry parts) else none := by
  have isInfix := (tags_of_labelParts t parts fused).1
  have noDoc : t.docstring? = none := docstring?_eq_none t (by rw [isInfix]; decide)
  have noStarter : starters.contains t.tag = false := by
    rw [isInfix]
    decide
  simp [Heuristics.remedy?, noDoc, noStarter, fused]

/-! ## The invariant of a run -/

namespace Driver

variable {Env Value : Type}

/-- The state `s`, reached from `env₀` by offering `ts`, is where the plain run over the edited
stream `us` arrives. -/
structure History (d : Driver Env Value) (env₀ : Env) (ts us : List Token) (s : State Env) :
    Prop where
  edits : Edits d.heuristics ts us s.docstrings.toList
  run : d.automaton.run env₀ us = some (.needsInput s.env)
  /-- a pending run came last, and could have been edited into postfix operators -/
  pending : ∀ p, s.pending = some p → ∃ before marker,
    us = before ++ [marker] ∧ marker.kind.markerCount = some p.count
      ∧ marker.span.start = p.position
      ∧ d.automaton.run env₀ before = some (.needsInput p.fallback)
      ∧ Edits d.heuristics ts (before ++ markerTokens p.count p.position) s.docstrings.toList

theorem History.initial
    (d : Driver Env Value)
    (env₀ : Env) :
    d.History env₀ [] [] ⟨env₀, .empty, none⟩ where
  edits := .nil
  run := rfl
  pending := by
    intro p pending
    cases pending

theorem History.exists_of_reading
    (d : Driver Env Value)
    (env₀ env : Env)
    (ts us : List Token)
    (s : State Env)
    (history : d.History env₀ ts us s)
    (reading : d.Reading s env) :
    ∃ vs, Edits d.heuristics ts vs s.docstrings.toList
      ∧ d.automaton.run env₀ vs = some (.needsInput env) := by
  cases reading with
  | plain => exact ⟨us, history.edits, history.run⟩
  | reread p env pending replayed =>
    obtain ⟨before, marker, _, _, _, run, edits⟩ := history.pending p pending
    refine ⟨before ++ markerTokens p.count p.position, edits, ?_⟩
    rw [d.automaton.run_append env₀ p.fallback before _ run]
    exact (d.automaton.offerAll_eq_some_iff p.fallback env _).mp replayed

theorem History.of_read
    (d : Driver Env Value)
    (env₀ env : Env)
    (ts us : List Token)
    (docstrings : Docstrings)
    (t : Token)
    (s : State Env)
    (edits : Edits d.heuristics ts us docstrings.toList)
    (run : d.automaton.run env₀ us = some (.needsInput env))
    (hread : d.read env docstrings t = .intermediate s) :
    d.History env₀ (ts ++ [t]) (us ++ [t]) s := by
  obtain ⟨offered, kept, after⟩ := (d.read_eq_intermediate_iff env docstrings t s).mp hread
  have one := (d.automaton.run_singleton env t).trans (congrArg some offered)
  refine ⟨?_, ?_, ?_⟩
  · rw [kept]
    simpa using edits.snoc .keep
  · rw [d.automaton.run_append env₀ env us [t] run]
    exact one
  · intro p pending
    rw [after] at pending
    obtain ⟨enabled, counted, fallback, position⟩ := (d.pendingAfter_eq_some_iff env t p).mp pending
    refine ⟨us, t, rfl, counted, position.symm, by rw [fallback]; exact run, ?_⟩
    rw [kept, position]
    simpa using edits.snoc (.replay p.count enabled counted)

/-- What an offer that does not fail amounts to: the token is read as it is, or set aside, or
replaced by the tokens of a remedy. -/
inductive Taken (d : Driver Env Value) (s : State Env) (t : Token) : Outcome Env Value → Prop
  | kept (env : Env) (reading : d.Reading s env) : Taken d s t (d.read env s.docstrings t)
  | setAside (doc : Docstring) (edit : Edit d.heuristics t [] [doc]) :
      Taken d s t (.intermediate (s.addDocstring doc))
  | replaced (parts : List Token) (env : Env) (x : Settled Env Value) (o : Outcome Env Value)
      (edit : Edit d.heuristics t parts []) (reading : d.Reading s env)
      (run : d.automaton.run env parts = some x) (concluded : conclude s.docstrings x = some o) :
      Taken d s t o

theorem taken_of_offer
    (d : Driver Env Value)
    (s : State Env)
    (t : Token)
    (accepted : (d.offer s t).isError = false) :
    d.Taken s t (d.offer s t) := by
  by_cases first : (d.step s t).isError = false
  · obtain ⟨env, reading, stepped⟩ := d.exists_reading_of_step s t first
    rw [d.offer_of_step s t first, stepped]
    exact .kept env reading
  · cases stepped : d.step s t with
    | intermediate next => rw [stepped] at first; exact absurd rfl first
    | success p => rw [stepped] at first; exact absurd rfl first
    | error f =>
      rw [d.offer_of_step_error s t f stepped] at accepted ⊢
      cases remedy : d.heuristics.remedy? t with
      | none =>
        rw [remedy] at accepted
        cases accepted
      | some r =>
        cases r with
        | setAside doc => exact .setAside doc (edit_of_remedy_setAside d.heuristics t doc remedy)
        | retry parts =>
          obtain ⟨edit, nonempty, unmarked⟩ := edit_of_remedy_retry d.heuristics t parts remedy
          obtain ⟨part, rest, rfl⟩ := List.exists_cons_of_ne_nil nonempty
          simp only [remedy, Option.bind_some, apply] at accepted ⊢
          cases retried : d.stepAll s (part :: rest) with
          | none =>
            rw [retried] at accepted
            cases accepted
          | some o =>
            obtain ⟨env, x, reading, run, concluded⟩ :=
              d.exists_reading_of_stepAll s part rest o unmarked retried
            exact .replaced (part :: rest) env x o edit reading run concluded

/-- Only a marker run opens a second reading, and only a doc comment that is set aside keeps one
open. -/
theorem pending_of_offer
    (d : Driver Env Value)
    (s next : State Env)
    (t : Token)
    (unmarked : t.kind.markerCount = none)
    (offered : d.offer s t = .intermediate next) :
    next.pending = none ∨ t.docstring? ≠ none ∧ next.pending = s.pending := by
  have taken := d.taken_of_offer s t (by rw [offered]; rfl)
  generalize d.offer s t = o at taken offered
  cases taken with
  | kept env reading =>
    have after := ((d.read_eq_intermediate_iff env s.docstrings t next).mp offered).2.2
    exact .inl (after.trans (d.pendingAfter_eq_none env t unmarked))
  | setAside doc edit =>
    cases offered
    exact .inr ⟨by simp [edit.documents], rfl⟩
  | replaced parts env x o edit reading run concluded =>
    subst offered
    exact .inl (conclude_eq_intermediate _ _ _ concluded).2.2

theorem History.exists_of_offer
    (d : Driver Env Value)
    (env₀ : Env)
    (ts us : List Token)
    (s next : State Env)
    (t : Token)
    (history : d.History env₀ ts us s)
    (offered : d.offer s t = .intermediate next) :
    ∃ vs, d.History env₀ (ts ++ [t]) vs next := by
  have taken := d.taken_of_offer s t (by rw [offered]; rfl)
  generalize d.offer s t = o at taken offered
  cases taken with
  | kept env reading =>
    obtain ⟨vs, edits, run⟩ := history.exists_of_reading d env₀ env ts us s reading
    exact ⟨vs ++ [t], .of_read d env₀ env ts vs s.docstrings t next edits run offered⟩
  | setAside doc edit =>
    cases offered
    refine ⟨us, ?_, history.run, ?_⟩
    · simpa using history.edits.snoc edit
    · intro p pending
      obtain ⟨before, marker, last, counted, position, run, edits⟩ := history.pending p pending
      exact ⟨before, marker, last, counted, position, run, by simpa using edits.snoc edit⟩
  | replaced parts env x o edit reading run concluded =>
    subst offered
    obtain ⟨arrived, kept, settled⟩ := conclude_eq_intermediate _ _ _ concluded
    obtain ⟨vs, edits, before⟩ := history.exists_of_reading d env₀ env ts us s reading
    refine ⟨vs ++ parts, ?_, ?_, ?_⟩
    · rw [kept]
      simpa using edits.snoc edit
    · rw [d.automaton.run_append env₀ env vs parts before, run, arrived]
    · intro p pending
      rw [settled] at pending
      cases pending

theorem History.exists_of_offer_success
    (d : Driver Env Value)
    (env₀ : Env)
    (ts us : List Token)
    (s : State Env)
    (t : Token)
    (p : Parsed Value)
    (history : d.History env₀ ts us s)
    (offered : d.offer s t = .success p) :
    ∃ vs, Edits d.heuristics (ts ++ [t]) vs p.docstrings.toList
      ∧ d.automaton.run env₀ vs = some (.accepted p.value) := by
  have taken := d.taken_of_offer s t (by rw [offered]; rfl)
  generalize d.offer s t = o at taken offered
  cases taken with
  | kept env reading =>
    obtain ⟨vs, edits, run⟩ := history.exists_of_reading d env₀ env ts us s reading
    obtain ⟨accepted, kept⟩ := (d.read_eq_success_iff env s.docstrings t p).mp offered
    refine ⟨vs ++ [t], ?_, ?_⟩
    · rw [kept]
      simpa using edits.snoc .keep
    · rw [d.automaton.run_append env₀ env vs [t] run, d.automaton.run_singleton env t, accepted]
  | setAside doc edit => cases offered
  | replaced parts env x o edit reading run concluded =>
    subst offered
    obtain ⟨arrived, kept⟩ := conclude_eq_success _ _ _ concluded
    obtain ⟨vs, edits, before⟩ := history.exists_of_reading d env₀ env ts us s reading
    refine ⟨vs ++ parts, ?_, ?_⟩
    · rw [kept]
      simpa using edits.snoc edit
    · rw [d.automaton.run_append env₀ env vs parts before, run, arrived]

/-! ## Whole streams -/

theorem History.exists_of_offerMany
    (d : Driver Env Value)
    (env₀ : Env)
    (done us ts : List Token)
    (s next : State Env)
    (history : d.History env₀ done us s)
    (fed : (d.offerMany s ts).outcome = .intermediate next) :
    ∃ vs, d.History env₀ (done ++ ts) vs next := by
  induction ts generalizing done us s with
  | nil =>
    cases fed
    exact ⟨us, by simpa using history⟩
  | cons t ts ih =>
    cases offered : d.offer s t with
    | intermediate middle =>
      obtain ⟨vs, extended⟩ := history.exists_of_offer d env₀ done us s middle t offered
      have rest : (d.offerMany middle ts).outcome = .intermediate next := by
        simpa only [offerMany, offered] using fed
      simpa using ih (done ++ [t]) vs middle extended rest
    | success p => simp [offerMany, offered] at fed
    | error f => simp [offerMany, offered] at fed

theorem History.exists_of_offerMany_success
    (d : Driver Env Value)
    (env₀ : Env)
    (done us ts : List Token)
    (s : State Env)
    (p : Parsed Value)
    (history : d.History env₀ done us s)
    (fed : d.offerMany s ts = ⟨.success p, ts.length⟩) :
    ∃ vs, Edits d.heuristics (done ++ ts) vs p.docstrings.toList
      ∧ d.automaton.run env₀ vs = some (.accepted p.value) := by
  induction ts generalizing done us s with
  | nil => simp [offerMany] at fed
  | cons t ts ih =>
    cases offered : d.offer s t with
    | intermediate middle =>
      obtain ⟨vs, extended⟩ := history.exists_of_offer d env₀ done us s middle t offered
      have rest : d.offerMany middle ts = ⟨.success p, ts.length⟩ := by
        simp only [offerMany, offered, List.length_cons, Fed.mk.injEq, Nat.add_right_cancel_iff]
          at fed
        rw [← fed.1, ← fed.2]
      simpa using ih (done ++ [t]) vs middle extended rest
    | success p' =>
      have last : p' = p ∧ ts = [] := by
        simpa [offerMany, offered, eq_comm] using fed
      obtain ⟨rfl, rfl⟩ := last
      exact history.exists_of_offer_success d env₀ done us s t p' offered
    | error f => simp [offerMany, offered] at fed

/-- Whatever a driver does with a stream, a plain run does with an edited stream: it arrives at the
same environment, or accepts the same value, and the edits set the same doc comments aside.  If a
marker run is pending, it was the last token of the edited stream, and the fallback is where the
plain run stood before it. -/
theorem exists_edits_of_offerMany
    (d : Driver Env Value)
    (goal : Goal)
    (o : Offset)
    (s₀ : State Env)
    (ts : List Token)
    (start : d.initial goal o = .ok s₀) :
    d.automaton.settle (d.automaton.start goal o) = .needsInput s₀.env
      ∧ (∀ s, (d.offerMany s₀ ts).outcome = .intermediate s →
          ∃ us, Edits d.heuristics ts us s.docstrings.toList
            ∧ d.automaton.run s₀.env us = some (.needsInput s.env)
            ∧ ∀ p, s.pending = some p → ∃ before marker, us = before ++ [marker]
                ∧ marker.kind.markerCount = some p.count ∧ marker.span.start = p.position
                ∧ d.automaton.run s₀.env before = some (.needsInput p.fallback))
      ∧ (∀ p, d.offerMany s₀ ts = ⟨.success p, ts.length⟩ →
          ∃ us, Edits d.heuristics ts us p.docstrings.toList
            ∧ d.automaton.run s₀.env us = some (.accepted p.value)) := by
  obtain ⟨env, started, rfl⟩ := (d.initial_eq_ok_iff goal o s₀).mp start
  refine ⟨started, ?_, ?_⟩
  · intro s fed
    obtain ⟨us, history⟩ := (History.initial d env).exists_of_offerMany d env [] [] ts _ s fed
    refine ⟨us, history.edits, history.run, ?_⟩
    intro p pending
    obtain ⟨before, marker, last, counted, position, run, _⟩ := history.pending p pending
    exact ⟨before, marker, last, counted, position, run⟩
  · intro p fed
    exact (History.initial d env).exists_of_offerMany_success d env [] [] ts _ p fed

/-- A marker run that is pending over a doc comment, and then read again. -/
theorem exists_edits_of_marker_run :
    (∃ us, Edits .all (Mini.lexWords "x ^^ /**d*/") us [⟨"d", ⟨.clamp 5, .clamp 11⟩⟩]
        ∧ Mini.automaton.run (Mini.initialState .useFile).env us
          = some (.needsInput ⟨.useFile, [.token ⟨.text .infixOp1 "^^", ⟨.clamp 2, .clamp 4⟩⟩,
              .expr (.var "x"), .items [] true], none⟩))
      ∧ ∃ us, Edits .all (Mini.lex "x ^^ /**d*/ open M") us [⟨"d", ⟨.clamp 5, .clamp 11⟩⟩]
          ∧ Mini.automaton.run (Mini.initialState .useFile).env us
            = some (.accepted (.phrases [.postfixed (.var "x") ["^", "^"], .openItem "M"])) := by
  have start : (Mini.driver .all).initial .useFile .zero = .ok (Mini.initialState .useFile) := rfl
  have waiting : ((Mini.driver .all).offerMany (Mini.initialState .useFile)
        (Mini.lexWords "x ^^ /**d*/")).outcome
      = .intermediate
          ⟨⟨.useFile, [.token ⟨.text .infixOp1 "^^", ⟨.clamp 2, .clamp 4⟩⟩, .expr (.var "x"),
              .items [] true], none⟩,
            .ofList [⟨"d", ⟨.clamp 5, .clamp 11⟩⟩],
            some ⟨⟨.useFile, [.token ⟨.text .lowerIdent "x", ⟨.clamp 0, .clamp 1⟩⟩,
              .items [] true], none⟩, 2, .clamp 2⟩⟩ := rfl
  have fed : (Mini.driver .all).offerMany (Mini.initialState .useFile)
        (Mini.lex "x ^^ /**d*/ open M")
      = ⟨.success ⟨.phrases [.postfixed (.var "x") ["^", "^"], .openItem "M"],
          .ofList [⟨"d", ⟨.clamp 5, .clamp 11⟩⟩]⟩, 6⟩ := rfl
  obtain ⟨us, edits, run, _⟩ :=
    (exists_edits_of_offerMany (Mini.driver .all) .useFile .zero _ _ start).2.1 _ waiting
  exact ⟨⟨us, edits, run⟩,
    (exists_edits_of_offerMany (Mini.driver .all) .useFile .zero _ _ start).2.2 _ fed⟩

end Driver

end TolerantParser
