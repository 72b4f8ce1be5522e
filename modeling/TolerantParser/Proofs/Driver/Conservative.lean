import TolerantParser.Mini.Lexer
import TolerantParser.Proofs.Driver.Reading
import TolerantParser.Proofs.Mini.Settling

/-! # Heuristics only ever add parses

A stream that parses keeps its value and its doc comments when heuristics are added.  Against a
driver without any, every driver reads the same tokens to the same environments, though it may
leave second readings open that it never needs (`parseFrom_of_empty`).  Adding separators and label
splitting changes nothing but the remedies of tokens that would have been errors
(`parseFrom_of_addsRemedies`). -/

set_option autoImplicit false

namespace TolerantParser

/-- `g` reads markers and doc comments as `h` does, and has the retrying remedies of `h`. -/
structure Heuristics.AddsRemedies (h g : Heuristics) : Prop where
  postfixReplay : g.postfixReplay = h.postfixReplay
  docstrings : g.docstrings = h.docstrings
  semicolon : h.semicolon = true → g.semicolon = true
  labelSplit : h.labelSplit = true → g.labelSplit = true

theorem Heuristics.addsRemedies_union
    (h : Heuristics)
    (semicolon labelSplit : Bool) :
    h.AddsRemedies
      (h.union { empty with semicolon := semicolon, labelSplit := labelSplit }) := by
  refine ⟨?_, ?_, ?_, ?_⟩
  · simp [union, empty]
  · simp [union, empty]
  · intro enabled
    simp [union, enabled]
  · intro enabled
    simp [union, enabled]

theorem Heuristics.AddsRemedies.remedy?_eq
    (h g : Heuristics)
    (more : h.AddsRemedies g)
    (t : Token)
    (r : Remedy)
    (remedy : h.remedy? t = some r) :
    g.remedy? t = some r := by
  unfold remedy? at remedy ⊢
  rw [more.docstrings]
  split at remedy
  · exact remedy
  · split at remedy
    · next starts =>
      rw [if_pos starts]
      by_cases enabled : h.semicolon = true
      · rw [if_pos (more.semicolon enabled)]
        rwa [if_pos enabled] at remedy
      · rw [if_neg enabled] at remedy
        cases remedy
    · next notStarts =>
      rw [if_neg notStarts]
      by_cases enabled : h.labelSplit = true
      · rw [if_pos (more.labelSplit enabled)]
        rwa [if_pos enabled] at remedy
      · rw [if_neg enabled] at remedy
        cases remedy

namespace Driver

variable {Env Value : Type}

/-! ## Against no heuristics -/

theorem offer_of_empty
    (A : Automaton Env Value)
    (s : State Env)
    (t : Token)
    (settled : s.pending = none) :
    (⟨A, .empty⟩ : Driver Env Value).offer s t
      = (⟨A, .empty⟩ : Driver Env Value).read s.env s.docstrings t := by
  have noRemedy : Heuristics.empty.remedy? t = none := by
    unfold Heuristics.remedy?
    simp [Heuristics.empty]
  rw [offer_of_remedy?_eq_none _ s t noRemedy, step_of_pending_eq_none _ s t settled]

theorem pendingAfter_of_empty
    (A : Automaton Env Value)
    (env : Env)
    (t : Token) :
    (⟨A, .empty⟩ : Driver Env Value).pendingAfter env t = none := rfl

theorem offerMany_of_empty_eq_success_iff
    (A : Automaton Env Value)
    (env : Env)
    (docstrings : Docstrings)
    (ts : List Token)
    (p : Parsed Value) :
    (⟨A, .empty⟩ : Driver Env Value).offerMany ⟨env, docstrings, none⟩ ts
        = ⟨.success p, ts.length⟩
      ↔ A.run env ts = some (.accepted p.value) ∧ p.docstrings = docstrings := by
  induction ts generalizing env with
  | nil => simp [offerMany]
  | cons t ts ih =>
    have offered := offer_of_empty A ⟨env, docstrings, none⟩ t rfl
    cases settled : A.offerSettled env t with
    | needsInput next =>
      have step : (⟨A, .empty⟩ : Driver Env Value).offer ⟨env, docstrings, none⟩ t
          = .intermediate ⟨next, docstrings, none⟩ := by
        simp only [offered, read, settled, pendingAfter_of_empty]
      rw [A.run_cons_of_needsInput env next t ts settled, ← ih next]
      simp only [offerMany, step, List.length_cons, Fed.mk.injEq, Nat.add_right_cancel_iff]
      rw [← Fed.mk.injEq]
    | accepted value =>
      have step : (⟨A, .empty⟩ : Driver Env Value).offer ⟨env, docstrings, none⟩ t
          = .success ⟨value, docstrings⟩ := by
        simp only [offered, read, settled]
      obtain ⟨parsedValue, parsedDocstrings⟩ := p
      cases ts <;> simp [offerMany, step, Automaton.run, settled, eq_comm]
    | failed breakdown =>
      have step : (⟨A, .empty⟩ : Driver Env Value).offer ⟨env, docstrings, none⟩ t
          = .error ⟨breakdown, docstrings, t⟩ := by
        simp only [offered, read, settled]
      cases ts <;> simp [offerMany, step, Automaton.run, settled]

/-- Every driver keeps up with the driver that has no heuristics, environment by environment. -/
theorem parseFrom_of_empty
    (A : Automaton Env Value)
    (h : Heuristics)
    (s₀ s : State Env)
    (reached : Offset)
    (ts : List Token)
    (p : Parsed Value)
    (settled : s₀.pending = none)
    (env : s.env = s₀.env)
    (docstrings : s.docstrings = s₀.docstrings)
    (parsed : (⟨A, .empty⟩ : Driver Env Value).parseFrom s₀ reached ts = .ok p) :
    (⟨A, h⟩ : Driver Env Value).parseFrom s reached ts = .ok p
      ∧ p.docstrings = s₀.docstrings := by
  induction ts generalizing s₀ s reached with
  | nil => cases parsed
  | cons t ts ih =>
    simp only [parseFrom, offer_of_empty A s₀ t settled, read] at parsed
    cases offered : A.offerSettled s₀.env t with
    | needsInput next =>
      simp only [offered, pendingAfter_of_empty] at parsed
      have step := offer_of_offerSettled ⟨A, h⟩ s t next (by rw [env]; exact offered)
      rw [parseFrom, step]
      exact ih ⟨next, s₀.docstrings, none⟩ _ t.span.stop rfl rfl docstrings parsed
    | accepted value =>
      simp only [offered, Except.ok.injEq] at parsed
      have step := offer_of_offerSettled_accepted ⟨A, h⟩ s t value (by rw [env]; exact offered)
      rw [parseFrom, step, ← parsed, docstrings]
      exact ⟨rfl, rfl⟩
    | failed breakdown => simp [offered] at parsed

/-! ## Adding remedies -/

theorem read_congr
    (A : Automaton Env Value)
    (h g : Heuristics)
    (same : g.postfixReplay = h.postfixReplay)
    (env : Env)
    (docstrings : Docstrings)
    (t : Token) :
    (⟨A, g⟩ : Driver Env Value).read env docstrings t
      = (⟨A, h⟩ : Driver Env Value).read env docstrings t := by
  simp only [read, pendingAfter, same]

/-- A step depends on no heuristic but the second reading of marker runs. -/
theorem step_congr
    (A : Automaton Env Value)
    (h g : Heuristics)
    (same : g.postfixReplay = h.postfixReplay)
    (s : State Env)
    (t : Token) :
    (⟨A, g⟩ : Driver Env Value).step s t = (⟨A, h⟩ : Driver Env Value).step s t := by
  simp only [step, reread, read_congr A h g same]

theorem stepAll_congr
    (A : Automaton Env Value)
    (h g : Heuristics)
    (same : g.postfixReplay = h.postfixReplay)
    (s : State Env)
    (ts : List Token) :
    (⟨A, g⟩ : Driver Env Value).stepAll s ts = (⟨A, h⟩ : Driver Env Value).stepAll s ts := by
  induction ts generalizing s with
  | nil => rfl
  | cons t ts ih => simp only [stepAll, step_congr A h g same, ih]

theorem apply_congr
    (A : Automaton Env Value)
    (h g : Heuristics)
    (same : g.postfixReplay = h.postfixReplay)
    (s : State Env)
    (r : Remedy) :
    (⟨A, g⟩ : Driver Env Value).apply s r = (⟨A, h⟩ : Driver Env Value).apply s r := by
  cases r with
  | setAside doc => rfl
  | retry ts => exact stepAll_congr A h g same s ts

theorem offer_of_addsRemedies
    (A : Automaton Env Value)
    (h g : Heuristics)
    (more : h.AddsRemedies g)
    (s : State Env)
    (t : Token)
    (taken : ((⟨A, h⟩ : Driver Env Value).offer s t).isError = false) :
    (⟨A, g⟩ : Driver Env Value).offer s t = (⟨A, h⟩ : Driver Env Value).offer s t := by
  have stepped := step_congr A h g more.postfixReplay s t
  cases first : (⟨A, h⟩ : Driver Env Value).step s t with
  | intermediate next =>
    rw [offer_of_step _ s t (by rw [stepped, first]; rfl),
      offer_of_step _ s t (by rw [first]; rfl), stepped]
  | success p =>
    rw [offer_of_step _ s t (by rw [stepped, first]; rfl),
      offer_of_step _ s t (by rw [first]; rfl), stepped]
  | error f =>
    rw [offer_of_step_error _ s t f first] at taken ⊢
    rw [offer_of_step_error _ s t f (stepped.trans first)]
    cases remedy : h.remedy? t with
    | none =>
      rw [remedy] at taken
      cases taken
    | some r =>
      rw [more.remedy?_eq h g t r remedy, Option.bind_some, Option.bind_some,
        apply_congr A h g more.postfixReplay s r]

theorem parseFrom_of_addsRemedies
    (A : Automaton Env Value)
    (h g : Heuristics)
    (more : h.AddsRemedies g)
    (s : State Env)
    (reached : Offset)
    (ts : List Token)
    (p : Parsed Value)
    (parsed : (⟨A, h⟩ : Driver Env Value).parseFrom s reached ts = .ok p) :
    (⟨A, g⟩ : Driver Env Value).parseFrom s reached ts = .ok p := by
  induction ts generalizing s reached with
  | nil => cases parsed
  | cons t ts ih =>
    rw [parseFrom] at parsed ⊢
    cases offered : (⟨A, h⟩ : Driver Env Value).offer s t with
    | intermediate next =>
      rw [offer_of_addsRemedies A h g more s t (by rw [offered]; rfl), offered]
      rw [offered] at parsed
      exact ih next t.span.stop parsed
    | success p' =>
      rw [offer_of_addsRemedies A h g more s t (by rw [offered]; rfl), offered]
      rw [offered] at parsed
      exact parsed
    | error f =>
      rw [offered] at parsed
      cases parsed

/-! ## Whole parses -/

/-- A parse without heuristics stays the same under any heuristics, and a parse under some stays
the same when separators or label splitting or both are added. -/
theorem parse_of_fewer_heuristics
    (A : Automaton Env Value)
    (goal : Goal)
    (o : Offset)
    (ts : List Token)
    (p : Parsed Value) :
    ((⟨A, .empty⟩ : Driver Env Value).parse goal o ts = .ok (.ok p) →
        p.docstrings = .empty
          ∧ ∀ h, (⟨A, h⟩ : Driver Env Value).parse goal o ts = .ok (.ok p))
      ∧ ∀ h, (⟨A, h⟩ : Driver Env Value).parse goal o ts = .ok (.ok p) →
          ∀ semicolon labelSplit,
            (⟨A, h.union { Heuristics.empty with semicolon, labelSplit }⟩ : Driver Env Value).parse
              goal o ts = .ok (.ok p) := by
  constructor
  · intro parsed
    obtain ⟨s, start, parsed⟩ := (parse_eq_ok_iff _ goal o ts p).mp parsed
    have fresh : s.pending = none ∧ s.docstrings = .empty := by
      obtain ⟨env, _, rfl⟩ := (initial_eq_ok_iff _ goal o s).mp start
      exact ⟨rfl, rfl⟩
    refine ⟨?_, ?_⟩
    · rw [← fresh.2]
      exact (parseFrom_of_empty A .empty s s o ts p fresh.1 rfl rfl parsed).2
    · intro h
      exact (parse_eq_ok_iff _ goal o ts p).mpr
        ⟨s, start, (parseFrom_of_empty A h s s o ts p fresh.1 rfl rfl parsed).1⟩
  · intro h parsed semicolon labelSplit
    obtain ⟨s, start, parsed⟩ := (parse_eq_ok_iff _ goal o ts p).mp parsed
    exact (parse_eq_ok_iff _ goal o ts p).mpr
      ⟨s, start, parseFrom_of_addsRemedies A h _ (h.addsRemedies_union semicolon labelSplit)
        s o ts p parsed⟩

/-- An infix operator that needs no heuristics, and a marker run that needs a second reading. -/
theorem parse_of_fewer_heuristics_at_markers :
    (Mini.driver .all).parse .expression .zero (Mini.lex "x ^ y")
        = .ok (.ok ⟨.binary "^" (.var "x") (.var "y"), .empty⟩)
      ∧ (Mini.driver .all).parse .expression .zero (Mini.lex "x ^")
        = .ok (.ok ⟨.postfixed (.var "x") ["^"], .empty⟩) := by
  have plain : (Mini.driver .empty).parse .expression .zero (Mini.lex "x ^ y")
      = .ok (.ok ⟨.binary "^" (.var "x") (.var "y"), .empty⟩) := rfl
  have reread : (Mini.driver ⟨true, true, false, false⟩).parse .expression .zero (Mini.lex "x ^")
      = .ok (.ok ⟨.postfixed (.var "x") ["^"], .empty⟩) := rfl
  exact ⟨((parse_of_fewer_heuristics Mini.automaton _ _ _ _).1 plain).2 .all,
    (parse_of_fewer_heuristics Mini.automaton _ _ _ _).2 _ reread true true⟩

end Driver

end TolerantParser
