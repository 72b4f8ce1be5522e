import TolerantParser.Proofs.Driver.Reading

/-! # Streams of tokens

A stream is offered up to the token that ends the parse, and what comes after that token does not
matter.  `exists_end_of_offerMany` finds the token, `offerMany_append` cuts a stream before it, and
`parseFrom_eq` says that a parse is the outcome of its stream.  A run of the automaton that accepts
needs no heuristics, so every driver follows it (`offerMany_of_run`).  A refused token that is
retried in its parts leads where the stream of them does (`offer_of_retry_iff`). -/

set_option autoImplicit false

namespace TolerantParser.Driver

variable {Env Value : Type} (d : Driver Env Value)

theorem offerMany_of_intermediate
    (s next : State Env)
    (ts : List Token)
    (fed : (d.offerMany s ts).outcome = .intermediate next) :
    d.offerMany s ts = ⟨.intermediate next, ts.length⟩ := by
  induction ts generalizing s with
  | nil =>
    cases fed
    rfl
  | cons t ts ih =>
    cases offered : d.offer s t with
    | intermediate middle =>
      simp only [offerMany, offered] at fed ⊢
      rw [ih middle fed, List.length_cons]
    | success p => simp [offerMany, offered] at fed
    | error f => simp [offerMany, offered] at fed

theorem offerMany_append
    (s next : State Env)
    (us ts : List Token)
    (fed : (d.offerMany s us).outcome = .intermediate next) :
    d.offerMany s (us ++ ts)
      = ⟨(d.offerMany next ts).outcome, us.length + (d.offerMany next ts).pulled⟩ := by
  induction us generalizing s with
  | nil =>
    cases fed
    simp
  | cons u us ih =>
    cases offered : d.offer s u with
    | intermediate middle =>
      simp only [offerMany, offered] at fed
      simp only [List.cons_append, offerMany, offered, ih middle fed, List.length_cons,
        Fed.mk.injEq, true_and]
      omega
    | success p => simp [offerMany, offered] at fed
    | error f => simp [offerMany, offered] at fed

theorem exists_intermediate_of_beginning
    (s next : State Env)
    (us ts : List Token)
    (begins : us <+: ts)
    (fed : (d.offerMany s ts).outcome = .intermediate next) :
    ∃ middle, (d.offerMany s us).outcome = .intermediate middle := by
  obtain ⟨rest, rfl⟩ := begins
  induction us generalizing s with
  | nil => exact ⟨s, rfl⟩
  | cons u us ih =>
    cases offered : d.offer s u with
    | intermediate middle =>
      simp only [List.cons_append, offerMany, offered] at fed ⊢
      exact ih middle fed
    | success p => simp [offerMany, offered] at fed
    | error f => simp [offerMany, offered] at fed

theorem exists_end_of_offerMany
    (s : State Env)
    (ts : List Token)
    (ended : (d.offerMany s ts).outcome.isIntermediate = false) :
    ∃ before t rest last, ts = before ++ t :: rest
      ∧ (d.offerMany s before).outcome = .intermediate last
      ∧ d.offer last t = (d.offerMany s ts).outcome := by
  induction ts generalizing s with
  | nil => cases ended
  | cons t ts ih =>
    cases offered : d.offer s t with
    | intermediate next =>
      simp only [offerMany, offered] at ended ⊢
      obtain ⟨before, u, rest, last, rfl, fed, ends⟩ := ih next ended
      refine ⟨t :: before, u, rest, last, rfl, ?_, ends⟩
      simpa only [offerMany, offered] using fed
    | success p => exact ⟨[], t, ts, s, rfl, rfl, by simp [offerMany, offered]⟩
    | error f => exact ⟨[], t, ts, s, rfl, rfl, by simp [offerMany, offered]⟩

theorem offerMany_of_end
    (s last : State Env)
    (before rest : List Token)
    (t : Token)
    (fed : (d.offerMany s before).outcome = .intermediate last)
    (ended : (d.offer last t).isIntermediate = false) :
    d.offerMany s (before ++ t :: rest) = ⟨d.offer last t, before.length + 1⟩ := by
  rw [d.offerMany_append s last before _ fed]
  cases offered : d.offer last t with
  | intermediate next =>
    rw [offered] at ended
    cases ended
  | success p => simp only [offerMany, offered]
  | error f => simp only [offerMany, offered]

theorem offerMany_append_of_ended
    (s : State Env)
    (us ts : List Token)
    (ended : (d.offerMany s us).outcome.isIntermediate = false) :
    d.offerMany s (us ++ ts) = d.offerMany s us := by
  obtain ⟨before, t, rest, last, rfl, fed, ends⟩ := d.exists_end_of_offerMany s us ended
  have ended' : (d.offer last t).isIntermediate = false := by rw [ends]; exact ended
  rw [List.append_assoc, List.cons_append, d.offerMany_of_end s last before (rest ++ ts) t fed ended',
    d.offerMany_of_end s last before rest t fed ended']

theorem pulled_le_length
    (s : State Env)
    (ts : List Token) :
    (d.offerMany s ts).pulled ≤ ts.length := by
  induction ts generalizing s with
  | nil => exact Nat.le_refl 0
  | cons t ts ih =>
    cases offered : d.offer s t with
    | intermediate next =>
      simp only [offerMany, offered, List.length_cons]
      exact Nat.succ_le_succ (ih next)
    | success p => simp [offerMany, offered]
    | error f => simp [offerMany, offered]

/-- A parse is the outcome of its stream, and a stream that leaves it unfinished is an error where
the last token ended. -/
theorem parseFrom_eq
    (s : State Env)
    (reached : Offset)
    (ts : List Token) :
    d.parseFrom s reached ts
      = (d.offerMany s ts).outcome.result?.getD
          (.error (.incomplete (ts.getLast?.elim reached (·.span.stop)))) := by
  induction ts generalizing s reached with
  | nil => rfl
  | cons t ts ih =>
    cases offered : d.offer s t with
    | intermediate next =>
      simp only [parseFrom, offerMany, offered, ih]
      cases ts <;> simp [List.getLast?_cons]
    | success p => simp only [parseFrom, offerMany, offered, Outcome.result?, Option.getD_some]
    | error f => simp only [parseFrom, offerMany, offered, Outcome.result?, Option.getD_some]

theorem parseFrom_eq_ok_iff
    (s : State Env)
    (reached : Offset)
    (ts : List Token)
    (p : Parsed Value) :
    d.parseFrom s reached ts = .ok p ↔ (d.offerMany s ts).outcome = .success p := by
  rw [d.parseFrom_eq]
  cases (d.offerMany s ts).outcome <;> simp [Outcome.result?]

theorem offerMany_of_run
    (s : State Env)
    (ts : List Token)
    (value : Value)
    (run : d.automaton.run s.env ts = some (.accepted value)) :
    d.offerMany s ts = ⟨.success ⟨value, s.docstrings⟩, ts.length⟩ := by
  induction ts generalizing s with
  | nil => cases run
  | cons t ts ih =>
    cases offered : d.automaton.offerSettled s.env t with
    | needsInput env =>
      rw [d.automaton.run_cons_of_needsInput s.env env t ts offered] at run
      have rest := ih ⟨env, s.docstrings, d.pendingAfter s.env t⟩ run
      simp only [offerMany, d.offer_of_offerSettled s t env offered, rest, List.length_cons]
    | accepted value' =>
      simp only [Automaton.run, offered] at run
      split at run
      · next alone =>
        cases run
        rw [List.isEmpty_iff.mp alone]
        simp only [offerMany, d.offer_of_offerSettled_accepted s t value offered, List.length_cons,
          List.length_nil]
      · cases run
    | failed breakdown => cases ts <;> simp [Automaton.run, offered] at run

/-! ## Remedies and streams -/

/-- Tokens that have no remedies come to the same step by step as offer by offer. -/
theorem outcome_of_stepAll
    (s : State Env)
    (ts : List Token)
    (o : Outcome Env Value)
    (noRemedy : ∀ t ∈ ts, d.heuristics.remedy? t = none)
    (stepped : d.stepAll s ts = some o) :
    (d.offerMany s ts).outcome = o := by
  induction ts generalizing s with
  | nil =>
    cases stepped
    rfl
  | cons t ts ih =>
    have offered := d.offer_of_remedy?_eq_none s t (noRemedy t List.mem_cons_self)
    cases one : d.step s t with
    | intermediate next =>
      rw [one] at offered
      simp only [stepAll, one] at stepped
      simp only [offerMany, offered]
      exact ih next (fun u member => noRemedy u (List.mem_cons_of_mem t member)) stepped
    | success p =>
      rw [one] at offered
      simp only [stepAll, one] at stepped
      simp only [offerMany, offered]
      split at stepped
      · exact Option.some.inj stepped
      · cases stepped
    | error f =>
      simp only [stepAll, one] at stepped
      cases stepped

theorem stepAll_of_outcome
    (s next : State Env)
    (ts : List Token)
    (noRemedy : ∀ t ∈ ts, d.heuristics.remedy? t = none)
    (fed : (d.offerMany s ts).outcome = .intermediate next) :
    d.stepAll s ts = some (.intermediate next) := by
  induction ts generalizing s with
  | nil =>
    cases fed
    rfl
  | cons t ts ih =>
    have offered := d.offer_of_remedy?_eq_none s t (noRemedy t List.mem_cons_self)
    cases one : d.step s t with
    | intermediate middle =>
      rw [one] at offered
      simp only [offerMany, offered] at fed
      rw [stepAll, one]
      exact ih middle (fun u member => noRemedy u (List.mem_cons_of_mem t member)) fed
    | success p => simp [offerMany, offered, one] at fed
    | error f => simp [offerMany, offered, one] at fed

section Retries
variable (s : State Env) (t : Token) (parts : List Token) (f : Failure Env)
  (remedy : d.heuristics.remedy? t = some (.retry parts))
  (noRemedy : ∀ part ∈ parts, d.heuristics.remedy? part = none)
  (refused : d.step s t = .error f)
include remedy noRemedy refused

theorem offer_of_retry_iff
    (next : State Env) :
    d.offer s t = .intermediate next ↔ (d.offerMany s parts).outcome = .intermediate next := by
  rw [d.offer_of_step_error s t f refused, remedy, Option.bind_some, apply]
  constructor
  · intro offered
    cases stepped : d.stepAll s parts with
    | none =>
      rw [stepped] at offered
      cases offered
    | some o =>
      rw [stepped, Option.getD_some] at offered
      exact d.outcome_of_stepAll s parts _ noRemedy (stepped.trans (congrArg some offered))
  · intro fed
    rw [d.stepAll_of_outcome s next parts noRemedy fed, Option.getD_some]

theorem offer_of_failed_retry
    (g : Failure Env)
    (failed : (d.offerMany s parts).outcome = .error g) :
    d.offer s t = .error f := by
  rw [d.offer_of_step_error s t f refused, remedy, Option.bind_some, apply]
  cases stepped : d.stepAll s parts with
  | none => rfl
  | some o =>
    rw [d.outcome_of_stepAll s parts o noRemedy stepped] at failed
    subst failed
    exact absurd stepped (d.stepAll_ne_error s parts g)

end Retries

end TolerantParser.Driver
