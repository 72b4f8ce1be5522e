import TolerantParser.Proofs.Driver.PlainRun

/-! # The readings that are open at a state

A state that waits behind a marker run has two readings: the run was an infix operator, or it was
postfix operators.  `Reading` lists the environments of the readings.  Every step that does not
fail is the plain reading of its token in one of them (`exists_reading_of_step`), and so is every
remedy as a whole (`exists_reading_of_stepAll`), because no remedy offers a marker run. -/

set_option autoImplicit false

namespace TolerantParser

namespace Driver

variable {Env Value : Type}

/-- `env` is where the automaton stands under one of the readings that are open at `s`. -/
inductive Reading (d : Driver Env Value) (s : State Env) : Env → Prop
  | plain : Reading d s s.env
  | reread (p : Pending Env) (env : Env) (pending : s.pending = some p)
      (replayed : d.automaton.offerAll p.fallback (markerTokens p.count p.position) = some env) :
      Reading d s env

theorem initial_eq_ok_iff
    (d : Driver Env Value)
    (goal : Goal)
    (o : Offset)
    (s : State Env) :
    d.initial goal o = .ok s ↔
      ∃ env, d.automaton.settle (d.automaton.start goal o) = .needsInput env
        ∧ s = ⟨env, .empty, none⟩ := by
  unfold initial
  cases d.automaton.settle (d.automaton.start goal o) with
  | needsInput env => simp [eq_comm]
  | accepted value => simp
  | failed breakdown => simp

theorem parse_eq_ok_iff
    (d : Driver Env Value)
    (goal : Goal)
    (o : Offset)
    (ts : List Token)
    (p : Parsed Value) :
    d.parse goal o ts = .ok (.ok p) ↔
      ∃ s, d.initial goal o = .ok s ∧ d.parseFrom s o ts = .ok p := by
  unfold parse
  cases d.initial goal o with
  | ok s => simp [Except.map]
  | error e => simp [Except.map]

theorem Reading.eq_env
    (d : Driver Env Value)
    (s : State Env)
    (env : Env)
    (reading : d.Reading s env)
    (settled : s.pending = none) :
    env = s.env := by
  cases reading with
  | plain => rfl
  | reread p env pending replayed =>
    rw [settled] at pending
    cases pending

theorem exists_reading_of_step
    (d : Driver Env Value)
    (s : State Env)
    (t : Token)
    (taken : (d.step s t).isError = false) :
    ∃ env, d.Reading s env ∧ d.step s t = d.read env s.docstrings t := by
  by_cases first : (d.read s.env s.docstrings t).isError = false
  · exact ⟨s.env, .plain, d.step_of_read s t first⟩
  · cases hread : d.read s.env s.docstrings t with
    | intermediate next => rw [hread] at first; exact absurd rfl first
    | success parsed => rw [hread] at first; exact absurd rfl first
    | error f =>
      have stepped : d.step s t
          = (s.pending.bind fun p => d.reread p s.docstrings t).getD (.error f) := by
        simp only [step, hread, Outcome.orElse_error]
      cases second : s.pending.bind fun p => d.reread p s.docstrings t with
      | none =>
        rw [stepped, second] at taken
        cases taken
      | some o =>
        obtain ⟨p, pending, again⟩ := Option.bind_eq_some_iff.mp second
        obtain ⟨env, replayed, adopted⟩ := Option.bind_eq_some_iff.mp again
        have same := ((d.read env s.docstrings t).notError?_eq_some_iff o).mp adopted
        refine ⟨env, .reread p env pending replayed, ?_⟩
        rw [stepped, second, Option.getD_some, same.1]

theorem read_eq_intermediate_iff
    (d : Driver Env Value)
    (env : Env)
    (docstrings : Docstrings)
    (t : Token)
    (s : State Env) :
    d.read env docstrings t = .intermediate s ↔
      d.automaton.offerSettled env t = .needsInput s.env ∧ s.docstrings = docstrings
        ∧ s.pending = d.pendingAfter env t := by
  unfold read
  cases d.automaton.offerSettled env t with
  | needsInput next =>
    obtain ⟨env', docs, pending⟩ := s
    simp only [Outcome.intermediate.injEq, State.mk.injEq, Settled.needsInput.injEq]
    rw [eq_comm (a := docstrings), eq_comm (a := d.pendingAfter env t)]
  | accepted value => simp
  | failed breakdown => simp

theorem read_eq_success_iff
    (d : Driver Env Value)
    (env : Env)
    (docstrings : Docstrings)
    (t : Token)
    (p : Parsed Value) :
    d.read env docstrings t = .success p ↔
      d.automaton.offerSettled env t = .accepted p.value ∧ p.docstrings = docstrings := by
  unfold read
  cases d.automaton.offerSettled env t with
  | needsInput next => simp
  | accepted value =>
    obtain ⟨value', docs⟩ := p
    simp only [Outcome.success.injEq, Parsed.mk.injEq, Settled.accepted.injEq]
    rw [eq_comm (a := docstrings)]
  | failed breakdown => simp

theorem pendingAfter_eq_none
    (d : Driver Env Value)
    (env : Env)
    (t : Token)
    (unmarked : t.kind.markerCount = none) :
    d.pendingAfter env t = none := by
  simp [pendingAfter, unmarked]

theorem pendingAfter_eq_some_iff
    (d : Driver Env Value)
    (env : Env)
    (t : Token)
    (p : Pending Env) :
    d.pendingAfter env t = some p ↔
      d.heuristics.postfixReplay = true ∧ t.kind.markerCount = some p.count
        ∧ p.fallback = env ∧ p.position = t.span.start := by
  unfold pendingAfter
  obtain ⟨fallback, count, position⟩ := p
  by_cases enabled : d.heuristics.postfixReplay = true
  · simp only [enabled, if_true, Option.map_eq_some_iff, Pending.mk.injEq, true_and]
    constructor
    · rintro ⟨n, counted, rfl, rfl, rfl⟩
      exact ⟨counted, rfl, rfl⟩
    · rintro ⟨counted, rfl, rfl⟩
      exact ⟨count, counted, rfl, rfl, rfl⟩
  · simp [enabled]

theorem offer_of_offerSettled
    (d : Driver Env Value)
    (s : State Env)
    (t : Token)
    (env : Env)
    (offered : d.automaton.offerSettled s.env t = .needsInput env) :
    d.offer s t = .intermediate ⟨env, s.docstrings, d.pendingAfter s.env t⟩ := by
  have hread : d.read s.env s.docstrings t
      = .intermediate ⟨env, s.docstrings, d.pendingAfter s.env t⟩ := by
    simp only [read, offered]
  have stepped := d.step_of_read s t (by rw [hread]; rfl)
  rw [d.offer_of_step s t (by rw [stepped, hread]; rfl), stepped, hread]

theorem offer_of_offerSettled_accepted
    (d : Driver Env Value)
    (s : State Env)
    (t : Token)
    (value : Value)
    (offered : d.automaton.offerSettled s.env t = .accepted value) :
    d.offer s t = .success ⟨value, s.docstrings⟩ := by
  have hread : d.read s.env s.docstrings t = .success ⟨value, s.docstrings⟩ := by
    simp only [read, offered]
  have stepped := d.step_of_read s t (by rw [hread]; rfl)
  rw [d.offer_of_step s t (by rw [stepped, hread]; rfl), stepped, hread]

/-! ## Errors -/

theorem read_of_step_error
    (d : Driver Env Value)
    (s : State Env)
    (t : Token)
    (f : Failure Env)
    (stepped : d.step s t = .error f) :
    d.read s.env s.docstrings t = .error f := by
  unfold step at stepped
  cases first : d.read s.env s.docstrings t with
  | intermediate next => rw [first] at stepped; cases stepped
  | success p => rw [first] at stepped; cases stepped
  | error g =>
    rw [first, Outcome.orElse_error] at stepped
    cases second : s.pending.bind fun p => d.reread p s.docstrings t with
    | none => rwa [second, Option.getD_none] at stepped
    | some o =>
      obtain ⟨p, _, again⟩ := Option.bind_eq_some_iff.mp second
      obtain ⟨env, _, adopted⟩ := Option.bind_eq_some_iff.mp again
      have taken := ((d.read env s.docstrings t).notError?_eq_some_iff o).mp adopted
      rw [second, Option.getD_some] at stepped
      rw [taken.1, stepped] at taken
      cases taken.2

/-- A step fails only if every open reading does. -/
theorem isError_read_of_step_error
    (d : Driver Env Value)
    (s : State Env)
    (env : Env)
    (t : Token)
    (f : Failure Env)
    (reading : d.Reading s env)
    (stepped : d.step s t = .error f) :
    (d.read env s.docstrings t).isError = true := by
  have first := d.read_of_step_error s t f stepped
  cases reading with
  | plain =>
    rw [first]
    rfl
  | reread p env pending replayed =>
    have again : d.reread p s.docstrings t = (d.read env s.docstrings t).notError? := by
      simp only [reread, replayed, Option.bind_eq_bind, Option.bind_some]
    unfold step at stepped
    rw [first, Outcome.orElse_error, pending, Option.bind_some, again] at stepped
    cases second : d.read env s.docstrings t with
    | intermediate next =>
      rw [second] at stepped
      cases stepped
    | success p =>
      rw [second] at stepped
      cases stepped
    | error g => rfl

theorem stepAll_ne_error
    (d : Driver Env Value)
    (s : State Env)
    (ts : List Token)
    (f : Failure Env) :
    d.stepAll s ts ≠ some (.error f) := by
  induction ts generalizing s with
  | nil => simp [stepAll]
  | cons t ts ih =>
    unfold stepAll
    cases d.step s t with
    | intermediate next => exact ih next
    | success p => cases ts <;> simp
    | error g => simp

theorem step_of_offer_error
    (d : Driver Env Value)
    (s : State Env)
    (t : Token)
    (f : Failure Env)
    (offered : d.offer s t = .error f) :
    d.step s t = .error f := by
  cases stepped : d.step s t with
  | intermediate next => simp [offer, stepped] at offered
  | success p => simp [offer, stepped] at offered
  | error g =>
    rw [d.offer_of_step_error s t g stepped] at offered
    cases applied : (d.heuristics.remedy? t).bind (d.apply s) with
    | none => rwa [applied, Option.getD_none] at offered
    | some o =>
      rw [applied, Option.getD_some] at offered
      obtain ⟨r, _, applied⟩ := Option.bind_eq_some_iff.mp applied
      subst offered
      cases r with
      | setAside doc => cases applied
      | retry ts => exact absurd applied (d.stepAll_ne_error s ts f)

theorem read_eq_error_iff
    (d : Driver Env Value)
    (env : Env)
    (docstrings : Docstrings)
    (t : Token)
    (f : Failure Env) :
    d.read env docstrings t = .error f ↔
      d.automaton.offerSettled env t = .failed f.breakdown ∧ f.docstrings = docstrings
        ∧ f.token = t := by
  unfold read
  cases d.automaton.offerSettled env t with
  | needsInput next => simp
  | accepted value => simp
  | failed breakdown =>
    obtain ⟨breakdown', docs, t'⟩ := f
    simp only [Outcome.error.injEq, Failure.mk.injEq, Settled.failed.injEq]
    rw [eq_comm (a := docstrings), eq_comm (a := t)]

/-! ## Several steps in a row -/

/-- The outcome that a run of the automaton alone stands for, if it does not fail: the doc comments
are as given and no second reading is open. -/
def conclude (docstrings : Docstrings) : Settled Env Value → Option (Outcome Env Value)
  | .needsInput env => some (.intermediate ⟨env, docstrings, none⟩)
  | .accepted value => some (.success ⟨value, docstrings⟩)
  | .failed _ => none

theorem exists_reading_of_unmarked_step
    (d : Driver Env Value)
    (s : State Env)
    (t : Token)
    (unmarked : t.kind.markerCount = none)
    (taken : (d.step s t).isError = false) :
    ∃ env, d.Reading s env
      ∧ conclude s.docstrings (d.automaton.offerSettled env t) = some (d.step s t) := by
  obtain ⟨env, reading, stepped⟩ := d.exists_reading_of_step s t taken
  refine ⟨env, reading, ?_⟩
  rw [stepped] at taken ⊢
  simp only [read, d.pendingAfter_eq_none env t unmarked] at taken ⊢
  cases offered : d.automaton.offerSettled env t with
  | needsInput next => rfl
  | accepted value => rfl
  | failed breakdown =>
    rw [offered] at taken
    cases taken

theorem conclude_eq_intermediate
    (docstrings : Docstrings)
    (x : Settled Env Value)
    (s : State Env)
    (concluded : conclude docstrings x = some (.intermediate s)) :
    x = .needsInput s.env ∧ s.docstrings = docstrings ∧ s.pending = none := by
  cases x with
  | needsInput env => cases concluded; exact ⟨rfl, rfl, rfl⟩
  | accepted value => cases concluded
  | failed breakdown => cases concluded

theorem conclude_eq_success
    (docstrings : Docstrings)
    (x : Settled Env Value)
    (p : Parsed Value)
    (concluded : conclude docstrings x = some (.success p)) :
    x = .accepted p.value ∧ p.docstrings = docstrings := by
  cases x with
  | needsInput env => cases concluded
  | accepted value => cases concluded; exact ⟨rfl, rfl⟩
  | failed breakdown => cases concluded

/-- Tokens that are no marker runs are read one after the other in the reading of the first. -/
theorem exists_reading_of_stepAll
    (d : Driver Env Value)
    (s : State Env)
    (t : Token)
    (ts : List Token)
    (o : Outcome Env Value)
    (unmarked : ∀ u ∈ t :: ts, u.kind.markerCount = none)
    (taken : d.stepAll s (t :: ts) = some o) :
    ∃ env x, d.Reading s env ∧ d.automaton.run env (t :: ts) = some x
      ∧ conclude s.docstrings x = some o := by
  induction ts generalizing s t with
  | nil =>
    have stepped : d.step s t = o ∧ (d.step s t).isError = false := by
      cases h : d.step s t with
      | intermediate next => simpa [stepAll, h, Outcome.isError] using taken
      | success p => simpa [stepAll, h, Outcome.isError] using taken
      | error f => simp [stepAll, h] at taken
    obtain ⟨env, reading, concluded⟩ :=
      d.exists_reading_of_unmarked_step s t (unmarked t (List.mem_cons_self ..)) stepped.2
    refine ⟨env, d.automaton.offerSettled env t, reading, d.automaton.run_singleton env t, ?_⟩
    rw [concluded, stepped.1]
  | cons u us ih =>
    cases stepped : d.step s t with
    | intermediate next =>
      obtain ⟨env, reading, concluded⟩ :=
        d.exists_reading_of_unmarked_step s t (unmarked t (List.mem_cons_self ..))
          (by rw [stepped]; rfl)
      rw [stepped] at concluded
      obtain ⟨offered, docstrings, settled⟩ := conclude_eq_intermediate _ _ _ concluded
      have rest : d.stepAll next (u :: us) = some o := by
        rw [stepAll, stepped] at taken
        exact taken
      obtain ⟨env', x, reading', run, concluded'⟩ :=
        ih next u (fun v member => unmarked v (List.mem_cons_of_mem t member)) rest
      rw [Reading.eq_env d next env' reading' settled] at run
      refine ⟨env, x, reading, ?_, ?_⟩
      · rw [d.automaton.run_cons_of_needsInput env next.env t (u :: us) offered]
        exact run
      · rw [← docstrings]
        exact concluded'
    | success p => simp [stepAll, stepped] at taken
    | error f => simp [stepAll, stepped] at taken

end Driver

end TolerantParser
