import TolerantParser.Driver.Parse

/-! # Plain runs of an automaton

`Automaton.run` offers tokens to an automaton one by one and settles after each, with no heuristics
at all.  It is what the runs of a driver are compared with.  `run_append` splits a run where the
automaton waits for input, `history_of_run` is the induction over the tokens up to there, and
`exists_last_of_run` finds the token that an accepting run ends with.  `offerAll_eq_some_iff` says
that `offerAll` is the part of `run` that never ends. -/

set_option autoImplicit false

namespace TolerantParser.Automaton

variable {Env Value : Type}

/-- Offers tokens in order.  A token that ends the run has to be the last one. -/
def run (A : Automaton Env Value) (env : Env) : List Token → Option (Settled Env Value)
  | [] => some (.needsInput env)
  | t :: ts =>
    match A.offerSettled env t with
    | .needsInput next => A.run next ts
    | ended => if ts.isEmpty then some ended else none

@[simp] theorem run_nil (A : Automaton Env Value) (env : Env) :
    A.run env [] = some (.needsInput env) := rfl

theorem run_cons_of_needsInput
    (A : Automaton Env Value)
    (env next : Env)
    (t : Token)
    (ts : List Token)
    (offered : A.offerSettled env t = .needsInput next) :
    A.run env (t :: ts) = A.run next ts := by
  simp only [run, offered]

theorem run_singleton
    (A : Automaton Env Value)
    (env : Env)
    (t : Token) :
    A.run env [t] = some (A.offerSettled env t) := by
  rw [run]
  split
  · next next offered => rw [offered, run_nil]
  · rfl

theorem run_append
    (A : Automaton Env Value)
    (env next : Env)
    (us vs : List Token)
    (first : A.run env us = some (.needsInput next)) :
    A.run env (us ++ vs) = A.run next vs := by
  induction us generalizing env with
  | nil =>
    rw [run_nil] at first
    cases first
    rfl
  | cons u us ih =>
    cases offered : A.offerSettled env u with
    | needsInput middle =>
      rw [A.run_cons_of_needsInput env middle u us offered] at first
      rw [List.cons_append, A.run_cons_of_needsInput env middle u (us ++ vs) offered]
      exact ih middle first
    | accepted value =>
      simp only [run, offered] at first
      split at first <;> cases first
    | failed breakdown =>
      simp only [run, offered] at first
      split at first <;> cases first

/-- What every token that is taken up keeps holds wherever a run waits for input, of the tokens that
were taken up so far. -/
theorem history_of_run
    (A : Automaton Env Value)
    (P : List Token → Env → Prop)
    (step : ∀ us env t next, P us env → A.offerSettled env t = .needsInput next →
      P (us ++ [t]) next)
    (env next : Env)
    (us ts : List Token)
    (start : P us env)
    (run : A.run env ts = some (.needsInput next)) :
    P (us ++ ts) next := by
  induction ts generalizing us env with
  | nil =>
    cases run
    rwa [List.append_nil]
  | cons t ts ih =>
    cases offered : A.offerSettled env t with
    | needsInput middle =>
      rw [A.run_cons_of_needsInput env middle t ts offered] at run
      simpa using ih middle (us ++ [t]) (step us env t middle start offered) run
    | accepted value => cases ts <;> simp [Automaton.run, offered] at run
    | failed breakdown => cases ts <;> simp [Automaton.run, offered] at run

theorem invariant_of_run
    (A : Automaton Env Value)
    (I : Env → Prop)
    (preserved : ∀ env t next, I env → A.offerSettled env t = .needsInput next → I next)
    (env next : Env)
    (ts : List Token)
    (start : I env)
    (run : A.run env ts = some (.needsInput next)) :
    I next :=
  A.history_of_run (fun _ env => I env) (fun _ => preserved) env next [] ts start run

theorem exists_last_of_run
    (A : Automaton Env Value)
    (env : Env)
    (ts : List Token)
    (value : Value)
    (run : A.run env ts = some (.accepted value)) :
    ∃ before t last, ts = before ++ [t]
      ∧ A.run env before = some (.needsInput last)
      ∧ A.offerSettled last t = .accepted value := by
  induction ts generalizing env with
  | nil => cases run
  | cons t ts ih =>
    cases offered : A.offerSettled env t with
    | needsInput next =>
      rw [A.run_cons_of_needsInput env next t ts offered] at run
      obtain ⟨before, u, last, rfl, read, ends⟩ := ih next run
      refine ⟨t :: before, u, last, rfl, ?_, ends⟩
      rw [A.run_cons_of_needsInput env next t before offered, read]
    | accepted value' =>
      simp only [Automaton.run, offered] at run
      split at run
      · next alone =>
        rw [List.isEmpty_iff.mp alone]
        exact ⟨[], t, env, rfl, rfl, offered.trans (Option.some.inj run)⟩
      · cases run
    | failed breakdown => cases ts <;> simp [Automaton.run, offered] at run

theorem offerAll_eq_some_iff
    (A : Automaton Env Value)
    (env next : Env)
    (ts : List Token) :
    A.offerAll env ts = some next ↔ A.run env ts = some (.needsInput next) := by
  induction ts generalizing env with
  | nil => simp [offerAll]
  | cons t ts ih =>
    cases offered : A.offerSettled env t with
    | needsInput middle =>
      rw [A.run_cons_of_needsInput env middle t ts offered, ← ih middle, offerAll, offered]
    | accepted value => cases ts <;> simp [offerAll, run, offered]
    | failed breakdown => cases ts <;> simp [offerAll, run, offered]

end TolerantParser.Automaton
