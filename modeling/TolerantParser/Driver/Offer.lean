import TolerantParser.Driver.Step
import TolerantParser.Remedy

/-! # Offering a token

`offer` steps, and tries the token's remedy if the step fails.  A remedy starts from the state
before the token, its own tokens get no remedies, and unless it succeeds as a whole the failure
of the step stands, with the token that was really there to blame. -/

set_option autoImplicit false

namespace TolerantParser.Driver

variable {Env Value : Type}

/-- Steps through all the tokens.  Accepting before the last one counts as failing. -/
def stepAll (d : Driver Env Value) : State Env → List Token → Option (Outcome Env Value)
  | s, [] => some (.intermediate s)
  | s, t :: ts =>
    match d.step s t with
    | .intermediate next => d.stepAll next ts
    | .success p => if ts.isEmpty then some (.success p) else none
    | .error _ => none

def apply (d : Driver Env Value) (s : State Env) : Remedy → Option (Outcome Env Value)
  | .setAside doc => some (.intermediate (s.addDocstring doc))
  | .retry ts => d.stepAll s ts

def offer
    (d : Driver Env Value)
    (s : State Env)
    (t : Token) :
    Outcome Env Value :=
  (d.step s t).orElse ((d.heuristics.remedy? t).bind (d.apply s))

theorem offer_of_step
    (d : Driver Env Value)
    (s : State Env)
    (t : Token)
    (hstep : (d.step s t).isError = false) :
    d.offer s t = d.step s t := by
  unfold offer
  cases h : d.step s t with
  | intermediate next => rfl
  | success p => rfl
  | error f => rw [h] at hstep; cases hstep

theorem offer_of_step_error
    (d : Driver Env Value)
    (s : State Env)
    (t : Token)
    (f : Failure Env)
    (hstep : d.step s t = .error f) :
    d.offer s t = ((d.heuristics.remedy? t).bind (d.apply s)).getD (.error f) := by
  simp only [offer, hstep, Outcome.orElse_error]

theorem offer_of_remedy?_eq_none
    (d : Driver Env Value)
    (s : State Env)
    (t : Token)
    (noRemedy : d.heuristics.remedy? t = none) :
    d.offer s t = d.step s t := by
  rw [offer, noRemedy]
  cases d.step s t <;> rfl

end TolerantParser.Driver
