import TolerantParser.Heuristics
import TolerantParser.Marker
import TolerantParser.State

/-! # One step of a parse

A driver hands tokens to an automaton under some heuristics.  `read` is the plain reading of one
token.  A token made of markers is read as an infix operator and leaves the other reading open;
`step` falls back on it when the token after the run is refused.  The second reading counts only
if it gets past that token, and otherwise the refusal of the first one stands. -/

set_option autoImplicit false

namespace TolerantParser

structure Driver (Env Value : Type) where
  automaton : Automaton Env Value
  heuristics : Heuristics := .all

namespace Driver

variable {Env Value : Type}

/-- The second reading that is open after `t` was offered to `env`. -/
def pendingAfter
    (d : Driver Env Value)
    (env : Env)
    (t : Token) :
    Option (Pending Env) :=
  if d.heuristics.postfixReplay then
    t.kind.markerCount.map fun n => ⟨env, n, t.span.start⟩
  else none

def read
    (d : Driver Env Value)
    (env : Env)
    (docstrings : Docstrings)
    (t : Token) :
    Outcome Env Value :=
  match d.automaton.offerSettled env t with
  | .needsInput next => .intermediate ⟨next, docstrings, d.pendingAfter env t⟩
  | .accepted value => .success ⟨value, docstrings⟩
  | .failed breakdown => .error ⟨breakdown, docstrings, t⟩

def reread
    (d : Driver Env Value)
    (p : Pending Env)
    (docstrings : Docstrings)
    (t : Token) :
    Option (Outcome Env Value) := do
  let env ← d.automaton.offerAll p.fallback (markerTokens p.count p.position)
  (d.read env docstrings t).notError?

/-- Advances by one token, with the second reading of a pending run but without any recovery. -/
def step
    (d : Driver Env Value)
    (s : State Env)
    (t : Token) :
    Outcome Env Value :=
  (d.read s.env s.docstrings t).orElse (s.pending.bind fun p => d.reread p s.docstrings t)

theorem step_of_read
    (d : Driver Env Value)
    (s : State Env)
    (t : Token)
    (hread : (d.read s.env s.docstrings t).isError = false) :
    d.step s t = d.read s.env s.docstrings t := by
  unfold step
  cases h : d.read s.env s.docstrings t with
  | intermediate next => rfl
  | success p => rfl
  | error f => rw [h] at hread; cases hread

theorem step_of_pending_eq_none
    (d : Driver Env Value)
    (s : State Env)
    (t : Token)
    (hpending : s.pending = none) :
    d.step s t = d.read s.env s.docstrings t := by
  unfold step
  rw [hpending]
  cases d.read s.env s.docstrings t <;> rfl

end Driver

end TolerantParser
