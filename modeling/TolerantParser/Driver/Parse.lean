import TolerantParser.Driver.Offer

/-! # Parsing a token stream

A parse starts from a goal at an offset, and tokens are offered until one of them ends it.
`offerMany` stops at the end of the tokens as well and can be continued from there; for `parse`
the end of the tokens is an error. -/

set_option autoImplicit false

namespace TolerantParser

/-- An automaton does not wait for input at the start of `goal`, as it has to.  This is a defect
of the automaton and not of any source text. -/
structure Unready where
  goal : Goal
deriving DecidableEq

def Unready.message (u : Unready) : String :=
  "automaton must start entry point `" ++ u.goal.name ++ "` waiting for input"

/-- The outcome of offering a stream, and how many of its tokens were taken. -/
structure Fed (Env Value : Type) where
  outcome : Outcome Env Value
  pulled : Nat

namespace Driver

variable {Env Value : Type}

def initial
    (d : Driver Env Value)
    (goal : Goal)
    (o : Offset) :
    Except Unready (State Env) :=
  match d.automaton.settle (d.automaton.start goal o) with
  | .needsInput env => .ok ⟨env, .empty, none⟩
  | _ => .error ⟨goal⟩

def offerMany (d : Driver Env Value) : State Env → List Token → Fed Env Value
  | s, [] => ⟨.intermediate s, 0⟩
  | s, t :: ts =>
    match d.offer s t with
    | .intermediate next =>
      let rest := d.offerMany next ts
      ⟨rest.outcome, rest.pulled + 1⟩
    | ended => ⟨ended, 1⟩

/-- Offers tokens until one of them ends the parse; the tokens before them ended at `reached`. -/
def parseFrom
    (d : Driver Env Value) :
    State Env → (reached : Offset) → List Token → Except ParseError (Parsed Value)
  | _, reached, [] => .error (.incomplete reached)
  | s, _, t :: ts =>
    match d.offer s t with
    | .intermediate next => d.parseFrom next t.span.stop ts
    | .success p => .ok p
    | .error f => .error f.toParseError

def parse
    (d : Driver Env Value)
    (goal : Goal)
    (o : Offset)
    (ts : List Token) :
    Except Unready (Except ParseError (Parsed Value)) :=
  (d.initial goal o).map fun s => d.parseFrom s o ts

end Driver

end TolerantParser
