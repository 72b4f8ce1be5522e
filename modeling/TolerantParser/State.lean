import TolerantParser.Automaton
import TolerantParser.ParseError

/-! # Parser states and outcomes

Between two tokens a parse is a `State`: an environment that waits for input, the doc comments set
aside so far, and perhaps a marker run whose second reading is still open.  Handing a state a token
has an `Outcome`: another state, a parsed value, or a failure. -/

set_option autoImplicit false

namespace TolerantParser

/-- A marker run that was read as an infix operator and can still be read as postfix operators. -/
structure Pending (Env : Type) where
  /-- the environment to which the run was offered -/
  fallback : Env
  /-- the number of markers -/
  count : Nat
  /-- the offset of the first marker -/
  position : Offset

structure State (Env : Type) where
  env : Env
  docstrings : Docstrings := .empty
  pending : Option (Pending Env) := none

structure Failure (Env : Type) where
  breakdown : Breakdown Env
  docstrings : Docstrings
  token : Token

structure Parsed (Value : Type) where
  value : Value
  docstrings : Docstrings
deriving DecidableEq

inductive Outcome (Env Value : Type)
  | intermediate (state : State Env)
  | success (parsed : Parsed Value)
  | error (failure : Failure Env)

namespace State

variable {Env : Type}

def addDocstring (s : State Env) (d : Docstring) : State Env :=
  { s with docstrings := s.docstrings.push d }

def isPending (s : State Env) : Bool := s.pending.isSome

@[simp] theorem env_addDocstring
    (s : State Env)
    (d : Docstring) :
    (s.addDocstring d).env = s.env := rfl

@[simp] theorem pending_addDocstring
    (s : State Env)
    (d : Docstring) :
    (s.addDocstring d).pending = s.pending := rfl

@[simp] theorem docstrings_addDocstring
    (s : State Env)
    (d : Docstring) :
    (s.addDocstring d).docstrings = s.docstrings.push d := rfl

end State

namespace Failure

variable {Env : Type}

def span (f : Failure Env) : Span := f.token.span

def toParseError (f : Failure Env) : ParseError :=
  .syntaxRejected f.token.kind f.token.span f.docstrings.toList

def diagnostic (f : Failure Env) : Diagnostic := .refused f.token.span f.token.kind

end Failure

namespace Outcome

variable {Env Value : Type}

def isIntermediate : Outcome Env Value → Bool
  | intermediate _ => true
  | _ => false

def isSuccess : Outcome Env Value → Bool
  | success _ => true
  | _ => false

def isError : Outcome Env Value → Bool
  | error _ => true
  | _ => false

def notError? : Outcome Env Value → Option (Outcome Env Value)
  | error _ => none
  | o => some o

/-- An error gives way to the other outcome, if there is one; anything else stands. -/
@[macro_inline] def orElse
    (o : Outcome Env Value)
    (other : Option (Outcome Env Value)) :
    Outcome Env Value :=
  match o with
  | error f => other.getD (error f)
  | o => o

def result? : Outcome Env Value → Option (Except ParseError (Parsed Value))
  | intermediate _ => none
  | success p => some (.ok p)
  | error f => some (.error f.toParseError)

@[simp] theorem orElse_intermediate
    (s : State Env)
    (other : Option (Outcome Env Value)) :
    (intermediate s).orElse other = intermediate s := rfl

@[simp] theorem orElse_success
    (p : Parsed Value)
    (other : Option (Outcome Env Value)) :
    (success p : Outcome Env Value).orElse other = success p := rfl

@[simp] theorem orElse_error
    (f : Failure Env)
    (other : Option (Outcome Env Value)) :
    (error f).orElse other = other.getD (error f) := rfl

theorem isError_iff (o : Outcome Env Value) : o.isError = true ↔ ∃ f, o = .error f := by
  cases o <;> simp [isError]

theorem notError?_eq_some_iff
    (o o' : Outcome Env Value) :
    o.notError? = some o' ↔ o = o' ∧ o.isError = false := by
  cases o <;> simp [notError?, isError]

end Outcome

end TolerantParser
