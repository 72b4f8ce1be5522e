import TolerantParser.Diagnostic

/-! # Parse errors

A parse fails in one of two ways: a token is refused and no heuristic can help, or the tokens run
out before the goal is reached. -/

set_option autoImplicit false

namespace TolerantParser

inductive ParseError
  /-- `kind` at `span` was refused after `docstrings` had been set aside -/
  | syntaxRejected (kind : Kind) (span : Span) (docstrings : List Docstring)
  /-- the tokens ended at offset `o` -/
  | incomplete (o : Offset)
deriving DecidableEq

namespace ParseError

def span : ParseError → Span
  | syntaxRejected _ span _ => span
  | incomplete o => .point o

def message : ParseError → String
  | syntaxRejected kind span _ =>
    "syntax error at " ++ span.render ++ ": unexpected " ++ kind.render
  | incomplete o => "unexpected end of input at offset " ++ toString o.toNat

def diagnostic : ParseError → Diagnostic
  | syntaxRejected kind span _ => .refused span kind
  | incomplete o => .unexpectedEnd o

end ParseError

end TolerantParser
