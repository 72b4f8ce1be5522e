import TolerantParser.Docstring
import TolerantParser.Token.Kind

/-! # Diagnostics

A diagnostic reports one cause at one place: a token the parser refused, the end of the input, or
a doc comment that belongs to nothing.  The cause fixes the code and the severity. -/

set_option autoImplicit false

namespace TolerantParser

inductive Severity
  | error
  | warning
deriving DecidableEq

def Severity.render : Severity → String
  | error => "error"
  | warning => "warning"

inductive Cause
  | unexpectedToken
  | unexpectedEnd
  | detachedDocComment
deriving DecidableEq

namespace Cause

/-- The code starts with the letter of the severity. -/
def code : Cause → String
  | unexpectedToken => "E1001"
  | unexpectedEnd => "E1002"
  | detachedDocComment => "W1001"

def severity : Cause → Severity
  | unexpectedToken => .error
  | unexpectedEnd => .error
  | detachedDocComment => .warning

end Cause

/-- A report at `span`; `label` says what is to be seen there, and the notes follow it. -/
structure Diagnostic where
  cause : Cause
  message : String
  span : Span
  label : String
  notes : List String
deriving DecidableEq

namespace Diagnostic

def unexpectedToken (span : Span) (found : Kind) : Diagnostic where
  cause := .unexpectedToken
  message := "syntax error: unexpected " ++ found.render
  span := span
  label := "the parser cannot continue from here"
  notes := []

def unexpectedEnd (o : Offset) : Diagnostic where
  cause := .unexpectedEnd
  message := "syntax error: input ended in the middle of a phrase"
  span := .point o
  label := "more input expected here"
  notes := []

def detachedDocComment (span : Span) : Diagnostic where
  cause := .detachedDocComment
  message := "doc comment is not attached to anything"
  span := span
  label := "this comment is ignored"
  notes := ["doc comments must precede the item they document"]

/-- The report on a token that was refused: at the end of the file the input is too short,
anywhere else the token is wrong. -/
def refused (span : Span) (found : Kind) : Diagnostic :=
  match found with
  | .eof => unexpectedEnd span.start
  | _ => unexpectedToken span found

def withNote (d : Diagnostic) (note : String) : Diagnostic := { d with notes := d.notes ++ [note] }

def render (d : Diagnostic) : String :=
  d.cause.severity.render ++ " [" ++ d.cause.code ++ "]: " ++ d.message
    ++ "\n  --> " ++ d.span.render ++ ": " ++ d.label
    ++ String.join (d.notes.map fun note => "\n  = note: " ++ note)

end Diagnostic

def Docstrings.warnings (ds : Docstrings) : List Diagnostic :=
  ds.toList.map fun d => .detachedDocComment d.span

end TolerantParser
