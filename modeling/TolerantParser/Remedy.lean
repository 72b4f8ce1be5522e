import TolerantParser.Docstring
import TolerantParser.FusedLabel
import TolerantParser.Heuristics
import TolerantParser.Token.TagSet

/-! # Remedies

What can be tried for a token that was refused.  A doc comment is set aside; a token that starts a
statement is retried with a separator before it; a fused label operator is retried in its parts.
A token has one remedy at most: the first one that its tag calls for. -/

set_option autoImplicit false

namespace TolerantParser

/-- The tags of tokens that can only start a statement where one has just been completed. -/
def starters : TagSet :=
  .ofList [.reserved .kwLet, .reserved .kwType, .reserved .kwModule, .reserved .kwOpen,
    .reserved .kwException, .reserved .kwInclude, .text .docString, .text .lowerIdent,
    .text .upperIdent, .reserved .kwIf, .reserved .kwWhile, .reserved .kwFor, .reserved .kwSwitch,
    .reserved .kwTry, .reserved .kwAssert, .reserved .kwLazy, .reserved .lbracketAt]

namespace Token

def docstring? (t : Token) : Option Docstring :=
  match t.kind with
  | .text .docString s => some ⟨s, t.span⟩
  | _ => none

def labelParts? (t : Token) : Option (List Token) :=
  match t.kind with
  | .text .infixOp0 s => splitFusedLabel s t.span
  | _ => none

/-- The token with the missing separator before it, as wide as nothing. -/
def separated (t : Token) : List Token := [⟨.reserved .semi, .point t.span.start⟩, t]

end Token

inductive Remedy
  | setAside (d : Docstring)
  | retry (ts : List Token)
deriving DecidableEq

/-- The remedy for a refused token.  A token that starts a statement is never split, and a doc
comment that is not to be set aside starts one. -/
def Heuristics.remedy? (h : Heuristics) (t : Token) : Option Remedy :=
  match h.docstrings, t.docstring? with
  | true, some d => some (.setAside d)
  | _, _ =>
    if starters.contains t.tag then
      if h.semicolon then some (.retry t.separated) else none
    else if h.labelSplit then t.labelParts?.map .retry
    else none

end TolerantParser
