import TolerantParser.Span
import TolerantParser.Token.Kind

/-! # Tokens

A token is a kind at a place in the source.  Nothing ties the width of the span to the text: the
spans of tokens are taken as they come. -/

set_option autoImplicit false

namespace TolerantParser

@[ext] structure Token where
  kind : Kind
  span : Span
deriving DecidableEq

namespace Token

def tag (t : Token) : Tag := t.kind.tag

def inspect (t : Token) : String := t.kind.inspect ++ " @ " ++ t.span.render

@[simp] theorem tag_mk (k : Kind) (s : Span) : (Token.mk k s).tag = k.tag := rfl

end Token

end TolerantParser
