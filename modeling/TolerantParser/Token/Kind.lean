import TolerantParser.Token.Tag
import TolerantParser.Text.Quoted

/-! # Token kinds

A kind is a tag together with the text that tokens of its class carry. -/

set_option autoImplicit false

namespace TolerantParser

inductive Kind
  | text (c : TextClass) (s : String)
  | reserved (r : Reserved)
  | eof
deriving DecidableEq

namespace Kind

def tag : Kind → Tag
  | text c _ => .text c
  | reserved r => .reserved r
  | eof => .eof

def text? : Kind → Option String
  | text _ s => some s
  | _ => none

def wording (k : Kind) : String := k.text?.getD k.tag.displayName

def render (k : Kind) : String := "`" ++ k.wording ++ "`"

/-- Kinds that carry text show the class and the text, quoted unless it is a number; the others
show the name of the tag. -/
def inspect : Kind → String
  | text .int s => TextClass.int.name ++ "(" ++ s ++ ")"
  | text c s => c.name ++ "(" ++ Text.quoted s ++ ")"
  | reserved r => r.spelling
  | eof => Tag.eof.displayName

@[simp] theorem tag_text (c : TextClass) (s : String) : (text c s).tag = .text c := rfl

@[simp] theorem tag_reserved (r : Reserved) : (reserved r).tag = .reserved r := rfl

@[simp] theorem tag_eof : eof.tag = .eof := rfl

@[simp] theorem wording_text (c : TextClass) (s : String) : (text c s).wording = s := rfl

@[simp] theorem wording_reserved (r : Reserved) : (reserved r).wording = r.spelling := rfl

end Kind

end TolerantParser
