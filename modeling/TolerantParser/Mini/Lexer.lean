import TolerantParser.Token.Basic
import TolerantParser.Text.Blank
import TolerantParser.Text.Width

/-! # The word lexer

Words are the longest runs of characters that are not blank, and every word is one token on
exactly the bytes of its run. -/

set_option autoImplicit false

namespace TolerantParser.Mini

/-- A run of characters and the number of bytes before it. -/
structure Word where
  chars : List Char
  start : Nat
deriving DecidableEq

namespace Word

def width (w : Word) : Nat := Text.byteWidth w.chars

def span (w : Word) : Span := ⟨.clamp w.start, .clamp (w.start + w.width)⟩

/-- Puts a character that starts at byte `pos` before the words after it.  It becomes part of the
first one if that one starts where the character ends. -/
def attach (c : Char) (pos : Nat) : List Word → List Word
  | w :: ws =>
    if w.start = pos + c.utf8Size then ⟨c :: w.chars, pos⟩ :: ws else ⟨[c], pos⟩ :: w :: ws
  | [] => [⟨[c], pos⟩]

def split : List Char → (pos : Nat) → List Word
  | [], _ => []
  | c :: cs, pos =>
    if Text.isBlank c then split cs (pos + c.utf8Size)
    else attach c pos (split cs (pos + c.utf8Size))

end Word

/-- The text between the delimiters of a doc comment.  The delimiters do not share a character. -/
def docBody? : List Char → Option (List Char)
  | '/' :: '*' :: '*' :: rest =>
    match rest.reverse with
    | '/' :: '*' :: body => some body.reverse
    | _ => none
  | _ => none

def classOf : List Char → TextClass
  | [] => .lowerIdent
  | c :: _ =>
    if c.isDigit then .int
    else if c.isUpper then .upperIdent
    else if c ∈ ['=', '<', '>', '|', '&', '$'] then .infixOp0
    else if c ∈ ['@', '^'] then .infixOp1
    else .lowerIdent

/-- A reserved spelling comes first, then a doc comment; any other word has the class of its first
character. -/
def classify (chars : List Char) : Kind :=
  match Reserved.ofSpelling? (String.ofList chars) with
  | some r => .reserved r
  | none =>
    match docBody? chars with
    | some body => .text .docString (String.ofList body)
    | none => .text (classOf chars) (String.ofList chars)

def Word.token (w : Word) : Token := ⟨classify w.chars, w.span⟩

def lexWords (source : String) : List Token := (Word.split source.toList 0).map Word.token

def lex (source : String) : List Token :=
  lexWords source ++ [⟨.eof, .point (.clamp source.utf8ByteSize)⟩]

end TolerantParser.Mini
