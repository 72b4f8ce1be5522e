/-! # Token tags

A tag says what sort of token one is and leaves its text out.  There are 35: seven classes of
tokens that carry text, 27 reserved words and marks with one fixed spelling each, and the end of
the file.  `Tag.index` numbers them in this order; `Tag.index_injective` says that no two tags
share a number and `Tag.mem_all` that `Tag.all` lists every one. -/

set_option autoImplicit false

namespace TolerantParser

inductive TextClass
  | int
  | lowerIdent
  | upperIdent
  | docString
  | infixOp0
  | infixOp1
  | postfixOp
deriving DecidableEq

namespace TextClass

def all : List TextClass :=
  [.int, .lowerIdent, .upperIdent, .docString, .infixOp0, .infixOp1, .postfixOp]

def name : TextClass → String
  | int => "Int"
  | lowerIdent => "LIdent"
  | upperIdent => "UIdent"
  | docString => "DocString"
  | infixOp0 => "InfixOp0"
  | infixOp1 => "InfixOp1"
  | postfixOp => "Postfix"

def description : TextClass → String
  | int => "integer"
  | lowerIdent => "identifier"
  | upperIdent => "capitalised identifier"
  | docString => "doc comment"
  | infixOp0 => "infix operator"
  | infixOp1 => "infix operator"
  | postfixOp => "postfix operator"

theorem mem_all (c : TextClass) : c ∈ all := by cases c <;> decide

end TextClass

inductive Reserved
  | kwLet
  | kwType
  | kwModule
  | kwOpen
  | kwException
  | kwInclude
  | kwWhile
  | kwFor
  | kwIf
  | kwSwitch
  | kwTry
  | kwAssert
  | kwLazy
  | lbracketAt
  | lparen
  | rparen
  | colon
  | comma
  | semi
  | tilde
  | question
  | equal
  | minus
  | minusDot
  | plus
  | plusDot
  | bang
deriving DecidableEq

namespace Reserved

def all : List Reserved :=
  [.kwLet, .kwType, .kwModule, .kwOpen, .kwException, .kwInclude, .kwWhile, .kwFor, .kwIf,
   .kwSwitch, .kwTry, .kwAssert, .kwLazy, .lbracketAt, .lparen, .rparen, .colon, .comma, .semi,
   .tilde, .question, .equal, .minus, .minusDot, .plus, .plusDot, .bang]

def spelling : Reserved → String
  | kwLet => "let"
  | kwType => "type"
  | kwModule => "module"
  | kwOpen => "open"
  | kwException => "exception"
  | kwInclude => "include"
  | kwWhile => "while"
  | kwFor => "for"
  | kwIf => "if"
  | kwSwitch => "switch"
  | kwTry => "try"
  | kwAssert => "assert"
  | kwLazy => "lazy"
  | lbracketAt => "[@"
  | lparen => "("
  | rparen => ")"
  | colon => ":"
  | comma => ","
  | semi => ";"
  | tilde => "~"
  | question => "?"
  | equal => "="
  | minus => "-"
  | minusDot => "-."
  | plus => "+"
  | plusDot => "+."
  | bang => "!"

def ofSpelling? (s : String) : Option Reserved := all.find? fun r => r.spelling == s

theorem mem_all (r : Reserved) : r ∈ all := by cases r <;> decide

theorem spelling_of_ofSpelling?
    (s : String)
    (r : Reserved)
    (h : ofSpelling? s = some r) :
    r.spelling = s := by
  have := List.find?_some h
  simpa using this

end Reserved

inductive Tag
  | text (c : TextClass)
  | reserved (r : Reserved)
  | eof
deriving DecidableEq

namespace Tag

def all : List Tag := TextClass.all.map text ++ Reserved.all.map reserved ++ [eof]

/-- The number of the tag: text classes first, then reserved words and marks, then the end. -/
def index : Tag → Fin 35
  | text c => ⟨c.ctorIdx, by cases c <;> decide⟩
  | reserved r => ⟨7 + r.ctorIdx, by cases r <;> decide⟩
  | eof => 34

def displayName : Tag → String
  | text c => c.description
  | reserved r => r.spelling
  | eof => "end of file"

theorem mem_all (t : Tag) : t ∈ all := by
  cases t with
  | text c => simp [all, c.mem_all]
  | reserved r => simp [all, r.mem_all]
  | eof => simp [all]

theorem index_injective
    (t u : Tag)
    (h : t.index = u.index) :
    t = u := by
  have hall : ∀ a ∈ all, ∀ b ∈ all, a.index = b.index → a = b := by decide
  exact hall t t.mem_all u u.mem_all h

end Tag

end TolerantParser
