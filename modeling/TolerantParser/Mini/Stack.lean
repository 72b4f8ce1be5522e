import TolerantParser.Goal
import TolerantParser.Mini.Tree
import TolerantParser.Token.Basic

/-! # The stack of the miniature automaton

The automaton keeps what it has read on a stack of symbols, top first: tokens, and the phrases
that tokens have been reduced to.  A decision never depends on texts, trees or spans, so it looks
at the marks of the symbols only. -/

set_option autoImplicit false

namespace TolerantParser.Mini

inductive Symbol
  | token (t : Token)
  | expr (e : Tree)
  /-- the arguments of a call that is not closed yet -/
  | args (as : List Tree)
  | type (t : Tree)
  | item (i : Tree)
  /-- the items of a file; `isOpen` if another one may follow at once -/
  | items (is : List Tree) (isOpen : Bool)

/-- What a decision can see of a symbol. -/
inductive Mark
  | token (t : Tag)
  | expr
  | args (isEmpty : Bool)
  | type
  | item
  | items (isOpen : Bool)
deriving DecidableEq

abbrev Stack := List Symbol

namespace Symbol

def mark : Symbol → Mark
  | token t => .token t.tag
  | expr _ => .expr
  | args as => .args as.isEmpty
  | type _ => .type
  | item _ => .item
  | items _ isOpen => .items isOpen

def inspect : Symbol → String
  | token t => Text.application "Tok" [t.inspect]
  | expr e => Text.application "Expr" [e.inspect]
  | args as => Text.application "Args" [Text.bracketed (as.map Tree.inspect)]
  | type t => Text.application "Type" [t.inspect]
  | item i => Text.application "Item" [i.inspect]
  | items is isOpen =>
    Text.record "Items"
      [("items", Text.bracketed (is.map Tree.inspect)), ("open", Text.boolean isOpen)]

end Symbol

def Stack.marks (s : Stack) : List Mark := s.map Symbol.mark

@[simp] theorem marks_nil : Stack.marks [] = [] := rfl

@[simp] theorem marks_cons
    (x : Symbol)
    (s : Stack) :
    Stack.marks (x :: s) = x.mark :: s.marks := rfl

@[simp] theorem mark_token (t : Token) : (Symbol.token t).mark = .token t.tag := rfl

@[simp] theorem mark_expr (e : Tree) : (Symbol.expr e).mark = .expr := rfl

@[simp] theorem mark_args (as : List Tree) : (Symbol.args as).mark = .args as.isEmpty := rfl

@[simp] theorem mark_type (t : Tree) : (Symbol.type t).mark = .type := rfl

@[simp] theorem mark_item (i : Tree) : (Symbol.item i).mark = .item := rfl

@[simp] theorem mark_items
    (is : List Tree)
    (isOpen : Bool) :
    (Symbol.items is isOpen).mark = .items isOpen := rfl

structure Env where
  goal : Goal
  stack : Stack
  lookahead : Option Token

namespace Env

def depth (env : Env) : Nat := env.stack.length

def inspect (env : Env) : String :=
  Text.record "Env"
    [("goal", env.goal.inspect),
     ("stack", Text.bracketed (env.stack.reverse.map Symbol.inspect)),
     ("lookahead", Text.optional (env.lookahead.map Token.inspect))]

end Env

end TolerantParser.Mini
