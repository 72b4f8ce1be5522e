import TolerantParser.Text.Inspect
import TolerantParser.Text.Quoted

/-! # Trees of the miniature grammar

One type holds expressions, arguments, types, items and whole files.  A run of postfix operators
is one node with the operators in a list, innermost first, so that a long run is not a deep tree.
`render` writes a tree as an S-expression. -/

set_option autoImplicit false

namespace TolerantParser.Mini

inductive Tree
  | int (digits : String)
  | var (name : String)
  | constr (name : String)
  | unary (op : String) (operand : Tree)
  | binary (op : String) (left right : Tree)
  | postfixed (operand : Tree) (ops : List String)
  | call (callee : String) (args : List Tree)
  | labeled (label : String) (isOptional : Bool) (value : Option Tree)
  | letItem (name : String) (value : Tree)
  | valItem (name : String) (type : Tree)
  | openItem (name : String)
  | documented (doc : String) (item : Tree)
  | typeCon (name : String)
  | typeApp (arg : Tree) (con : String)
  | implementation (items : List Tree)
  | signature (items : List Tree)
  | phrases (items : List Tree)

namespace Tree

/-- One more postfix operator around the tree; a run that is there already is extended. -/
def applyPostfix (op : String) : Tree → Tree
  | postfixed operand ops => postfixed operand (ops ++ [op])
  | operand => postfixed operand [op]

def openings (ops : List String) : String := String.join (ops.map fun _ => "(")

def closings (ops : List String) : String := String.join (ops.map fun op => " " ++ op ++ ")")

mutual

def render : Tree → String
  | int s => s
  | var s => s
  | constr s => s
  | typeCon s => s
  | unary op e => "(" ++ op ++ " " ++ render e ++ ")"
  | binary op a b => "(" ++ op ++ " " ++ render a ++ " " ++ render b ++ ")"
  | postfixed e ops => openings ops ++ render e ++ closings ops
  | call f args => "(call " ++ f ++ renderEach args ++ ")"
  | labeled l _ none => "~" ++ l
  | labeled l isOptional (some e) => "~" ++ l ++ (if isOptional then "=?" else "=") ++ render e
  | letItem n e => "(let " ++ n ++ " " ++ render e ++ ")"
  | valItem n t => "(val " ++ n ++ " " ++ render t ++ ")"
  | openItem m => "(open " ++ m ++ ")"
  | documented doc item => "(doc " ++ Text.quoted doc ++ " " ++ render item ++ ")"
  | typeApp arg con => "(" ++ con ++ " " ++ render arg ++ ")"
  | implementation items => "(module" ++ renderEach items ++ ")"
  | signature items => "(sig" ++ renderEach items ++ ")"
  | phrases items => "(phrases" ++ renderEach items ++ ")"

def renderEach : List Tree → String
  | [] => ""
  | t :: ts => " " ++ render t ++ renderEach ts

end

mutual

def inspect : Tree → String
  | int s => Text.application "Int" [Text.quoted s]
  | var s => Text.application "Var" [Text.quoted s]
  | constr s => Text.application "Constr" [Text.quoted s]
  | typeCon s => Text.application "TypeCon" [Text.quoted s]
  | unary op e => Text.application "Unary" [Text.quoted op, inspect e]
  | binary op a b => Text.application "Binary" [Text.quoted op, inspect a, inspect b]
  | postfixed e ops =>
    Text.record "Postfix"
      [("operand", inspect e), ("ops", Text.bracketed (ops.map Text.quoted))]
  | call f args => Text.application "Call" [Text.quoted f, Text.bracketed (inspectEach args)]
  | labeled l isOptional none =>
    Text.record "Labeled"
      [("label", Text.quoted l), ("optional", Text.boolean isOptional),
       ("default", Text.optional none)]
  | labeled l isOptional (some e) =>
    Text.record "Labeled"
      [("label", Text.quoted l), ("optional", Text.boolean isOptional),
       ("default", Text.optional (some (inspect e)))]
  | letItem n e => Text.application "Let" [Text.quoted n, inspect e]
  | valItem n t => Text.application "Val" [Text.quoted n, inspect t]
  | openItem m => Text.application "Open" [Text.quoted m]
  | documented doc item => Text.application "Doc" [Text.quoted doc, inspect item]
  | typeApp arg con => Text.application "TypeApp" [inspect arg, Text.quoted con]
  | implementation items => Text.application "Module" [Text.bracketed (inspectEach items)]
  | signature items => Text.application "Signature" [Text.bracketed (inspectEach items)]
  | phrases items => Text.application "Phrases" [Text.bracketed (inspectEach items)]

def inspectEach : List Tree → List String
  | [] => []
  | t :: ts => inspect t :: inspectEach ts

end

end Tree

end TolerantParser.Mini
