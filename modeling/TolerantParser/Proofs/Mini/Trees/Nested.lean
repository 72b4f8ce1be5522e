import TolerantParser.Mini.Tree

/-! # Nested trees

A run of postfix operators is one node of a `Tree`, with the operators in a list.  A `Nested` tree
has an application of its own for each operator, and so a pair of parentheses for each: `print` is
a plain recursion.  `Tree.nested` takes every run apart, the innermost operator first, at every
depth.

Rendering writes all the parentheses of a run before its operand.  The main fact,
`Tree.render_eq_print_nested`, is that this comes to the same, and `Tree.render_applyPostfixes` says
what it means for operators that are applied one after the other. -/

set_option autoImplicit false

namespace TolerantParser.Mini

/-- Trees in which a postfix operator is applied to an operand, and a run of them is a tower. -/
inductive Nested
  | int (digits : String)
  | var (name : String)
  | constr (name : String)
  | unary (op : String) (operand : Nested)
  | binary (op : String) (left right : Nested)
  | applied (operand : Nested) (op : String)
  | call (callee : String) (args : List Nested)
  | labeled (label : String) (isOptional : Bool) (value : Option Nested)
  | letItem (name : String) (value : Nested)
  | valItem (name : String) (type : Nested)
  | openItem (name : String)
  | documented (doc : String) (item : Nested)
  | typeCon (name : String)
  | typeApp (arg : Nested) (con : String)
  | implementation (items : List Nested)
  | signature (items : List Nested)
  | phrases (items : List Nested)

namespace Nested

mutual

def print : Nested → String
  | int s => s
  | var s => s
  | constr s => s
  | typeCon s => s
  | unary op e => "(" ++ op ++ " " ++ print e ++ ")"
  | binary op a b => "(" ++ op ++ " " ++ print a ++ " " ++ print b ++ ")"
  | applied e op => "(" ++ print e ++ " " ++ op ++ ")"
  | call f args => "(call " ++ f ++ printEach args ++ ")"
  | labeled l _ none => "~" ++ l
  | labeled l isOptional (some e) => "~" ++ l ++ (if isOptional then "=?" else "=") ++ print e
  | letItem n e => "(let " ++ n ++ " " ++ print e ++ ")"
  | valItem n t => "(val " ++ n ++ " " ++ print t ++ ")"
  | openItem m => "(open " ++ m ++ ")"
  | documented doc item => "(doc " ++ Text.quoted doc ++ " " ++ print item ++ ")"
  | typeApp arg con => "(" ++ con ++ " " ++ print arg ++ ")"
  | implementation items => "(module" ++ printEach items ++ ")"
  | signature items => "(sig" ++ printEach items ++ ")"
  | phrases items => "(phrases" ++ printEach items ++ ")"

def printEach : List Nested → String
  | [] => ""
  | t :: ts => " " ++ print t ++ printEach ts

end

/-- The operators around the operand, the first one innermost. -/
def tower (operand : Nested) (ops : List String) : Nested := ops.foldl applied operand

@[simp] theorem tower_nil (e : Nested) : e.tower [] = e := rfl

@[simp] theorem tower_concat
    (e : Nested)
    (ops : List String)
    (op : String) :
    e.tower (ops ++ [op]) = (e.tower ops).applied op :=
  List.foldl_append

end Nested

namespace Tree

mutual

/-- The tree with a tower of applications for every run of postfix operators. -/
def nested : Tree → Nested
  | int s => .int s
  | var s => .var s
  | constr s => .constr s
  | unary op e => .unary op (nested e)
  | binary op a b => .binary op (nested a) (nested b)
  | postfixed e ops => (nested e).tower ops
  | call f args => .call f (nestedEach args)
  | labeled l isOptional none => .labeled l isOptional none
  | labeled l isOptional (some e) => .labeled l isOptional (some (nested e))
  | letItem n e => .letItem n (nested e)
  | valItem n t => .valItem n (nested t)
  | openItem m => .openItem m
  | documented doc item => .documented doc (nested item)
  | typeCon s => .typeCon s
  | typeApp arg con => .typeApp (nested arg) con
  | implementation items => .implementation (nestedEach items)
  | signature items => .signature (nestedEach items)
  | phrases items => .phrases (nestedEach items)

def nestedEach : List Tree → List Nested
  | [] => []
  | t :: ts => nested t :: nestedEach ts

end

/-! ## The parentheses of a run -/

/-- The opening parentheses are all alike, so the first one may as well be the last. -/
theorem openings_cons
    (op : String)
    (ops : List String) :
    openings (op :: ops) = openings ops ++ "(" := by
  induction ops generalizing op with
  | nil => rfl
  | cons next ops ih =>
    calc
      openings (op :: next :: ops) = "(" ++ openings (next :: ops) := String.join_cons
      _ = "(" ++ (openings ops ++ "(") := by rw [ih next]
      _ = "(" ++ openings ops ++ "(" := String.append_assoc.symm
      _ = openings (next :: ops) ++ "(" := congrArg (· ++ "(") String.join_cons.symm

theorem closings_cons
    (op : String)
    (ops : List String) :
    closings (op :: ops) = " " ++ op ++ ")" ++ closings ops :=
  String.join_cons

/-- A tower is printed with its opening parentheses in front and its operators behind.  Around the
operand the first operator comes first, so the induction takes it into the operand. -/
theorem print_tower
    (e : Nested)
    (ops : List String) :
    (e.tower ops).print = openings ops ++ e.print ++ closings ops := by
  induction ops generalizing e with
  | nil => simp [openings, closings]
  | cons op ops ih =>
    calc
      (e.tower (op :: ops)).print = openings ops ++ (e.applied op).print ++ closings ops :=
        ih (e.applied op)
      _ = openings (op :: ops) ++ e.print ++ closings (op :: ops) := by
        rw [Nested.print, openings_cons, closings_cons]
        simp only [String.append_assoc]

mutual

theorem render_eq_print_nested : (v : Tree) → v.render = v.nested.print
  | int _ => rfl
  | var _ => rfl
  | constr _ => rfl
  | unary op e => by rw [render, nested, Nested.print, render_eq_print_nested e]
  | binary op a b => by
    rw [render, nested, Nested.print, render_eq_print_nested a, render_eq_print_nested b]
  | postfixed e ops => by rw [render, nested, print_tower, render_eq_print_nested e]
  | call f args => by rw [render, nested, Nested.print, renderEach_eq_printEach_nestedEach args]
  | labeled _ _ none => rfl
  | labeled l isOptional (some e) => by
    rw [render, nested, Nested.print, render_eq_print_nested e]
  | letItem n e => by rw [render, nested, Nested.print, render_eq_print_nested e]
  | valItem n t => by rw [render, nested, Nested.print, render_eq_print_nested t]
  | openItem _ => rfl
  | documented doc item => by rw [render, nested, Nested.print, render_eq_print_nested item]
  | typeCon _ => rfl
  | typeApp arg con => by rw [render, nested, Nested.print, render_eq_print_nested arg]
  | implementation items => by
    rw [render, nested, Nested.print, renderEach_eq_printEach_nestedEach items]
  | signature items => by
    rw [render, nested, Nested.print, renderEach_eq_printEach_nestedEach items]
  | phrases items => by
    rw [render, nested, Nested.print, renderEach_eq_printEach_nestedEach items]

theorem renderEach_eq_printEach_nestedEach :
    (ts : List Tree) → renderEach ts = Nested.printEach (nestedEach ts)
  | [] => rfl
  | t :: ts => by
    rw [renderEach, nestedEach, Nested.printEach, render_eq_print_nested t,
      renderEach_eq_printEach_nestedEach ts]

end

/-- The first operator of a run is the innermost one. -/
example : (unary "-" (postfixed (var "a") ["^", "!"])).nested.print = "(- ((a ^) !))" := rfl

/-! ## Operators that are applied one after the other -/

def applyPostfixes (e : Tree) (ops : List String) : Tree :=
  ops.foldl (fun e op => e.applyPostfix op) e

@[simp] theorem applyPostfixes_nil (e : Tree) : e.applyPostfixes [] = e := rfl

@[simp] theorem applyPostfixes_cons
    (e : Tree)
    (op : String)
    (ops : List String) :
    e.applyPostfixes (op :: ops) = (e.applyPostfix op).applyPostfixes ops := rfl

theorem nested_applyPostfix
    (e : Tree)
    (op : String) :
    (e.applyPostfix op).nested = e.nested.applied op := by
  cases e with
  | postfixed e ops => exact e.nested.tower_concat ops op
  | int | var | constr | unary | binary | call | labeled | letItem | valItem | openItem
  | documented | typeCon | typeApp | implementation | signature | phrases => rfl

theorem nested_applyPostfixes
    (e : Tree)
    (ops : List String) :
    (e.applyPostfixes ops).nested = e.nested.tower ops := by
  induction ops generalizing e with
  | nil => rfl
  | cons op ops ih =>
    rw [applyPostfixes_cons, ih, nested_applyPostfix]
    rfl

/-- Whether the operand is a run already or not, it keeps its rendering between the parentheses. -/
theorem render_applyPostfixes
    (e : Tree)
    (ops : List String) :
    (e.applyPostfixes ops).render = openings ops ++ e.render ++ closings ops := by
  rw [render_eq_print_nested, nested_applyPostfixes, print_tower, ← render_eq_print_nested]

end Tree

end TolerantParser.Mini
