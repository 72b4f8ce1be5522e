import TolerantParser.Proofs.Mini.DocComments.Erasure

/-! # The texts of trees and stacks

`Tree.frontier` lists the texts in a tree from left to right, and `Kind.spelled` the text that a
token hands on to its tree: names, numbers, doc comments and operators, but no keywords and no
punctuation.  On the stack the texts are those of its symbols from the bottom up, and a reduction
neither loses one nor moves one (`Rewrites.frontier_eq`). -/

set_option autoImplicit false

namespace TolerantParser

/-- Whether the mark is an operator, or is kept in trees like one. -/
@[simp] def Reserved.isOperator : Reserved → Bool
  | .equal => true
  | .question => true
  | .minus => true
  | .minusDot => true
  | .plus => true
  | .plusDot => true
  | .bang => true
  | _ => false

/-- The text of a token that a tree keeps. -/
def Kind.spelled : Kind → List String
  | .text _ s => [s]
  | .reserved r => if r.isOperator then [r.spelling] else []
  | .eof => []

@[simp] theorem spelled_text (c : TextClass) (s : String) : (Kind.text c s).spelled = [s] := rfl

theorem spelled_of_reserved
    (t : Token)
    (r : Reserved)
    (tagged : t.tag = .reserved r) :
    t.kind.spelled = if r.isOperator then [r.spelling] else [] := by
  unfold Token.tag at tagged
  cases kind : t.kind with
  | text c s =>
    rw [kind] at tagged
    cases tagged
  | reserved r' =>
    rw [kind, Kind.tag_reserved, Tag.reserved.injEq] at tagged
    rw [tagged, Kind.spelled]
  | eof =>
    rw [kind] at tagged
    cases tagged

theorem spelled_of_eof
    (t : Token)
    (tagged : t.tag = .eof) :
    t.kind.spelled = [] := by
  unfold Token.tag at tagged
  cases kind : t.kind with
  | eof => rfl
  | text c s =>
    rw [kind] at tagged
    cases tagged
  | reserved r =>
    rw [kind] at tagged
    cases tagged

namespace Mini

theorem spelled_of_operator
    (t : Token)
    (operates : isUnaryOp t.tag = true ∨ (binaryLevels? t.tag).isSome = true
      ∨ t.tag = .text .postfixOp) :
    t.kind.spelled = [t.kind.wording] := by
  unfold Token.tag at operates
  cases kind : t.kind with
  | text c s => rfl
  | reserved r =>
    have all : ∀ r ∈ Reserved.all, isUnaryOp (.reserved r) = true
        ∨ (binaryLevels? (.reserved r)).isSome = true ∨ Tag.reserved r = .text .postfixOp →
        r.isOperator = true := by decide
    rw [kind] at operates
    rw [Kind.spelled, if_pos (all r r.mem_all operates), Kind.wording_reserved]
  | eof =>
    rw [kind] at operates
    revert operates
    decide

namespace Tree

mutual

@[simp] def frontier : Tree → List String
  | int s => [s]
  | var s => [s]
  | constr s => [s]
  | unary op e => op :: frontier e
  | binary op a b => frontier a ++ op :: frontier b
  | postfixed e ops => frontier e ++ ops
  | call f args => f :: frontierEach args
  | labeled l _ none => [l]
  | labeled l isOptional (some e) =>
    [l, "="] ++ (if isOptional then ["?"] else []) ++ frontier e
  | letItem n e => [n, "="] ++ frontier e
  | valItem n t => n :: frontier t
  | openItem m => [m]
  | documented doc item => doc :: frontier item
  | typeCon s => [s]
  | typeApp arg con => frontier arg ++ [con]
  | implementation items => frontierEach items
  | signature items => frontierEach items
  | phrases items => frontierEach items

@[simp] def frontierEach : List Tree → List String
  | [] => []
  | t :: ts => frontier t ++ frontierEach ts

end

theorem frontierEach_append (ts us : List Tree) :
    frontierEach (ts ++ us) = frontierEach ts ++ frontierEach us := by
  induction ts with
  | nil => rfl
  | cons t ts ih => simp only [List.cons_append, frontierEach, ih, List.append_assoc]

theorem frontier_applyPostfix
    (op : String)
    (e : Tree) :
    (e.applyPostfix op).frontier = e.frontier ++ [op] := by
  cases e <;> simp [applyPostfix]

end Tree

@[simp] def Symbol.frontier : Symbol → List String
  | token t => t.kind.spelled
  | expr e => e.frontier
  | args as => Tree.frontierEach as
  | type t => t.frontier
  | item i => i.frontier
  | items is _ => Tree.frontierEach is

@[simp] def Stack.frontier : Stack → List String
  | [] => []
  | x :: s => frontier s ++ x.frontier

theorem frontier_ofAtom?
    (t : Token)
    (v : Tree)
    (isAtom : Tree.ofAtom? t.kind = some v) :
    v.frontier = t.kind.spelled := by
  unfold Tree.ofAtom? at isAtom
  split at isAtom
  · next kind => cases isAtom; simp [kind]
  · next kind => cases isAtom; simp [kind]
  · next kind => cases isAtom; simp [kind]
  · cases isAtom

/-! ## Reductions -/

section Reductions
variable (r : Reduction) (s s' : Stack)

theorem Joins.frontier_eq
    (arg : Tree)
    (joins : Joins arg s s') :
    s'.frontier = s.frontier ++ arg.frontier := by
  cases joins with
  | first s => simp
  | next comma as s parts => simp [spelled_of_reserved comma _ parts, Tree.frontierEach_append]

theorem Rewrites.frontier_eq
    (rewrites : Rewrites r s s') :
    s'.frontier = s.frontier := by
  cases rewrites with
  | atom t v s isAtom => simp [frontier_ofAtom? t v isAtom]
  | group left right e s opens closes =>
    simp [spelled_of_reserved left _ opens, spelled_of_reserved right _ closes]
  | openCall f left s callee opens => simp
  | closeCall f left right name as s callee opens closes =>
    simp [callee, spelled_of_reserved left _ opens, spelled_of_reserved right _ closes]
  | argument e s s' joins => exact joins.frontier_eq s s' e
  | punnedLabel tilde label name s s' marks names joins =>
    simp [joins.frontier_eq, names, spelled_of_reserved tilde _ marks]
  | labeledArgument tilde label equal name e s s' marks names binds joins =>
    simp [joins.frontier_eq, names, spelled_of_reserved tilde _ marks,
      spelled_of_reserved equal _ binds, Reserved.spelling]
  | optionalArgument tilde label equal question name e s s' marks names binds omits joins =>
    simp [joins.frontier_eq, names, spelled_of_reserved tilde _ marks,
      spelled_of_reserved equal _ binds, spelled_of_reserved question _ omits, Reserved.spelling]
  | unaryOp op e s isUnary => simp [spelled_of_operator op (.inl isUnary)]
  | postfixOp op e s isPostfix =>
    simp [spelled_of_operator op (.inr (.inr isPostfix)), Tree.frontier_applyPostfix]
  | binaryOp op p a b s isBinary =>
    simp [spelled_of_operator op (.inr (.inl (by simp [isBinary])))]
  | typeName t c name s names => simp [names]
  | typeApplication t name arg s names => simp [names]
  | exprItem e s => rfl
  | letItem kwLet label equal name e s lets names binds =>
    simp [names, spelled_of_reserved kwLet _ lets, spelled_of_reserved equal _ binds,
      Reserved.spelling]
  | valItem kwLet label colon name ty s lets names declares =>
    simp [names, spelled_of_reserved kwLet _ lets, spelled_of_reserved colon _ declares]
  | openItem kwOpen label name s opens names =>
    simp [names, spelled_of_reserved kwOpen _ opens]
  | docItem doc text i s documents => simp [documents]
  | appendItem i is isOpen s => simp [Tree.frontierEach_append]
  | closeItem semi is isOpen s parts => simp [spelled_of_reserved semi _ parts]

end Reductions

theorem frontier_acceptedValue?
    (goal : Goal)
    (s : Stack)
    (v : Tree)
    (complete : acceptedValue? goal s = some v) :
    v.frontier = s.frontier ∧ v.comments = s.comments := by
  unfold acceptedValue? at complete
  split at complete <;> cases complete <;> simp [Tree.comments, Stack.comments, Symbol.comments]

end Mini

end TolerantParser
