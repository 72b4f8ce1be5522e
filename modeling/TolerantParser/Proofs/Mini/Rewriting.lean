import TolerantParser.Proofs.Mini.Expression.Places

/-! # What reductions rewrite

`Reduction.apply` takes any stack and looks at as little of it as it can.  `Rewrites` has a
constructor for each production of the grammar: the symbols that a reduction takes on a stack where
the production is complete, and the phrase that it leaves.  It is what reductions do wherever a run
comes by, so that facts about them are facts about these cases. -/

set_option autoImplicit false

namespace TolerantParser.Mini

inductive Joins (arg : Tree) : Stack → Stack → Prop
  | first (s : Stack) : Joins arg (.args [] :: s) (.args [arg] :: s)
  | next (comma : Token) (as : List Tree) (s : Stack)
      (parts : comma.tag = .reserved .comma) :
      Joins arg (.token comma :: .args as :: s) (.args (as ++ [arg]) :: s)

inductive Rewrites : Reduction → Stack → Stack → Prop
  | atom (t : Token) (v : Tree) (s : Stack)
      (isAtom : Tree.ofAtom? t.kind = some v) :
      Rewrites .atom (.token t :: s) (.expr v :: s)
  | group (left right : Token) (e : Tree) (s : Stack)
      (opens : left.tag = .reserved .lparen)
      (closes : right.tag = .reserved .rparen) :
      Rewrites .group (.token right :: .expr e :: .token left :: s) (.expr e :: s)
  | openCall (f left : Token) (s : Stack)
      (callee : f.tag = .text .lowerIdent)
      (opens : left.tag = .reserved .lparen) :
      Rewrites .openCall (.token left :: .token f :: s) (.args [] :: .token left :: .token f :: s)
  | closeCall (f left right : Token) (name : String) (as : List Tree) (s : Stack)
      (callee : f.kind = .text .lowerIdent name)
      (opens : left.tag = .reserved .lparen)
      (closes : right.tag = .reserved .rparen) :
      Rewrites .closeCall (.token right :: .args as :: .token left :: .token f :: s)
        (.expr (.call name as) :: s)
  | argument (e : Tree) (s s' : Stack)
      (joins : Joins e s s') :
      Rewrites .argument (.expr e :: s) s'
  | punnedLabel (tilde label : Token) (name : String) (s s' : Stack)
      (marks : tilde.tag = .reserved .tilde)
      (names : label.kind = .text .lowerIdent name)
      (joins : Joins (.labeled name false none) s s') :
      Rewrites .punnedLabel (.token label :: .token tilde :: s) s'
  | labeledArgument (tilde label equal : Token) (name : String) (e : Tree) (s s' : Stack)
      (marks : tilde.tag = .reserved .tilde)
      (names : label.kind = .text .lowerIdent name)
      (binds : equal.tag = .reserved .equal)
      (joins : Joins (.labeled name false (some e)) s s') :
      Rewrites .labeledArgument (.expr e :: .token equal :: .token label :: .token tilde :: s) s'
  | optionalArgument (tilde label equal question : Token) (name : String) (e : Tree) (s s' : Stack)
      (marks : tilde.tag = .reserved .tilde)
      (names : label.kind = .text .lowerIdent name)
      (binds : equal.tag = .reserved .equal)
      (omits : question.tag = .reserved .question)
      (joins : Joins (.labeled name true (some e)) s s') :
      Rewrites .labeledArgument
        (.expr e :: .token question :: .token equal :: .token label :: .token tilde :: s) s'
  | unaryOp (op : Token) (e : Tree) (s : Stack)
      (isUnary : isUnaryOp op.tag = true) :
      Rewrites .unaryOp (.expr e :: .token op :: s) (.expr (.unary op.kind.wording e) :: s)
  | postfixOp (op : Token) (e : Tree) (s : Stack)
      (isPostfix : op.tag = .text .postfixOp) :
      Rewrites .postfixOp (.token op :: .expr e :: s)
        (.expr (e.applyPostfix op.kind.wording) :: s)
  | binaryOp (op : Token) (p : BinaryLevels) (a b : Tree) (s : Stack)
      (isBinary : binaryLevels? op.tag = some p) :
      Rewrites .binaryOp (.expr b :: .token op :: .expr a :: s)
        (.expr (.binary op.kind.wording a b) :: s)
  | typeName (t : Token) (c : TextClass) (name : String) (s : Stack)
      (names : t.kind = .text c name)
      (isName : c = .lowerIdent ∨ c = .upperIdent) :
      Rewrites .typeName (.token t :: s) (.type (.typeCon name) :: s)
  | typeApplication (t : Token) (name : String) (arg : Tree) (s : Stack)
      (names : t.kind = .text .lowerIdent name) :
      Rewrites .typeApplication (.token t :: .type arg :: s) (.type (.typeApp arg name) :: s)
  | exprItem (e : Tree) (s : Stack) :
      Rewrites .exprItem (.expr e :: s) (.item e :: s)
  | letItem (kwLet label equal : Token) (name : String) (e : Tree) (s : Stack)
      (lets : kwLet.tag = .reserved .kwLet)
      (names : label.kind = .text .lowerIdent name)
      (binds : equal.tag = .reserved .equal) :
      Rewrites .letItem (.expr e :: .token equal :: .token label :: .token kwLet :: s)
        (.item (.letItem name e) :: s)
  | valItem (kwLet label colon : Token) (name : String) (ty : Tree) (s : Stack)
      (lets : kwLet.tag = .reserved .kwLet)
      (names : label.kind = .text .lowerIdent name)
      (declares : colon.tag = .reserved .colon) :
      Rewrites .valItem (.type ty :: .token colon :: .token label :: .token kwLet :: s)
        (.item (.valItem name ty) :: s)
  | openItem (kwOpen label : Token) (name : String) (s : Stack)
      (opens : kwOpen.tag = .reserved .kwOpen)
      (names : label.kind = .text .upperIdent name) :
      Rewrites .openItem (.token label :: .token kwOpen :: s) (.item (.openItem name) :: s)
  | docItem (doc : Token) (text : String) (i : Tree) (s : Stack)
      (documents : doc.kind = .text .docString text) :
      Rewrites .docItem (.item i :: .token doc :: s) (.item (.documented text i) :: s)
  | appendItem (i : Tree) (is : List Tree) (isOpen : Bool) (s : Stack) :
      Rewrites .appendItem (.item i :: .items is isOpen :: s) (.items (is ++ [i]) false :: s)
  | closeItem (semi : Token) (is : List Tree) (isOpen : Bool) (s : Stack)
      (parts : semi.tag = .reserved .semi) :
      Rewrites .closeItem (.token semi :: .items is isOpen :: s) (.items is true :: s)

theorem Joins.appendArg_eq
    (arg : Tree)
    (s s' : Stack)
    (joins : Joins arg s s') :
    appendArg arg s = some s' := by
  cases joins with
  | first => rfl
  | next comma as s parts => simp only [appendArg, parts, if_true]

theorem Rewrites.apply_eq
    (r : Reduction)
    (s s' : Stack)
    (rewrites : Rewrites r s s') :
    r.apply s = some s' := by
  cases rewrites with
  | group | openCall | unaryOp | postfixOp | binaryOp | exprItem | appendItem | closeItem => rfl
  | atom t v s isAtom => simp only [Reduction.apply, isAtom, Option.map_some]
  | closeCall f left right name as s callee =>
    simp only [Reduction.apply, callee, Kind.text?, Option.map_some]
  | argument e s s' joins => exact joins.appendArg_eq
  | punnedLabel tilde label name s s' _ names joins =>
    simpa [Reduction.apply, names, Kind.text?] using joins.appendArg_eq
  | labeledArgument tilde label equal name e s s' _ names binds joins =>
    simpa [Reduction.apply, appendLabeled, appendLabeled.plain, binds, names, Kind.text?]
      using joins.appendArg_eq
  | optionalArgument tilde label equal question name e s s' _ names _ omits joins =>
    simpa [Reduction.apply, appendLabeled, omits, names, Kind.text?] using joins.appendArg_eq
  | typeName t c name s names =>
    simp only [Reduction.apply, names, Kind.text?, Option.map_some]
  | typeApplication t name arg s names =>
    simp only [Reduction.apply, names, Kind.text?, Option.map_some]
  | letItem kwLet label equal name e s _ names =>
    simp only [Reduction.apply, names, Kind.text?, Option.map_some, List.drop_one, List.tail_cons]
  | valItem kwLet label colon name ty s _ names =>
    simp only [Reduction.apply, names, Kind.text?, Option.map_some, List.drop_one, List.tail_cons]
  | openItem kwOpen label name s _ names =>
    simp only [Reduction.apply, names, Kind.text?, Option.map_some, List.drop_one, List.tail_cons]
  | docItem doc text i s documents =>
    simp only [Reduction.apply, documents, Kind.text?, Option.map_some]

end TolerantParser.Mini
