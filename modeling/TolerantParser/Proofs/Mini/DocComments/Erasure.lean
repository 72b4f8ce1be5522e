import TolerantParser.Proofs.Driver.Edits
import TolerantParser.Proofs.Mini.Rewriting

/-! # Trees and stacks without their doc comments

`Tree.eraseDocs` takes the doc comments out of a tree and `Tree.comments` lists them.
`Stack.undocumented` and `Stack.comments` do the same for the stack, where a doc comment is a token
until its item is complete.  A reduction keeps the comments in their order (`Rewrites.comments_eq`).
Without them it is the same reduction (`Rewrites.undocumented`), or nothing at all if it puts a
comment on an item (`undocumented_of_docItem`). -/

set_option autoImplicit false

namespace TolerantParser.Mini

namespace Tree

mutual

def eraseDocs : Tree → Tree
  | int s => int s
  | var s => var s
  | constr s => constr s
  | unary op e => unary op (eraseDocs e)
  | binary op a b => binary op (eraseDocs a) (eraseDocs b)
  | postfixed e ops => postfixed (eraseDocs e) ops
  | call f args => call f (eraseDocsEach args)
  | labeled l isOptional none => labeled l isOptional none
  | labeled l isOptional (some e) => labeled l isOptional (some (eraseDocs e))
  | letItem n e => letItem n (eraseDocs e)
  | valItem n t => valItem n (eraseDocs t)
  | openItem m => openItem m
  | documented _ item => eraseDocs item
  | typeCon s => typeCon s
  | typeApp arg con => typeApp (eraseDocs arg) con
  | implementation items => implementation (eraseDocsEach items)
  | signature items => signature (eraseDocsEach items)
  | phrases items => phrases (eraseDocsEach items)

def eraseDocsEach : List Tree → List Tree
  | [] => []
  | t :: ts => eraseDocs t :: eraseDocsEach ts

end

mutual

def comments : Tree → List String
  | int _ => []
  | var _ => []
  | constr _ => []
  | unary _ e => comments e
  | binary _ a b => comments a ++ comments b
  | postfixed e _ => comments e
  | call _ args => commentsEach args
  | labeled _ _ none => []
  | labeled _ _ (some e) => comments e
  | letItem _ e => comments e
  | valItem _ t => comments t
  | openItem _ => []
  | documented doc item => doc :: comments item
  | typeCon _ => []
  | typeApp arg _ => comments arg
  | implementation items => commentsEach items
  | signature items => commentsEach items
  | phrases items => commentsEach items

def commentsEach : List Tree → List String
  | [] => []
  | t :: ts => comments t ++ commentsEach ts

end

theorem eraseDocsEach_append (ts us : List Tree) :
    eraseDocsEach (ts ++ us) = eraseDocsEach ts ++ eraseDocsEach us := by
  induction ts with
  | nil => rfl
  | cons t ts ih => simp only [List.cons_append, eraseDocsEach, ih]

theorem commentsEach_append (ts us : List Tree) :
    commentsEach (ts ++ us) = commentsEach ts ++ commentsEach us := by
  induction ts with
  | nil => rfl
  | cons t ts ih => simp only [List.cons_append, commentsEach, ih, List.append_assoc]

theorem comments_applyPostfix
    (op : String)
    (e : Tree) :
    (e.applyPostfix op).comments = e.comments := by
  cases e <;> rfl

mutual

theorem eraseDocs_eq_self : (t : Tree) → t.comments = [] → t.eraseDocs = t
  | int _, _ => rfl
  | var _, _ => rfl
  | constr _, _ => rfl
  | unary op e, bare => by rw [eraseDocs, eraseDocs_eq_self e bare]
  | binary op a b, bare => by
    obtain ⟨left, right⟩ := List.append_eq_nil_iff.mp bare
    rw [eraseDocs, eraseDocs_eq_self a left, eraseDocs_eq_self b right]
  | postfixed e ops, bare => by rw [eraseDocs, eraseDocs_eq_self e bare]
  | call f args, bare => by rw [eraseDocs, eraseDocsEach_eq_self args bare]
  | labeled _ _ none, _ => rfl
  | labeled l isOptional (some e), bare => by rw [eraseDocs, eraseDocs_eq_self e bare]
  | letItem n e, bare => by rw [eraseDocs, eraseDocs_eq_self e bare]
  | valItem n t, bare => by rw [eraseDocs, eraseDocs_eq_self t bare]
  | openItem _, _ => rfl
  | documented doc item, bare => nomatch bare
  | typeCon _, _ => rfl
  | typeApp arg con, bare => by rw [eraseDocs, eraseDocs_eq_self arg bare]
  | implementation items, bare => by rw [eraseDocs, eraseDocsEach_eq_self items bare]
  | signature items, bare => by rw [eraseDocs, eraseDocsEach_eq_self items bare]
  | phrases items, bare => by rw [eraseDocs, eraseDocsEach_eq_self items bare]

theorem eraseDocsEach_eq_self : (ts : List Tree) → commentsEach ts = [] → eraseDocsEach ts = ts
  | [], _ => rfl
  | t :: ts, bare => by
    obtain ⟨first, rest⟩ := List.append_eq_nil_iff.mp bare
    rw [eraseDocsEach, eraseDocs_eq_self t first, eraseDocsEach_eq_self ts rest]

end

end Tree

/-! ## Symbols and stacks -/

namespace Symbol

def comments : Symbol → List String
  | token t => (t.docstring?.map Docstring.text).toList
  | expr e => e.comments
  | args as => Tree.commentsEach as
  | type t => t.comments
  | item i => i.comments
  | items is _ => Tree.commentsEach is

/-- The symbol without doc comments, if it is not one itself. -/
def undocumented? : Symbol → Option Symbol
  | token t => if t.tag = .text .docString then none else some (token t)
  | item i => some (item i.eraseDocs)
  | items is isOpen => some (items (Tree.eraseDocsEach is) isOpen)
  | x => some x

/-- Only items have doc comments, and they show as tokens until the item is complete. -/
def IsBare : Symbol → Prop
  | expr e => e.comments = []
  | args as => Tree.commentsEach as = []
  | type t => t.comments = []
  | _ => True

end Symbol

namespace Stack

def comments : Stack → List String
  | [] => []
  | x :: s => comments s ++ x.comments

def undocumented (s : Stack) : Stack := s.filterMap Symbol.undocumented?

def IsBare (s : Stack) : Prop := ∀ x ∈ s, x.IsBare

@[simp] theorem isBare_cons
    (x : Symbol)
    (s : Stack) :
    IsBare (x :: s) ↔ x.IsBare ∧ s.IsBare := by
  simp [IsBare]

end Stack

section Equations
variable (s : Stack) (t : Token)

theorem undocumented_token
    (other : t.tag ≠ .text .docString) :
    Stack.undocumented (.token t :: s) = .token t :: s.undocumented := by
  simp [Stack.undocumented, Symbol.undocumented?, other]

theorem undocumented_docString
    (documents : t.tag = .text .docString) :
    Stack.undocumented (.token t :: s) = s.undocumented := by
  simp [Stack.undocumented, Symbol.undocumented?, documents]

@[simp] theorem undocumented_expr (e : Tree) :
    Stack.undocumented (.expr e :: s) = .expr e :: s.undocumented := rfl

@[simp] theorem undocumented_args (as : List Tree) :
    Stack.undocumented (.args as :: s) = .args as :: s.undocumented := rfl

@[simp] theorem undocumented_type (ty : Tree) :
    Stack.undocumented (.type ty :: s) = .type ty :: s.undocumented := rfl

@[simp] theorem undocumented_item (i : Tree) :
    Stack.undocumented (.item i :: s) = .item i.eraseDocs :: s.undocumented := rfl

@[simp] theorem undocumented_items
    (is : List Tree)
    (isOpen : Bool) :
    Stack.undocumented (.items is isOpen :: s)
      = .items (Tree.eraseDocsEach is) isOpen :: s.undocumented := rfl

theorem comments_token
    (other : t.tag ≠ .text .docString) :
    Stack.comments (.token t :: s) = s.comments := by
  simp [Stack.comments, Symbol.comments, docstring?_eq_none t other]

theorem comments_docString
    (doc : Docstring)
    (documents : t.docstring? = some doc) :
    Stack.comments (.token t :: s) = s.comments ++ [doc.text] := by
  simp [Stack.comments, Symbol.comments, documents]

@[simp] theorem comments_expr (e : Tree) :
    Stack.comments (.expr e :: s) = s.comments ++ e.comments := rfl

@[simp] theorem comments_args (as : List Tree) :
    Stack.comments (.args as :: s) = s.comments ++ Tree.commentsEach as := rfl

@[simp] theorem comments_type (ty : Tree) :
    Stack.comments (.type ty :: s) = s.comments ++ ty.comments := rfl

@[simp] theorem comments_item (i : Tree) :
    Stack.comments (.item i :: s) = s.comments ++ i.comments := rfl

@[simp] theorem comments_items
    (is : List Tree)
    (isOpen : Bool) :
    Stack.comments (.items is isOpen :: s) = s.comments ++ Tree.commentsEach is := rfl

end Equations

/-! ## Reductions -/

theorem ne_docString_of_isUnaryOp
    (t : Tag)
    (isUnary : isUnaryOp t = true) :
    t ≠ .text .docString := by
  rintro rfl
  cases isUnary

theorem ne_docString_of_binary
    (t : Tag)
    (p : BinaryLevels)
    (isBinary : binaryLevels? t = some p) :
    t ≠ .text .docString := by
  rintro rfl
  cases isBinary

theorem ne_docString_of_name
    (t : Token)
    (c : TextClass)
    (name : String)
    (names : t.kind = .text c name)
    (isName : c = .lowerIdent ∨ c = .upperIdent) :
    t.tag ≠ .text .docString := by
  rw [tag_of_kind _ _ names]
  rcases isName with rfl | rfl <;> simp

theorem comments_ofAtom?
    (t : Token)
    (v : Tree)
    (isAtom : Tree.ofAtom? t.kind = some v) :
    t.tag ≠ .text .docString ∧ v.comments = [] := by
  constructor
  · rcases tag_of_ofAtom? t v isAtom with isInt | isLower | isUpper <;> simp [*]
  · unfold Tree.ofAtom? at isAtom
    split at isAtom <;> cases isAtom <;> rfl

section Reductions
variable (r : Reduction) (s s' : Stack)

theorem Joins.comments_eq
    (arg : Tree)
    (joins : Joins arg s s') :
    s'.comments = s.comments ++ arg.comments := by
  cases joins with
  | first s => simp [Tree.commentsEach]
  | next comma as s parts =>
    simp [comments_token, parts, Tree.commentsEach_append, Tree.commentsEach]

theorem Rewrites.comments_eq
    (rewrites : Rewrites r s s') :
    s'.comments = s.comments := by
  cases rewrites with
  | atom t v s isAtom =>
    obtain ⟨other, bare⟩ := comments_ofAtom? t v isAtom
    simp [comments_token s t other, bare]
  | group left right e s opens closes => simp [comments_token, opens, closes]
  | openCall f left s callee opens => simp [Tree.commentsEach]
  | closeCall f left right name as s callee opens closes =>
    have isName : f.tag = .text .lowerIdent := tag_of_kind _ _ callee
    simp [comments_token, isName, opens, closes, Tree.comments]
  | argument e s s' joins => exact joins.comments_eq s s' e
  | punnedLabel tilde label name s s' marks names joins =>
    have isName : label.tag = .text .lowerIdent := tag_of_kind _ _ names
    simp [joins.comments_eq, comments_token, isName, marks, Tree.comments]
  | labeledArgument tilde label equal name e s s' marks names binds joins =>
    have isName : label.tag = .text .lowerIdent := tag_of_kind _ _ names
    simp [joins.comments_eq, comments_token, isName, marks, binds, Tree.comments]
  | optionalArgument tilde label equal question name e s s' marks names binds omits joins =>
    have isName : label.tag = .text .lowerIdent := tag_of_kind _ _ names
    simp [joins.comments_eq, comments_token, isName, marks, binds, omits, Tree.comments]
  | unaryOp op e s isUnary =>
    simp [comments_token s op (ne_docString_of_isUnaryOp op.tag isUnary), Tree.comments]
  | postfixOp op e s isPostfix => simp [comments_token, isPostfix, Tree.comments_applyPostfix]
  | binaryOp op p a b s isBinary =>
    simp [comments_token _ op (ne_docString_of_binary op.tag p isBinary), Tree.comments]
  | typeName t c name s names isName =>
    simp [comments_token s t (ne_docString_of_name t c name names isName), Tree.comments]
  | typeApplication t name arg s names =>
    have isName : t.tag = .text .lowerIdent := tag_of_kind _ _ names
    simp [comments_token, isName, Tree.comments]
  | exprItem e s => rfl
  | letItem kwLet label equal name e s lets names binds =>
    have isName : label.tag = .text .lowerIdent := tag_of_kind _ _ names
    simp [comments_token, isName, lets, binds, Tree.comments]
  | valItem kwLet label colon name ty s lets names declares =>
    have isName : label.tag = .text .lowerIdent := tag_of_kind _ _ names
    simp [comments_token, isName, lets, declares, Tree.comments]
  | openItem kwOpen label name s opens names =>
    have isName : label.tag = .text .upperIdent := tag_of_kind _ _ names
    simp [comments_token, isName, opens, Tree.comments]
  | docItem doc text i s documents =>
    have isDoc : doc.docstring? = some ⟨text, doc.span⟩ := by simp [Token.docstring?, documents]
    simp [comments_docString s doc _ isDoc, Tree.comments]
  | appendItem i is isOpen s => simp [Tree.commentsEach_append, Tree.commentsEach]
  | closeItem semi is isOpen s parts => simp [comments_token, parts]

theorem Joins.isBare
    (arg : Tree)
    (joins : Joins arg s s')
    (bareArg : arg.comments = [])
    (bare : s.IsBare) :
    s'.IsBare := by
  cases joins with
  | first s => simp_all [Symbol.IsBare, Tree.commentsEach]
  | next comma as s parts =>
    simp_all [Symbol.IsBare, Tree.commentsEach_append, Tree.commentsEach]

theorem Rewrites.isBare
    (rewrites : Rewrites r s s')
    (bare : s.IsBare) :
    s'.IsBare := by
  cases rewrites with
  | atom t v s isAtom => simp_all [Symbol.IsBare, (comments_ofAtom? t v isAtom).2]
  | argument e s s' joins =>
    obtain ⟨bareArg, bare⟩ := (Stack.isBare_cons _ s).mp bare
    exact joins.isBare s s' e bareArg bare
  | punnedLabel tilde label name s s' marks names joins =>
    simp only [Stack.isBare_cons] at bare
    exact joins.isBare s s' _ rfl bare.2.2
  | labeledArgument tilde label equal name e s s' marks names binds joins =>
    simp only [Stack.isBare_cons] at bare
    exact joins.isBare s s' _ bare.1 bare.2.2.2.2
  | optionalArgument tilde label equal question name e s s' marks names binds omits joins =>
    simp only [Stack.isBare_cons] at bare
    exact joins.isBare s s' _ bare.1 bare.2.2.2.2.2
  | _ => simp_all [Symbol.IsBare, Tree.comments, Tree.commentsEach, Tree.comments_applyPostfix]

theorem Joins.undocumented
    (arg : Tree)
    (joins : Joins arg s s') :
    Joins arg s.undocumented s'.undocumented := by
  cases joins with
  | first s => exact .first _
  | next comma as s parts =>
    rw [undocumented_token _ comma (by simp [parts])]
    exact .next comma as _ parts

theorem Rewrites.undocumented_of_docItem
    (rewrites : Rewrites .docItem s s') :
    s'.undocumented = s.undocumented := by
  cases rewrites with
  | docItem doc text i s documents =>
    have isDoc : doc.tag = .text .docString := tag_of_kind _ _ documents
    rw [undocumented_item, undocumented_item, undocumented_docString s doc isDoc, Tree.eraseDocs]

theorem Rewrites.undocumented
    (rewrites : Rewrites r s s')
    (bare : s.IsBare)
    (other : r ≠ .docItem) :
    Rewrites r s.undocumented s'.undocumented := by
  cases rewrites with
  | atom t v s isAtom =>
    simpa [undocumented_token s t (comments_ofAtom? t v isAtom).1] using Rewrites.atom t v _ isAtom
  | group left right e s opens closes =>
    simpa [undocumented_token, opens, closes] using Rewrites.group left right e _ opens closes
  | openCall f left s callee opens =>
    simpa [undocumented_token, callee, opens] using Rewrites.openCall f left _ callee opens
  | closeCall f left right name as s callee opens closes =>
    have isName : f.tag = .text .lowerIdent := tag_of_kind _ _ callee
    simpa [undocumented_token, isName, opens, closes]
      using Rewrites.closeCall f left right name as _ callee opens closes
  | argument e s s' joins => exact .argument e _ _ (joins.undocumented s s' e)
  | punnedLabel tilde label name s s' marks names joins =>
    have isName : label.tag = .text .lowerIdent := tag_of_kind _ _ names
    simpa [undocumented_token, isName, marks]
      using Rewrites.punnedLabel tilde label name _ _ marks names (joins.undocumented s s' _)
  | labeledArgument tilde label equal name e s s' marks names binds joins =>
    have isName : label.tag = .text .lowerIdent := tag_of_kind _ _ names
    simpa [undocumented_token, isName, marks, binds]
      using Rewrites.labeledArgument tilde label equal name e _ _ marks names binds
        (joins.undocumented s s' _)
  | optionalArgument tilde label equal question name e s s' marks names binds omits joins =>
    have isName : label.tag = .text .lowerIdent := tag_of_kind _ _ names
    simpa [undocumented_token, isName, marks, binds, omits]
      using Rewrites.optionalArgument tilde label equal question name e _ _ marks names binds omits
        (joins.undocumented s s' _)
  | unaryOp op e s isUnary =>
    simpa [undocumented_token s op (ne_docString_of_isUnaryOp op.tag isUnary)]
      using Rewrites.unaryOp op e _ isUnary
  | postfixOp op e s isPostfix =>
    simpa [undocumented_token, isPostfix] using Rewrites.postfixOp op e _ isPostfix
  | binaryOp op p a b s isBinary =>
    simpa [undocumented_token _ op (ne_docString_of_binary op.tag p isBinary)]
      using Rewrites.binaryOp op p a b _ isBinary
  | typeName t c name s names isName =>
    simpa [undocumented_token s t (ne_docString_of_name t c name names isName)]
      using Rewrites.typeName t c name _ names isName
  | typeApplication t name arg s names =>
    have isName : t.tag = .text .lowerIdent := tag_of_kind _ _ names
    simpa [undocumented_token, isName] using Rewrites.typeApplication t name arg _ names
  | exprItem e s =>
    simpa [e.eraseDocs_eq_self ((Stack.isBare_cons _ s).mp bare).1] using Rewrites.exprItem e _
  | letItem kwLet label equal name e s lets names binds =>
    have isName : label.tag = .text .lowerIdent := tag_of_kind _ _ names
    simpa [undocumented_token, isName, lets, binds, Tree.eraseDocs,
        e.eraseDocs_eq_self ((Stack.isBare_cons _ _).mp bare).1]
      using Rewrites.letItem kwLet label equal name e _ lets names binds
  | valItem kwLet label colon name ty s lets names declares =>
    have isName : label.tag = .text .lowerIdent := tag_of_kind _ _ names
    simpa [undocumented_token, isName, lets, declares, Tree.eraseDocs,
        ty.eraseDocs_eq_self ((Stack.isBare_cons _ _).mp bare).1]
      using Rewrites.valItem kwLet label colon name ty _ lets names declares
  | openItem kwOpen label name s opens names =>
    have isName : label.tag = .text .upperIdent := tag_of_kind _ _ names
    simpa [undocumented_token, isName, opens, Tree.eraseDocs]
      using Rewrites.openItem kwOpen label name _ opens names
  | docItem doc text i s documents => exact absurd rfl other
  | appendItem i is isOpen s =>
    simpa [Tree.eraseDocsEach_append, Tree.eraseDocsEach]
      using Rewrites.appendItem i.eraseDocs (Tree.eraseDocsEach is) isOpen s.undocumented
  | closeItem semi is isOpen s parts =>
    simpa [undocumented_token, parts]
      using Rewrites.closeItem semi (Tree.eraseDocsEach is) isOpen s.undocumented parts

end Reductions

end TolerantParser.Mini
