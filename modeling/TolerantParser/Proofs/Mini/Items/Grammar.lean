import Mathlib.Data.List.Forall2
import TolerantParser.Goal
import TolerantParser.Proofs.Mini.Expression.Places
import TolerantParser.Proofs.Mini.Stretches

/-! # The grammar of items and files

    type ::= LIDENT | UIDENT | type LIDENT
    item ::= DOC item | 'open' UIDENT | 'let' LIDENT '=' e1 | e1 | 'let' LIDENT ':' type

An interface has the last form of items and neither of the two before it; every other goal has those
two.  A file is a list of items that goes on after a separator, and a separator can follow whatever
is there.  So the items of a file are those of its phrases (`exists_fileYields_iff`). -/

set_option autoImplicit false

namespace TolerantParser.Mini

inductive TypeYields : Tree → List Token → Prop
  | name (t : Token) (c : TextClass) (name : String)
      (names : t.kind = .text c name)
      (isName : c = .lowerIdent ∨ c = .upperIdent) :
      TypeYields (.typeCon name) [t]
  | application (t : Token) (name : String) (arg : Tree) (us : List Token)
      (inner : TypeYields arg us)
      (names : t.kind = .text .lowerIdent name) :
      TypeYields (.typeApp arg name) (us ++ [t])

inductive ItemYields (goal : Goal) : Tree → List Token → Prop
  | documented (doc : Token) (text : String) (i : Tree) (us : List Token)
      (documents : doc.kind = .text .docString text)
      (inner : ItemYields goal i us) :
      ItemYields goal (.documented text i) (doc :: us)
  | opened (kwOpen label : Token) (name : String)
      (opens : kwOpen.tag = .reserved .kwOpen)
      (names : label.kind = .text .upperIdent name) :
      ItemYields goal (.openItem name) [kwOpen, label]
  | bound (kwLet label equal : Token) (name : String) (e : Tree) (us : List Token)
      (values : goal ≠ .interface)
      (lets : kwLet.tag = .reserved .kwLet)
      (names : label.kind = .text .lowerIdent name)
      (binds : equal.tag = .reserved .equal)
      (inner : Yields (.expr .e1 e) us) :
      ItemYields goal (.letItem name e) (kwLet :: label :: equal :: us)
  | expr (e : Tree) (us : List Token)
      (values : goal ≠ .interface)
      (inner : Yields (.expr .e1 e) us) :
      ItemYields goal e us
  | declared (kwLet label colon : Token) (name : String) (ty : Tree) (us : List Token)
      (types : goal = .interface)
      (lets : kwLet.tag = .reserved .kwLet)
      (names : label.kind = .text .lowerIdent name)
      (declares : colon.tag = .reserved .colon)
      (inner : TypeYields ty us) :
      ItemYields goal (.valItem name ty) (kwLet :: label :: colon :: us)

/-- The tokens that derive a list of items; `isOpen` if another item may follow at once. -/
inductive FileYields (goal : Goal) : (is : List Tree) → (isOpen : Bool) → List Token → Prop
  | empty : FileYields goal [] true []
  | item (is : List Tree) (i : Tree) (us vs : List Token)
      (before : FileYields goal is true us)
      (last : ItemYields goal i vs) :
      FileYields goal (is ++ [i]) false (us ++ vs)
  | separator (semi : Token) (is : List Tree) (isOpen : Bool) (us : List Token)
      (before : FileYields goal is isOpen us)
      (parts : semi.tag = .reserved .semi) :
      FileYields goal is true (us ++ [semi])

theorem tag_of_name
    (t : Token)
    (c : TextClass)
    (name : String)
    (names : t.kind = .text c name)
    (isName : c = .lowerIdent ∨ c = .upperIdent) :
    t.tag = .text .lowerIdent ∨ t.tag = .text .upperIdent := by
  rw [tag_of_kind t _ names]
  exact isName.imp (congrArg _) (congrArg _)

theorem opening_of_binder
    (goal : Goal)
    (kwLet label equal : Token)
    (s : Stack)
    (lets : kwLet.tag = .reserved .kwLet)
    (isName : label.tag = .text .lowerIdent)
    (binds : equal.tag = .reserved .equal) :
    Opening goal (Stack.marks (.token equal :: .token label :: .token kwLet :: s)) := by
  simp only [marks_cons, mark_token, lets, isName, binds]
  exact .bound _

/-! ## Items are not empty and have no separators -/

theorem Yields.ne_nil
    (p : Phrase)
    (us : List Token)
    (yields : Yields p us)
    (someArgs : p ≠ .args []) :
    us ≠ [] := by
  induction yields with
  | noArgs => exact absurd rfl someArgs
  | next _ _ _ _ _ _ ih | firstArg _ _ _ ih | plain _ _ _ ih => exact ih nofun
  | _ => simp

theorem ne_semi_of_operator
    (op : Tag)
    (isOperator : (binaryLevels? op).isSome = true ∨ isUnaryOp op = true) :
    op ≠ .reserved .semi := by
  rintro rfl
  exact absurd isOperator (by decide)

theorem Yields.ne_semi
    (p : Phrase)
    (us : List Token)
    (yields : Yields p us) :
    ∀ t ∈ us, t.tag ≠ .reserved .semi := by
  induction yields with
  | noArgs => nofun
  | next _ _ _ _ _ _ ih | firstArg _ _ _ ih | plain _ _ _ ih => exact ih
  | binary op p text a b us vs isBinary _ _ _ left right =>
    have other := ne_semi_of_operator op.tag (.inl (by rw [isBinary]; rfl))
    exact List.forall_mem_append.mpr ⟨left, List.forall_mem_cons.mpr ⟨other, right⟩⟩
  | unary op text v us spelled _ ih =>
    have isUnary := ((prefixText?_eq_some_iff op.kind text).mp spelled).1
    exact List.forall_mem_cons.mpr ⟨ne_semi_of_operator op.tag (.inr isUnary), ih⟩
  | postfixed op _ _ _ kind _ _ ih | extended op _ _ _ _ kind _ ih =>
    exact List.forall_mem_append.mpr ⟨ih, by simp [tag_of_kind op _ kind]⟩
  | int t _ kind | var t _ kind | constr t _ kind => simp [tag_of_kind t _ kind]
  | group l r v us opens closes _ ih =>
    simpa [opens, closes, or_imp, forall_and] using ih
  | call f l r name values us callee opens closes _ ih =>
    simpa [tag_of_kind f _ callee, opens, closes, or_imp, forall_and] using ih
  | nextArg comma v values us vs parts _ _ _ before last =>
    exact List.forall_mem_append.mpr ⟨before, List.forall_mem_cons.mpr ⟨by simp [parts], last⟩⟩
  | punned tilde label name marks names => simp [marks, tag_of_kind label _ names]
  | labeled tilde label equal name v us marks names binds _ ih =>
    simpa [marks, tag_of_kind label _ names, binds] using ih
  | optional tilde label equal question name v us marks names binds omits _ ih =>
    simpa [marks, tag_of_kind label _ names, binds, omits] using ih

theorem TypeYields.ne_semi
    (ty : Tree)
    (us : List Token)
    (yields : TypeYields ty us) :
    ∀ t ∈ us, t.tag ≠ .reserved .semi := by
  induction yields with
  | name t c name names => simp [tag_of_kind t _ names]
  | application t name arg us _ names ih =>
    exact List.forall_mem_append.mpr ⟨ih, by simp [tag_of_kind t _ names]⟩

section Items
variable (goal : Goal)

theorem ItemYields.ne_nil
    (i : Tree)
    (us : List Token)
    (yields : ItemYields goal i us) :
    us ≠ [] := by
  cases yields with
  | expr _ _ _ inner => exact inner.ne_nil _ us nofun
  | _ => simp

theorem ItemYields.ne_semi
    (i : Tree)
    (us : List Token)
    (yields : ItemYields goal i us) :
    ∀ t ∈ us, t.tag ≠ .reserved .semi := by
  induction yields with
  | documented doc text i us documents _ ih => simpa [tag_of_kind doc _ documents] using ih
  | opened kwOpen label name opens names => simp [opens, tag_of_kind label _ names]
  | bound kwLet label equal name e us _ lets names binds inner =>
    simpa [lets, tag_of_kind label _ names, binds] using inner.ne_semi
  | expr e us _ inner => exact inner.ne_semi
  | declared kwLet label colon name ty us _ lets names declares inner =>
    simpa [lets, tag_of_kind label _ names, declares] using inner.ne_semi

theorem ItemYields.of_goal
    (goal' : Goal)
    (alike : goal = .interface ↔ goal' = .interface)
    (i : Tree)
    (us : List Token)
    (yields : ItemYields goal i us) :
    ItemYields goal' i us := by
  induction yields with
  | documented doc text i us documents _ ih => exact .documented doc text i us documents ih
  | opened kwOpen label name opens names => exact .opened kwOpen label name opens names
  | bound kwLet label equal name e us values lets names binds inner =>
    exact .bound kwLet label equal name e us (mt alike.mpr values) lets names binds inner
  | expr e us values inner => exact .expr e us (mt alike.mpr values) inner
  | declared kwLet label colon name ty us types lets names declares inner =>
    exact .declared kwLet label colon name ty us (alike.mp types) lets names declares inner

end Items

/-! ## Files and their phrases -/

section Files
variable (goal : Goal)

theorem FileYields.of_isOpen
    (is : List Tree)
    (us : List Token)
    (yields : FileYields goal is true us) :
    us = [] ∨ ∃ before semi, us = before ++ [semi] ∧ semi.tag = .reserved .semi := by
  cases yields with
  | empty => exact .inl rfl
  | separator semi _ isOpen us before parts => exact .inr ⟨us, semi, rfl, parts⟩

theorem phrases_item
    (us vs : List Token)
    (ends : us = [] ∨ ∃ before semi, us = before ++ [semi] ∧ semi.tag = .reserved .semi)
    (noSemi : ∀ t ∈ vs, t.tag ≠ .reserved .semi)
    (nonempty : vs ≠ []) :
    phrases (us ++ vs) = phrases us ++ [vs] := by
  have single := phrases_of_noSemi vs noSemi nonempty
  rcases ends with rfl | ⟨before, semi, rfl, parts⟩
  · rw [List.nil_append, single]
    rfl
  · rw [List.append_assoc, List.singleton_append, phrases_append before vs semi parts,
      phrases_append before [] semi parts, single, phrases_nil, List.append_nil]

theorem FileYields.phrases
    (is : List Tree)
    (isOpen : Bool)
    (us : List Token)
    (yields : FileYields goal is isOpen us) :
    List.Forall₂ (ItemYields goal) is (Mini.phrases us) := by
  induction yields with
  | empty => exact .nil
  | item is i us vs before last ih =>
    rw [phrases_item us vs (before.of_isOpen goal is us) (last.ne_semi goal i vs)
      (last.ne_nil goal i vs)]
    exact List.rel_append ih (.cons last .nil)
  | separator semi is isOpen us before parts ih =>
    rw [phrases_append us [] semi parts]
    simpa using ih

theorem FileYields.exists_append_phrase
    (is is' : List Tree)
    (us vs : List Token)
    (yields : FileYields goal is true us)
    (noSemi : ∀ t ∈ vs, t.tag ≠ .reserved .semi)
    (items : List.Forall₂ (ItemYields goal) is' (Mini.phrases vs)) :
    ∃ isOpen, FileYields goal (is ++ is') isOpen (us ++ vs) := by
  by_cases empty : vs = []
  · subst empty
    cases items
    exact ⟨true, by simpa using yields⟩
  · rw [phrases_of_noSemi vs noSemi empty] at items
    obtain ⟨i, none, last, isNil, rfl⟩ := List.forall₂_cons_right_iff.mp items
    rw [List.forall₂_nil_right_iff.mp isNil]
    exact ⟨false, .item is i us vs yields last⟩

theorem FileYields.exists_append
    (is is' : List Tree)
    (us vs : List Token)
    (yields : FileYields goal is true us)
    (items : List.Forall₂ (ItemYields goal) is' (Mini.phrases vs)) :
    ∃ isOpen, FileYields goal (is ++ is') isOpen (us ++ vs) := by
  induction vs using stretches_induction generalizing is is' us with
  | single vs noSemi => exact yields.exists_append_phrase goal is is' us vs noSemi items
  | cut vs semi ws noSemi parts ih =>
    rw [phrases_append vs ws semi parts] at items
    obtain ⟨isOpen, first⟩ := yields.exists_append_phrase goal is _ us vs noSemi
      (List.forall₂_take_append _ _ _ items)
    obtain ⟨isOpen', whole⟩ := ih _ _ _ (first.separator semi _ isOpen _ parts)
      (List.forall₂_drop_append _ _ _ items)
    refine ⟨isOpen', ?_⟩
    simpa using whole

theorem exists_fileYields_iff
    (is : List Tree)
    (us : List Token) :
    (∃ isOpen, FileYields goal is isOpen us)
      ↔ List.Forall₂ (ItemYields goal) is (Mini.phrases us) := by
  constructor
  · rintro ⟨isOpen, yields⟩
    exact yields.phrases goal is isOpen us
  · intro items
    simpa using FileYields.exists_append goal [] is [] us .empty items

end Files

end TolerantParser.Mini
