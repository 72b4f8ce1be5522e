import TolerantParser.Proofs.Mini.Expression.Completeness
import TolerantParser.Proofs.Mini.Items.Grammar
import TolerantParser.Proofs.Mini.Viable.Reduce

/-! # Every item and every file is read

The automaton reads the tokens of a type or an item at a place for it and leaves its tree on the
stack, whatever token comes after a type, and for an item if the token ends items.  Item by item it
reads the tokens of a file to the end (`run_of_fileYields`). -/

set_option autoImplicit false

namespace TolerantParser.Mini

section Types
variable (goal : Goal) (s : Stack)

theorem run_of_typeYields
    (ty : Tree)
    (us : List Token)
    (t : Token)
    (ts : List Token)
    (place : Begins goal .type s)
    (yields : TypeYields ty us) :
    automaton.run ⟨goal, s, none⟩ (us ++ t :: ts)
      = automaton.run ⟨goal, .type ty :: s, none⟩ (t :: ts) := by
  induction yields generalizing t ts with
  | name u c name names isName =>
    have tagged := tag_of_name u c name names isName
    have taken : nextAction goal u.tag s.marks = .shift := by
      rw [place.nextAction_type goal s u.tag]
      rcases tagged with tagged | tagged <;> rw [tagged] <;> rfl
    rw [List.singleton_append, run_of_shift goal s u (t :: ts) taken]
    exact run_of_reduce goal (.token u :: s) _ t ts .typeName
      (place.nextAction_name goal s t.tag u tagged) (by simp [Reduction.apply, names, Kind.text?])
  | application u name arg us _ names ih =>
    have isName : u.tag = .text .lowerIdent := tag_of_kind u _ names
    have taken : nextAction goal u.tag (Stack.marks (.type arg :: s)) = .shift := by
      simp [isName, nextAction, onType]
    have reduce : nextAction goal t.tag (Stack.marks (.token u :: .type arg :: s))
        = .reduce .typeApplication := by
      simp [isName, nextAction, onToken, onLowerIdent]
    rw [List.append_assoc, List.singleton_append, ih u (t :: ts),
      run_of_shift goal (.type arg :: s) u (t :: ts) taken]
    exact run_of_reduce goal (.token u :: .type arg :: s) _ t ts .typeApplication reduce
      (by simp [Reduction.apply, names, Kind.text?])

end Types

/-! ## Items -/

theorem facts_of_endsItem
    (la : Tag)
    (ends : endsItem la = true) :
    leftLevel la ≤ .e1 ∧ la ≠ .reserved .lparen ∧ la ≠ .text .lowerIdent
      ∧ ¬ (la = .text .postfixOp ∨ (binaryLevels? la).isSome) := by
  have all : ∀ t ∈ Tag.all, endsItem t = true → leftLevel t ≤ .e1 ∧ t ≠ .reserved .lparen
      ∧ t ≠ .text .lowerIdent ∧ ¬ (t = .text .postfixOp ∨ (binaryLevels? t).isSome) := by decide
  exact all la la.mem_all ends

section Items
variable (goal : Goal) (t : Token) (ts : List Token)

theorem run_of_binder
    (kwLet label sign : Token)
    (s : Stack)
    (place : Begins goal .item s)
    (lets : kwLet.tag = .reserved .kwLet)
    (isName : label.tag = .text .lowerIdent)
    (binds : sign.tag = .reserved (if goal = .interface then .colon else .equal)) :
    automaton.run ⟨goal, s, none⟩ (kwLet :: label :: sign :: ts)
      = automaton.run ⟨goal, .token sign :: .token label :: .token kwLet :: s, none⟩ ts := by
  have taken : nextAction goal kwLet.tag s.marks = .shift :=
    place.shift_of_startsItem goal s _ (by rw [lets]; rfl)
  have named : nextAction goal label.tag (Stack.marks (.token kwLet :: s)) = .shift := by
    simp [lets, isName, nextAction, onToken, Action.shiftIf]
  have bound : nextAction goal sign.tag (Stack.marks (.token label :: .token kwLet :: s))
      = .shift := by
    simp [lets, isName, binds, nextAction, onToken, onLowerIdent, Action.shiftIf]
  rw [run_of_shift goal s kwLet (label :: sign :: ts) taken,
    run_of_shift goal (.token kwLet :: s) label (sign :: ts) named,
    run_of_shift goal (.token label :: .token kwLet :: s) sign ts bound]

theorem run_of_opening
    (e : Tree)
    (us : List Token)
    (s : Stack)
    (opens : Opening goal s.marks)
    (ends : endsItem t.tag = true)
    (yields : Yields (.expr .e1 e) us) :
    automaton.run ⟨goal, s, none⟩ (us ++ t :: ts)
        = automaton.run ⟨goal, .expr e :: s, none⟩ (t :: ts)
      ∧ nextAction goal t.tag (Stack.marks (.expr e :: s)) = closeExpr goal t.tag s.marks := by
  obtain ⟨whole, notCall, _, noOperator⟩ := facts_of_endsItem t.tag ends
  have place : Place goal (.operand .e1) s.marks := .opening _ opens
  refine ⟨reads_of_yields goal _ us yields .e1 s t ts place (Level.le_refl _) whole notCall, ?_⟩
  rw [marks_cons, mark_expr, place.nextAction_above goal _ t.tag, if_neg noOperator]

theorem run_of_itemYields
    (i : Tree)
    (us : List Token)
    (s : Stack)
    (place : Begins goal .item s)
    (ends : endsItem t.tag = true)
    (yields : ItemYields goal i us) :
    automaton.run ⟨goal, s, none⟩ (us ++ t :: ts)
      = automaton.run ⟨goal, .item i :: s, none⟩ (t :: ts) := by
  induction yields generalizing s with
  | documented doc text i us documents _ ih =>
    have isDoc : doc.tag = .text .docString := tag_of_kind doc _ documents
    have taken := place.shift_of_startsItem goal s doc.tag (by rw [isDoc]; rfl)
    have reduce : nextAction goal t.tag (Stack.marks (.item i :: .token doc :: s))
        = .reduce .docItem := by
      simp [isDoc, nextAction, onItem]
    rw [List.cons_append, run_of_shift goal s doc (us ++ t :: ts) taken,
      ih (.token doc :: s) (.documented doc s place isDoc)]
    exact run_of_reduce goal (.item i :: .token doc :: s) _ t ts .docItem reduce
      (by simp [Reduction.apply, documents, Kind.text?])
  | opened kwOpen label name opens names =>
    have isName : label.tag = .text .upperIdent := tag_of_kind label _ names
    have taken := place.shift_of_startsItem goal s kwOpen.tag (by rw [opens]; rfl)
    have named : nextAction goal label.tag (Stack.marks (.token kwOpen :: s)) = .shift := by
      simp [opens, isName, nextAction, onToken, Action.shiftIf]
    have reduce : nextAction goal t.tag (Stack.marks (.token label :: .token kwOpen :: s))
        = .reduce .openItem := by
      simp [opens, isName, nextAction, onToken, onUpperIdent, Action.reduceIf, ends]
    rw [List.cons_append, List.singleton_append, run_of_shift goal s kwOpen (label :: t :: ts) taken,
      run_of_shift goal (.token kwOpen :: s) label (t :: ts) named]
    exact run_of_reduce goal (.token label :: .token kwOpen :: s) _ t ts .openItem reduce
      (by simp [Reduction.apply, names, Kind.text?])
  | bound kwLet label equal name e us values lets names binds inner =>
    have isName : label.tag = .text .lowerIdent := tag_of_kind label _ names
    have opens := opening_of_binder goal kwLet label equal s lets isName binds
    obtain ⟨read, above⟩ := run_of_opening goal t ts e us _ opens ends inner
    have reduce : nextAction goal t.tag
        (Stack.marks (.expr e :: .token equal :: .token label :: .token kwLet :: s))
        = .reduce .letItem := by
      rw [above]
      simp [lets, isName, binds, closeExpr, isLabel, isBinder, Action.reduceIf, ends]
    simp only [List.cons_append]
    rw [run_of_binder goal _ kwLet label equal s place lets isName (by rw [if_neg values, binds]),
      read]
    exact run_of_reduce goal _ _ t ts .letItem reduce
      (by simp [Reduction.apply, names, Kind.text?])
  | expr e us values inner =>
    obtain ⟨read, above⟩ := run_of_opening goal t ts e us s (place.opening goal s values) ends inner
    rw [place.closeExpr_eq goal s t.tag values, ends] at above
    rw [read]
    exact run_of_reduce goal (.expr e :: s) _ t ts .exprItem above rfl
  | declared kwLet label colon name ty us types lets names declares inner =>
    have isName : label.tag = .text .lowerIdent := tag_of_kind label _ names
    have place' := Begins.declared kwLet label colon s place types lets isName declares
    have reduce : nextAction goal t.tag
        (Stack.marks (.type ty :: .token colon :: .token label :: .token kwLet :: s))
        = .reduce .valItem := by
      have noName := (facts_of_endsItem t.tag ends).2.2.1
      simp only [marks_cons, mark_type, mark_token, declares, nextAction]
      unfold onType
      split <;> simp_all [Action.reduceIf]
    simp only [List.cons_append]
    rw [run_of_binder goal _ kwLet label colon s place lets isName (by rw [if_pos types, declares]),
      run_of_typeYields goal _ ty us t ts place' inner]
    exact run_of_reduce goal _ _ t ts .valItem reduce
      (by simp [Reduction.apply, names, Kind.text?])

/-! ## Files -/

/-- The items of a file are read, as long as none follows another at once. -/
theorem run_of_fileYields
    (isFile : goal.isFile = true)
    (is : List Tree)
    (isOpen : Bool)
    (us : List Token)
    (yields : FileYields goal is isOpen us)
    (ends : isOpen = false → endsItem t.tag = true) :
    automaton.run ⟨goal, startStack goal, none⟩ (us ++ t :: ts)
      = automaton.run ⟨goal, [.items is isOpen], none⟩ (t :: ts) := by
  induction yields generalizing t ts with
  | empty => rw [startStack_of_isFile goal isFile, List.nil_append]
  | item is i us vs _ last ih =>
    obtain ⟨v, vs, rfl⟩ := List.exists_cons_of_ne_nil (last.ne_nil goal i vs)
    have readBefore := ih v (vs ++ t :: ts) nofun
    have readLast := run_of_itemYields goal t ts i (v :: vs) _ (.items is isFile) (ends rfl) last
    rw [List.append_assoc, List.cons_append, readBefore, ← List.cons_append, readLast]
    exact run_of_reduce goal [.item i, .items is true] _ t ts .appendItem rfl rfl
  | separator semi is isOpen us _ parts ih =>
    have readBefore := ih semi (t :: ts) (fun _ => by rw [parts]; rfl)
    have taken : nextAction goal semi.tag (Stack.marks [.items is isOpen]) = .shift := by
      rw [parts]
      rfl
    have reduce : nextAction goal t.tag (Stack.marks [.token semi, .items is isOpen])
        = .reduce .closeItem := by
      simp [parts, nextAction, onToken, onSemi]
    rw [List.append_assoc, List.singleton_append, readBefore,
      run_of_shift goal [.items is isOpen] semi (t :: ts) taken]
    exact run_of_reduce goal [.token semi, .items is isOpen] _ t ts .closeItem reduce rfl

end Items

end TolerantParser.Mini
