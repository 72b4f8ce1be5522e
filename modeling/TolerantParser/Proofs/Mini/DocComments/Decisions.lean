import TolerantParser.Proofs.Mini.DocComments.Erasure
import TolerantParser.Proofs.Mini.Viable.Reduce

/-! # Decisions without doc comments

In a file, the doc comments that wait for their item stand directly on the items before it.  Above
that foot a decision cannot tell whether there are any (`Rebased.nextAction_eq`).  So the
automaton decides alike with and without them, but for the two places where it looks at one:
`Viable.nextAction_undocumented`. -/

set_option autoImplicit false

namespace TolerantParser.Mini

/-- The items of a file, and the doc comments that wait for the next one. -/
inductive Foot : List Mark → Prop
  | items (isOpen : Bool) : Foot [.items isOpen]
  | documented (ms : List Mark)
      (rest : Foot ms) :
      Foot (.token (.text .docString) :: ms)

inductive Rebased : List Mark → List Mark → Prop
  | foot (ms ms' : List Mark)
      (foot : Foot ms)
      (foot' : Foot ms') :
      Rebased ms ms'
  | above (m : Mark) (ms ms' : List Mark)
      (below : Rebased ms ms') :
      Rebased (m :: ms) (m :: ms')

section Rebased
variable (goal : Goal) (la : Tag) (ms ms' : List Mark)

theorem Foot.isLabel_eq (foot : Foot ms) : isLabel ms = false := by
  cases foot <;> rfl

theorem Foot.isBinder_eq (foot : Foot ms) : isBinder ms = false := by
  cases foot with
  | items => rfl
  | documented ms rest => cases rest <;> rfl

theorem Foot.operatorBelow_eq (foot : Foot ms) : operatorBelow la ms = none := by
  cases foot with
  | items => rfl
  | documented ms rest => cases rest <;> rfl

theorem Foot.closeExpr_eq (foot : Foot ms) :
    closeExpr goal la ms = .reduceIf (endsItem la) .exprItem := by
  cases foot <;> rfl

theorem Rebased.isLabel_eq (rebased : Rebased ms ms') : isLabel ms = isLabel ms' := by
  cases rebased with
  | foot ms ms' foot foot' => rw [foot.isLabel_eq, foot'.isLabel_eq]
  | above m ms ms' below =>
    cases below with
    | above n ms ms' below =>
      unfold isLabel
      split <;> simp_all
    | foot ms ms' foot foot' =>
      cases foot <;> cases foot' <;> unfold isLabel <;> split <;> simp_all

theorem Rebased.isBinder_eq (rebased : Rebased ms ms') : isBinder ms = isBinder ms' := by
  cases rebased with
  | foot ms ms' foot foot' => rw [foot.isBinder_eq, foot'.isBinder_eq]
  | above m ms ms' below =>
    cases below with
    | above n ms ms' below =>
      unfold isBinder
      split <;> simp_all
    | foot ms ms' foot foot' => cases foot <;> cases foot' <;> rfl

theorem operatorBelow_cons_cons (m n : Mark) :
    operatorBelow la (m :: n :: ms) = operatorBelow la (m :: n :: ms') := by
  cases m with
  | token op => cases n <;> rfl
  | expr | args | type | item | items => rfl

theorem Rebased.operatorBelow_eq (rebased : Rebased ms ms') :
    operatorBelow la ms = operatorBelow la ms' := by
  cases rebased with
  | foot ms ms' foot foot' => rw [foot.operatorBelow_eq, foot'.operatorBelow_eq]
  | above m ms ms' below =>
    cases below with
    | above n ms ms' below => exact operatorBelow_cons_cons la ms ms' m n
    | foot ms ms' foot foot' =>
      cases m with
      | token op => cases foot <;> cases foot' <;> rfl
      | expr | args | type | item | items => rfl

theorem inType_cons (m : Mark) : inType goal (m :: ms) = inType goal (m :: ms') := by
  unfold inType
  split <;> simp_all

theorem Rebased.inType_eq (rebased : Rebased ms ms') : inType goal ms = inType goal ms' := by
  cases rebased with
  | foot ms ms' foot foot' => cases foot <;> cases foot' <;> rfl
  | above m ms ms' below => exact inType_cons goal ms ms' m

theorem Rebased.onLowerIdent_eq (rebased : Rebased ms ms') :
    onLowerIdent goal la ms = onLowerIdent goal la ms' := by
  have types := rebased.inType_eq goal
  cases rebased with
  | foot ms ms' foot foot' => cases foot <;> cases foot' <;> rfl
  | above m ms ms' below =>
    unfold onLowerIdent
    split <;> simp_all

theorem Rebased.onUpperIdent_eq (rebased : Rebased ms ms') :
    onUpperIdent goal la ms = onUpperIdent goal la ms' := by
  have types := rebased.inType_eq goal
  cases rebased with
  | foot ms ms' foot foot' => cases foot <;> cases foot' <;> rfl
  | above m ms ms' below =>
    unfold onUpperIdent
    split <;> simp_all

theorem Rebased.onLParen_eq (rebased : Rebased ms ms') : onLParen la ms = onLParen la ms' := by
  cases rebased with
  | foot ms ms' foot foot' => cases foot <;> cases foot' <;> rfl
  | above m ms ms' below =>
    unfold onLParen
    split <;> simp_all

theorem Rebased.onRParen_eq (rebased : Rebased ms ms') : onRParen ms = onRParen ms' := by
  cases rebased with
  | foot ms ms' foot foot' => cases foot <;> cases foot' <;> rfl
  | above m ms ms' below => cases m <;> rfl

theorem Rebased.closeExpr_eq (rebased : Rebased ms ms') :
    closeExpr goal la ms = closeExpr goal la ms' := by
  cases rebased with
  | foot ms ms' foot foot' => rw [foot.closeExpr_eq, foot'.closeExpr_eq]
  | above m ms ms' below =>
    have labels := below.isLabel_eq
    have binders := below.isBinder_eq
    unfold closeExpr
    split <;> simp_all

theorem Rebased.onExpr_eq (rebased : Rebased ms ms') :
    onExpr goal la ms = onExpr goal la ms' := by
  simp only [onExpr, rebased.operatorBelow_eq la, rebased.closeExpr_eq goal la]

theorem Rebased.onType_eq (rebased : Rebased ms ms') :
    onType goal la ms = onType goal la ms' := by
  cases rebased with
  | foot ms ms' foot foot' =>
    cases foot <;> cases foot' <;> unfold onType <;> split <;> simp_all
  | above m ms ms' below =>
    unfold onType
    split <;> simp_all

/-- The decisions read of the foot only that it is one, unless an item or a separator stands on
it. -/
theorem Rebased.nextAction_eq
    (m : Mark)
    (rebased : Rebased ms ms')
    (notItem : m ≠ .item)
    (notSemi : m ≠ .token (.reserved .semi)) :
    nextAction goal la (m :: ms) = nextAction goal la (m :: ms') := by
  cases m with
  | token top =>
    simp only [nextAction, onToken, rebased.onLowerIdent_eq, rebased.onUpperIdent_eq,
      rebased.onLParen_eq, rebased.onRParen_eq, rebased.isLabel_eq]
    split <;> simp_all
  | expr => exact rebased.onExpr_eq goal la ms ms'
  | type => exact rebased.onType_eq goal la ms ms'
  | item => exact absurd rfl notItem
  | args | items => rfl

end Rebased

section Viable
variable (goal : Goal) (s : Stack)

theorem Begins.foot
    (isFile : goal.isFile = true)
    (place : Begins goal .item s) :
    Foot s.marks ∧ ∃ is, s.undocumented = [.items is true] := by
  generalize item : Category.item = c at place
  induction place with
  | toplevelPhrase single =>
    rw [single] at isFile
    cases isFile
  | items is _ => exact ⟨.items true, _, rfl⟩
  | documented doc s _ documents ih =>
    obtain ⟨foot, is, same⟩ := ih item
    rw [marks_cons, mark_token, documents, undocumented_docString s doc documents]
    exact ⟨.documented _ foot, is, same⟩
  | _ => cases item

theorem rebased_token
    (t : Token)
    (other : t.tag ≠ .text .docString)
    (below : Rebased s.marks s.undocumented.marks) :
    Rebased (Stack.marks (.token t :: s)) (Stack.undocumented (.token t :: s)).marks := by
  rw [undocumented_token s t other]
  exact .above _ _ _ below

theorem Begins.rebased
    (c : Category)
    (isFile : goal.isFile = true)
    (place : Begins goal c s) :
    Rebased s.marks s.undocumented.marks := by
  have onFoot : ∀ s, Begins goal .item s → Rebased s.marks s.undocumented.marks := by
    intro s place
    obtain ⟨foot, is, same⟩ := place.foot goal s isFile
    rw [same]
    exact .foot _ _ foot (.items true)
  induction place with
  | expression single | coreType single | toplevelPhrase single =>
    rw [single] at isFile
    cases isFile
  | items is isFile => exact onFoot _ (.items is isFile)
  | documented doc s outer documents => exact onFoot _ (.documented doc s outer documents)
  | exprItem s _ _ ih | plainArg s _ ih => exact ih
  | bound kwLet label equal s _ _ lets names binds ih
  | declared kwLet label equal s _ _ lets names binds ih =>
    exact rebased_token _ equal (by simp [binds])
      (rebased_token _ label (by simp [names]) (rebased_token s kwLet (by simp [lets]) ih))
  | group left s _ opens ih => exact rebased_token s left (by simp [opens]) ih
  | unary op s _ isUnary ih =>
    exact rebased_token s op (ne_docString_of_isUnaryOp op.tag isUnary) ih
  | binary op p a s _ isBinary ih =>
    exact rebased_token _ op (ne_docString_of_binary op.tag p isBinary) (.above _ _ _ ih)
  | firstArg f left s _ callee opens ih =>
    exact .above _ _ _
      (rebased_token _ left (by simp [opens]) (rebased_token s f (by simp [callee]) ih))
  | nextArg f left comma as s _ callee opens _ parts ih =>
    exact rebased_token _ comma (by simp [parts]) (.above _ _ _
      (rebased_token _ left (by simp [opens]) (rebased_token s f (by simp [callee]) ih)))
  | label tilde label equal s _ marks names binds ih =>
    exact rebased_token _ equal (by simp [binds])
      (rebased_token _ label (by simp [names]) (rebased_token s tilde (by simp [marks]) ih))
  | optionalLabel tilde label equal question s _ marks names binds omits ih =>
    exact rebased_token _ question (by simp [omits]) (rebased_token _ equal (by simp [binds])
      (rebased_token _ label (by simp [names]) (rebased_token s tilde (by simp [marks]) ih)))

theorem Viable.rebased
    (isFile : goal.isFile = true)
    (viable : Viable goal s) :
    Rebased s.marks s.undocumented.marks := by
  cases viable with
  | begins c s place => exact place.rebased goal s c isFile
  | atom t s place isAtom =>
    exact rebased_token s t (by rcases isAtom with h | h | h <;> simp [h])
      (place.rebased goal s _ isFile)
  | expr e s place => exact .above _ _ _ (place.rebased goal s _ isFile)
  | postfixed op e s place isPostfix =>
    exact rebased_token _ op (by simp [isPostfix]) (.above _ _ _ (place.rebased goal s _ isFile))
  | group left right e s place opens closes =>
    exact rebased_token _ right (by simp [closes]) (.above _ _ _
      (rebased_token s left (by simp [opens]) (place.rebased goal s _ isFile)))
  | called f left s place callee opens =>
    exact rebased_token _ left (by simp [opens])
      (rebased_token s f (by simp [callee]) (place.rebased goal s _ isFile))
  | args f left as s place callee opens =>
    exact .above _ _ _ (rebased_token _ left (by simp [opens])
      (rebased_token s f (by simp [callee]) (place.rebased goal s _ isFile)))
  | call f left right as s place callee opens closes =>
    exact rebased_token _ right (by simp [closes]) (.above _ _ _
      (rebased_token _ left (by simp [opens])
        (rebased_token s f (by simp [callee]) (place.rebased goal s _ isFile))))
  | tilde tilde s place marks =>
    exact rebased_token s tilde (by simp [marks]) (place.rebased goal s _ isFile)
  | label tilde label s place marks names =>
    exact rebased_token _ label (by simp [names])
      (rebased_token s tilde (by simp [marks]) (place.rebased goal s _ isFile))
  | kwLet kwLet s place lets =>
    exact rebased_token s kwLet (by simp [lets]) (place.rebased goal s _ isFile)
  | binder kwLet label s place lets names =>
    exact rebased_token _ label (by simp [names])
      (rebased_token s kwLet (by simp [lets]) (place.rebased goal s _ isFile))
  | kwOpen kwOpen s place opens =>
    exact rebased_token s kwOpen (by simp [opens]) (place.rebased goal s _ isFile)
  | opened kwOpen label s place opens names =>
    exact rebased_token _ label (by simp [names])
      (rebased_token s kwOpen (by simp [opens]) (place.rebased goal s _ isFile))
  | typeName t s place names =>
    exact rebased_token s t (by rcases names with h | h <;> simp [h])
      (place.rebased goal s _ isFile)
  | type ty s place => exact .above _ _ _ (place.rebased goal s _ isFile)
  | typeApplication t ty s place names =>
    exact rebased_token _ t (by simp [names]) (.above _ _ _ (place.rebased goal s _ isFile))
  | item i s place => exact .above _ _ _ (place.rebased goal s _ isFile)
  | items is isOpen _ => exact .foot _ _ (.items isOpen) (.items isOpen)
  | closed semi is isOpen _ parts =>
    exact rebased_token _ semi (by simp [parts]) (.foot _ _ (.items isOpen) (.items isOpen))

theorem Rebased.of_above
    (m : Mark)
    (ms ms' : List Mark)
    (rebased : Rebased (m :: ms) (m :: ms'))
    (notDoc : m ≠ .token (.text .docString))
    (notItems : ∀ isOpen, m ≠ .items isOpen) :
    Rebased ms ms' := by
  cases rebased with
  | above m ms ms' below => exact below
  | foot ms ms' foot foot' =>
    cases foot with
    | items isOpen => exact absurd rfl (notItems isOpen)
    | documented ms rest => exact absurd rfl notDoc

/-- Doc comments change a decision only under an item that is complete, or where they wait for one
and the lookahead ends the item that is to come. -/
theorem Viable.nextAction_undocumented
    (la : Tag)
    (isFile : goal.isFile = true)
    (viable : Viable goal s)
    (waiting : ∀ doc rest, s = .token doc :: rest → doc.tag = .text .docString →
      endsItem la = false)
    (underItem : ∀ i doc rest, s = .item i :: .token doc :: rest → doc.tag ≠ .text .docString) :
    nextAction goal la s.undocumented.marks = nextAction goal la s.marks := by
  have rebased := viable.rebased goal s isFile
  cases s with
  | nil => rfl
  | cons x s =>
    cases x with
    | token t =>
      by_cases documents : t.tag = .text .docString
      · have continues := waiting t s rfl documents
        obtain ⟨_, is, same⟩ := (viable.place_of_docString goal s t documents).foot goal _ isFile
        rw [same]
        simp only [marks_cons, marks_nil, mark_items, mark_token, documents, nextAction, onToken,
          onItems]
        split <;> simp_all [endsItem]
      · rw [undocumented_token s t documents] at rebased ⊢
        by_cases parts : t.tag = .reserved .semi
        · obtain ⟨_, is, isOpen, rfl⟩ := viable.items_of_semi goal s t parts
          rfl
        · have below := rebased.of_above _ _ _ (by simpa using documents) (by simp)
          exact (below.nextAction_eq goal la _ _ (.token t.tag) (by simp)
            (by simpa using parts)).symm
    | expr e =>
      have below := rebased.of_above _ _ _ (by simp) (by simp)
      exact (below.nextAction_eq goal la _ _ .expr (by simp) (by simp)).symm
    | args as => rfl
    | type ty =>
      have below := rebased.of_above _ _ _ (by simp) (by simp)
      exact (below.nextAction_eq goal la _ _ .type (by simp) (by simp)).symm
    | item i =>
      cases viable.place_of_item goal s i with
      | toplevelPhrase single => rfl
      | items is _ => rfl
      | documented doc s outer documents => exact absurd documents (underItem i doc s rfl)
    | items is isOpen => rfl

end Viable

end TolerantParser.Mini
