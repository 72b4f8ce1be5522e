import TolerantParser.Proofs.Mini.Viable.Shift

/-! # Reducing a viable stack

Whenever a reduction is decided on, the stack holds a complete production for it, and the phrase
that replaces the production stands where the production stood: `Viable.reduce`.  Whenever the
automaton accepts, the stack holds the phrase of the goal and nothing else: `Viable.accept`. -/

set_option autoImplicit false

namespace TolerantParser.Mini

/-! ## Reductions -/

section Reductions
variable (goal : Goal) (s : Stack) (t : Token) (r : Reduction)

theorem Begins.joins
    (arg : Tree)
    (place : Begins goal .arg s) :
    ∃ s', Joins arg s s' ∧ Viable goal s' := by
  cases place with
  | firstArg f left s outer callee opens =>
    exact ⟨_, .first _, .args f left [arg] s outer callee opens (by simp)⟩
  | nextArg f left comma as s outer callee opens nonempty parts =>
    exact ⟨_, .next comma as _ parts, .args f left (as ++ [arg]) s outer callee opens (by simp)⟩

theorem reduce_of_loosest
    (la : Tag)
    (ms : List Mark)
    (place : Place goal (.operand .e1) ms)
    (next : nextAction goal la (.expr :: ms) = .reduce r) :
    closeExpr goal la ms = .reduce r := by
  rw [place.nextAction_above goal ms la] at next
  split at next
  · cases next
  · exact next

theorem Begins.closeExpr_eq
    (la : Tag)
    (place : Begins goal .item s)
    (values : goal ≠ .interface) :
    closeExpr goal la s.marks = .reduceIf (endsItem la) .exprItem := by
  cases place with
  | toplevelPhrase single =>
    subst single
    rfl
  | items => rfl
  | documented doc s _ documents =>
    rw [marks_cons, mark_token, documents]
    rfl

theorem Begins.reduce_expr
    (e : Tree)
    (place : Begins goal .expr s)
    (next : nextAction goal t.tag (.expr :: s.marks) = .reduce r) :
    ∃ s', Rewrites r (.expr e :: s) s' ∧ Viable goal s' := by
  cases place with
  | expression single =>
    have decided := reduce_of_loosest goal r t.tag _ (.opening _ (.bottom (.inl single))) next
    simp only [closeExpr, single, if_true] at decided
    split at decided <;> cases decided
  | exprItem s outer values =>
    have opens := outer.opening goal s values
    have decided := reduce_of_loosest goal r t.tag _ (.opening _ opens) next
    rw [outer.closeExpr_eq goal s t.tag values, Action.reduceIf_eq_reduce_iff] at decided
    obtain ⟨_, rfl⟩ := decided
    exact ⟨_, .exprItem e s, .item e s outer⟩
  | bound kwLet label equal s outer values lets names binds =>
    simp only [marks_cons, mark_token, lets, names, binds] at next
    have decided := reduce_of_loosest goal r t.tag _ (.opening _ (.bound _)) next
    obtain ⟨_, rfl⟩ := (Action.reduceIf_eq_reduce_iff _ .letItem r).mp decided
    obtain ⟨name, names⟩ := exists_kind_of_tag label _ names
    exact ⟨_, .letItem kwLet label equal name e s lets names binds, .item _ s outer⟩
  | group left s outer opens =>
    obtain ⟨l, inner⟩ := (outer.place goal s .expr).1 rfl
    rw [marks_cons, mark_token, opens] at next
    have decided := reduce_of_loosest goal r t.tag _ (.group l _ inner) next
    exact absurd decided (Action.shiftIf_ne_reduce _ r)
  | unary op s outer isUnary =>
    rw [marks_cons, mark_token, nextAction_above_unary goal t.tag s.marks op.tag isUnary
      (outer.clear goal s)] at next
    split at next
    · cases next
    · cases next
      exact ⟨_, .unaryOp op e s isUnary, .expr _ s outer⟩
  | binary op p a s outer isBinary =>
    rw [marks_cons, mark_token, marks_cons, mark_expr,
      nextAction_above_binary goal t.tag s.marks op.tag p isBinary] at next
    split at next
    · cases next
      exact ⟨_, .binaryOp op p a e s isBinary, .expr _ s outer⟩
    · cases next
  | plainArg s outer =>
    have place := (outer.place goal s .arg).2 rfl
    have decided := reduce_of_loosest goal r t.tag _ (.plain _ place) next
    rw [place.closeExpr_eq goal s.marks t.tag, Action.reduceIf_eq_reduce_iff] at decided
    obtain ⟨_, rfl⟩ := decided
    obtain ⟨s', joins, viable⟩ := outer.joins goal s e
    exact ⟨s', .argument e s s' joins, viable⟩
  | label tilde label equal s outer marks names binds =>
    simp only [marks_cons, mark_token, marks, names, binds] at next
    have decided := reduce_of_loosest goal r t.tag _ (.label _) next
    rw [closeExpr_label, Action.reduceIf_eq_reduce_iff] at decided
    obtain ⟨_, rfl⟩ := decided
    obtain ⟨name, names⟩ := exists_kind_of_tag label _ names
    obtain ⟨s', joins, viable⟩ := outer.joins goal s (.labeled name false (some e))
    exact ⟨s', .labeledArgument tilde label equal name e s s' marks names binds joins, viable⟩
  | optionalLabel tilde label equal question s outer marks names binds omits =>
    simp only [marks_cons, mark_token, marks, names, binds, omits] at next
    have decided := reduce_of_loosest goal r t.tag _ (.optionalLabel _) next
    rw [closeExpr_optionalLabel, Action.reduceIf_eq_reduce_iff] at decided
    obtain ⟨_, rfl⟩ := decided
    obtain ⟨name, names⟩ := exists_kind_of_tag label _ names
    obtain ⟨s', joins, viable⟩ := outer.joins goal s (.labeled name true (some e))
    exact ⟨s', .optionalArgument tilde label equal question name e s s' marks names binds omits
      joins, viable⟩

theorem reduce_of_onType
    (la : Tag)
    (ms : List Mark)
    (next : onType goal la ms = .reduce r) :
    r = .valItem ∧ ∃ rest, ms = .token (.reserved .colon) :: rest := by
  unfold onType at next
  split at next
  · cases next
  · split at next <;> cases next
  · exact ⟨((Action.reduceIf_eq_reduce_iff _ _ r).mp next).2.symm, _, rfl⟩
  · cases next

theorem Viable.reduce
    (viable : Viable goal s)
    (next : nextAction goal t.tag s.marks = .reduce r) :
    ∃ s', Rewrites r s s' ∧ Viable goal s' := by
  cases viable with
  -- a phrase that has only begun is never reduced
  | begins c s place =>
    rcases place.nextAction_cases goal s t c with ⟨b, decided, _⟩ | ⟨decided, _⟩
    · exact absurd (decided.symm.trans next) (Action.shiftIf_ne_reduce b r)
    · simp [decided] at next
  | atom a s place isAtom =>
    obtain ⟨v, isAtom⟩ := exists_ofAtom? a isAtom
    cases reduce_atom_of_clear goal t.tag s.marks (place.clear goal s) a v r isAtom next
    exact ⟨_, .atom a v s isAtom, .expr v s place⟩
  | expr e s place => exact place.reduce_expr goal s t r e next
  | postfixed op e s place isPostfix =>
    simp only [marks_cons, mark_token, isPostfix, nextAction, onToken, Action.reduce.injEq] at next
    subst next
    exact ⟨_, .postfixOp op e s isPostfix, .expr _ s place⟩
  | group left right e s place opens closes =>
    simp only [marks_cons, mark_token, mark_expr, closes, nextAction, onToken, onRParen,
      Action.reduce.injEq] at next
    subst next
    exact ⟨_, .group left right e s opens closes, .expr e s place⟩
  | called f left s place callee opens =>
    simp only [marks_cons, mark_token, opens, callee, nextAction, onToken, onLParen,
      Action.reduce.injEq] at next
    subst next
    exact ⟨_, .openCall f left s callee opens,
      .begins .arg _ (.firstArg f left s place callee opens)⟩
  | args f left as s place callee opens nonempty =>
    simp only [marks_cons, mark_args, nextAction, onArgs] at next
    split at next
    · cases next
    · exact absurd next (Action.shiftIf_ne_reduce _ r)
    · exact absurd next (Action.shiftIf_ne_reduce _ r)
  | call f left right as s place callee opens closes =>
    simp only [marks_cons, mark_token, mark_args, closes, nextAction, onToken, onRParen,
      Action.reduce.injEq] at next
    subst next
    obtain ⟨name, callee⟩ := exists_kind_of_tag f _ callee
    exact ⟨_, .closeCall f left right name as s callee opens closes, .expr _ s place⟩
  | tilde tilde s place marks =>
    simp [marks, nextAction, onToken, Action.shiftIf_ne_reduce] at next
  | label tilde label s place marks names =>
    simp only [marks_cons, mark_token, marks, names, nextAction, onToken, onLowerIdent] at next
    split at next
    · cases next
    · obtain ⟨_, rfl⟩ := (Action.reduceIf_eq_reduce_iff _ _ r).mp next
      obtain ⟨name, names⟩ := exists_kind_of_tag label _ names
      obtain ⟨s', joins, viable⟩ := place.joins goal s (.labeled name false none)
      exact ⟨s', .punnedLabel tilde label name s s' marks names joins, viable⟩
  | kwLet kwLet s place lets =>
    simp [lets, nextAction, onToken, Action.shiftIf_ne_reduce] at next
  | binder kwLet label s place lets names =>
    simp [lets, names, nextAction, onToken, onLowerIdent, Action.shiftIf_ne_reduce] at next
  | kwOpen kwOpen s place opens =>
    simp [opens, nextAction, onToken, Action.shiftIf_ne_reduce] at next
  | opened kwOpen label s place opens names =>
    simp only [marks_cons, mark_token, opens, names, nextAction, onToken, onUpperIdent,
      Action.reduceIf_eq_reduce_iff] at next
    obtain ⟨_, rfl⟩ := next
    obtain ⟨name, names⟩ := exists_kind_of_tag label _ names
    exact ⟨_, .openItem kwOpen label name s opens names, .item _ s place⟩
  | typeName a s place names =>
    rw [place.nextAction_name goal s t.tag a names, Action.reduce.injEq] at next
    subst next
    rcases names with isLower | isUpper
    · obtain ⟨name, names⟩ := exists_kind_of_tag a _ isLower
      exact ⟨_, .typeName a _ name s names (.inl rfl), .type _ s place⟩
    · obtain ⟨name, names⟩ := exists_kind_of_tag a _ isUpper
      exact ⟨_, .typeName a _ name s names (.inr rfl), .type _ s place⟩
  | type ty s place =>
    rw [marks_cons, mark_type, nextAction] at next
    obtain ⟨rfl, rest, shape⟩ := reduce_of_onType goal r t.tag s.marks next
    cases place with
    | coreType single => cases shape
    | declared kwLet label colon s outer types lets names declares =>
      obtain ⟨name, names⟩ := exists_kind_of_tag label _ names
      exact ⟨_, .valItem kwLet label colon name ty s lets names declares, .item _ s outer⟩
  | typeApplication a ty s place names =>
    simp only [marks_cons, mark_token, mark_type, names, nextAction, onToken, onLowerIdent,
      Action.reduce.injEq] at next
    subst next
    obtain ⟨name, names⟩ := exists_kind_of_tag a _ names
    exact ⟨_, .typeApplication a name ty s names, .type _ s place⟩
  | item i s place =>
    cases place with
    | toplevelPhrase single =>
      simp only [marks_cons, mark_item, marks_nil, nextAction, onItem] at next
      split at next <;> cases next
    | items is isFile =>
      cases next
      exact ⟨_, .appendItem i is true [], .items _ false isFile⟩
    | documented doc s outer documents =>
      simp only [marks_cons, mark_item, mark_token, documents, nextAction, onItem,
        Action.reduce.injEq] at next
      subst next
      obtain ⟨text, documents⟩ := exists_kind_of_tag doc _ documents
      exact ⟨_, .docItem doc text i s documents, .item _ s outer⟩
  | items is isOpen isFile =>
    simp only [marks_cons, mark_items, nextAction, onItems] at next
    split at next
    · cases next
    · cases next
    · exact absurd next (Action.shiftIf_ne_reduce _ r)
  | closed semi is isOpen isFile parts =>
    simp only [marks_cons, mark_token, mark_items, parts, nextAction, onToken, onSemi,
      Action.reduce.injEq] at next
    subst next
    exact ⟨_, .closeItem semi is isOpen [] parts, .items is true isFile⟩

end Reductions

/-! ## Acceptance -/

section Acceptance
variable (goal : Goal) (s : Stack) (t : Token)

theorem onToken_ne_accept
    (la top : Tag)
    (ms : List Mark) :
    onToken goal la top ms ≠ .accept := by
  unfold onToken onLowerIdent onUpperIdent onLParen onRParen onSemi
  repeat' split
  all_goals simp [Action.shiftIf_ne_accept, Action.reduceIf_ne_accept]

theorem onArgs_ne_accept
    (la : Tag)
    (isEmpty : Bool) :
    onArgs la isEmpty ≠ .accept := by
  unfold onArgs
  split <;> simp [Action.shiftIf_ne_accept]

theorem accept_of_onExpr
    (la : Tag)
    (ms : List Mark)
    (next : onExpr goal la ms = .accept) :
    ms = [] ∧ goal = .expression ∧ la = .eof := by
  unfold onExpr at next
  split at next
  · cases next
  · split at next
    · next operator =>
      subst next
      rcases operatorBelow_eq_some la ms _ operator with ⟨accepts, _⟩ | ⟨r, reduces⟩
      · cases accepts
      · cases reduces
    · split at next
      · cases next
      · rcases closeExpr_cases goal la ms with ⟨other, _⟩ | ⟨_, whole⟩ | other | ⟨r, other⟩
        · rw [next] at other
          cases other
        · exact whole
        all_goals
          rw [next] at other
          cases other

theorem accept_of_onType
    (la : Tag)
    (ms : List Mark)
    (next : onType goal la ms = .accept) :
    ms = [] ∧ goal = .coreType ∧ la = .eof := by
  unfold onType at next
  split at next
  · cases next
  · split at next
    · next single => exact ⟨rfl, single, rfl⟩
    · cases next
  · exact absurd next (Action.reduceIf_ne_accept _ _)
  · cases next

theorem accept_of_onItem
    (la : Tag)
    (ms : List Mark)
    (next : onItem la ms = .accept) :
    ms = [] ∧ endsItem la = true := by
  unfold onItem at next
  split at next
  · cases next
  · cases next
  · split at next
    · next ends => exact ⟨rfl, ends⟩
    · cases next
  · cases next

theorem accept_of_onItems
    (la : Tag)
    (isOpen : Bool)
    (next : onItems goal la isOpen = .accept) :
    la = .eof := by
  unfold onItems at next
  split at next
  · rfl
  · cases next
  · exact absurd next (Action.shiftIf_ne_accept _)

theorem exists_acceptedValue?_items
    (is : List Tree)
    (isOpen : Bool)
    (isFile : goal.isFile = true) :
    ∃ v, acceptedValue? goal [.items is isOpen] = some v := by
  cases goal with
  | implementation | interface | useFile => exact ⟨_, rfl⟩
  | expression | coreType | toplevelPhrase => cases isFile

/-- What is accepted is the phrase of the goal and nothing else.  Only a toplevel phrase can end
before the end of the file, at a separator. -/
theorem Viable.accept
    (viable : Viable goal s)
    (next : nextAction goal t.tag s.marks = .accept) :
    (∃ v, acceptedValue? goal s = some v)
      ∧ (t.tag = .eof ∨ goal = .toplevelPhrase ∧ t.tag = .reserved .semi) := by
  cases viable with
  | begins c s place =>
    rcases place.nextAction_cases goal s t c with ⟨b, decided, _⟩ | ⟨_, ends, isFile, is, rfl⟩
    · exact absurd (decided.symm.trans next) (Action.shiftIf_ne_accept b)
    · exact ⟨exists_acceptedValue?_items goal is true isFile, .inl ends⟩
  | expr e s place =>
    obtain ⟨bottom, single, ends⟩ := accept_of_onExpr goal t.tag s.marks next
    cases List.map_eq_nil_iff.mp bottom
    subst single
    exact ⟨⟨e, rfl⟩, .inl ends⟩
  | args f left as s place callee opens nonempty =>
    exact absurd next (onArgs_ne_accept t.tag _)
  | type ty s place =>
    obtain ⟨bottom, single, ends⟩ := accept_of_onType goal t.tag s.marks next
    cases List.map_eq_nil_iff.mp bottom
    subst single
    exact ⟨⟨ty, rfl⟩, .inl ends⟩
  | item i s place =>
    obtain ⟨bottom, ends⟩ := accept_of_onItem t.tag s.marks next
    cases List.map_eq_nil_iff.mp bottom
    cases place with
    | toplevelPhrase single =>
      subst single
      refine ⟨⟨i, rfl⟩, ?_⟩
      unfold endsItem at ends
      split at ends
      · next separates => exact .inr ⟨rfl, separates⟩
      · next atEnd => exact .inl atEnd
      · cases ends
  | items is isOpen isFile =>
    exact ⟨exists_acceptedValue?_items goal is isOpen isFile,
      .inl (accept_of_onItems goal t.tag isOpen next)⟩
  | _ => exact absurd next (onToken_ne_accept goal _ _ _)

end Acceptance

end TolerantParser.Mini
