import TolerantParser.Proofs.Mini.Viable.Place

/-! # Taking up a token on a viable stack

What each place takes up is one fact (`Begins.nextAction_cases`), by the class of tokens that the
phrase to come can start with.  Above a part of a phrase there is at most one way to go on.  Hence
a token that is taken up leaves a viable stack again: `Viable.shift`. -/

set_option autoImplicit false

namespace TolerantParser.Mini

section Shifts
variable (goal : Goal) (s : Stack) (t : Token)

theorem Viable.of_startsOperand
    (place : Begins goal .expr s)
    (starts : startsOperand t.tag = true) :
    Viable goal (.token t :: s) := by
  have all : ∀ t ∈ Tag.all, startsOperand t = true →
      (t = .text .int ∨ t = .text .lowerIdent ∨ t = .text .upperIdent)
        ∨ t = .reserved .lparen ∨ isUnaryOp t = true := by decide
  rcases all t.tag t.tag.mem_all starts with isAtom | opens | isUnary
  · exact .atom t s place isAtom
  · exact .begins .expr _ (.group t s place opens)
  · exact .begins .expr _ (.unary t s place isUnary)

theorem Viable.of_startsArg
    (place : Begins goal .arg s)
    (starts : startsArg t.tag = true) :
    Viable goal (.token t :: s) := by
  simp only [startsArg, Bool.or_eq_true, beq_iff_eq] at starts
  rcases starts with starts | marks
  · exact .of_startsOperand goal s t (.plainArg s place) starts
  · exact .tilde t s place marks

theorem Viable.of_startsType
    (place : Begins goal .type s)
    (starts : startsType t.tag = true) :
    Viable goal (.token t :: s) := by
  have all : ∀ t ∈ Tag.all, startsType t = true →
      t = .text .lowerIdent ∨ t = .text .upperIdent := by decide
  exact .typeName t s place (all t.tag t.tag.mem_all starts)

theorem Viable.of_startsItem
    (place : Begins goal .item s)
    (starts : startsItem goal t.tag = true) :
    Viable goal (.token t :: s) := by
  unfold startsItem at starts
  split at starts
  · next lets => exact .kwLet t s place lets
  · next opens => exact .kwOpen t s place opens
  · next documents => exact .begins .item _ (.documented t s place documents)
  · simp only [Bool.and_eq_true, bne_iff_ne, ne_eq] at starts
    exact .of_startsOperand goal s t (.exprItem s place starts.1) starts.2

/-- At a place a token is taken up or refused, unless it is the end of a file. -/
theorem Begins.nextAction_cases
    (c : Category)
    (place : Begins goal c s) :
    (∃ b, nextAction goal t.tag s.marks = .shiftIf b
        ∧ (b = true → Viable goal (.token t :: s)))
      ∨ nextAction goal t.tag s.marks = .accept ∧ t.tag = .eof ∧ goal.isFile = true
        ∧ ∃ is, s = [.items is true] := by
  induction place with
  | expression single =>
    subst single
    exact .inl ⟨_, rfl, .of_startsOperand _ [] t (.expression rfl)⟩
  | coreType single =>
    subst single
    exact .inl ⟨_, rfl, .of_startsType _ [] t (.coreType rfl)⟩
  | toplevelPhrase single =>
    subst single
    exact .inl ⟨_, rfl, .of_startsItem _ [] t (.toplevelPhrase rfl)⟩
  | items is isFile =>
    have decided : nextAction goal t.tag (Stack.marks [.items is true])
        = onItems goal t.tag true := rfl
    rw [decided]
    unfold onItems
    split
    · next ends => exact .inr ⟨rfl, ends, isFile, is, rfl⟩
    · next parts => exact .inl ⟨true, rfl, fun _ => .closed t is true isFile parts⟩
    · exact .inl ⟨_, rfl, .of_startsItem goal _ t (.items is isFile)⟩
  | documented doc s outer documents =>
    refine .inl ⟨_, ?_, .of_startsItem goal _ t (.documented doc s outer documents)⟩
    simp only [marks_cons, mark_token, documents, nextAction, onToken]
  -- the expression begins where the item does
  | exprItem s _ _ ih => exact ih
  | bound kwLet label equal s outer values lets names binds =>
    refine .inl ⟨_, ?_, .of_startsOperand goal _ t
      (.bound kwLet label equal s outer values lets names binds)⟩
    simp only [marks_cons, mark_token, lets, names, binds, nextAction, onToken, isLabel,
      Bool.false_and, Bool.false_or]
  | declared kwLet label colon s outer types lets names declares =>
    refine .inl ⟨_, ?_, .of_startsType goal _ t
      (.declared kwLet label colon s outer types lets names declares)⟩
    simp only [marks_cons, mark_token, declares, nextAction, onToken]
  | group left s outer opens =>
    refine .inl ⟨_, ?_, .of_startsOperand goal _ t (.group left s outer opens)⟩
    rw [marks_cons, mark_token, opens, nextAction_lparen goal t.tag s.marks (outer.clear goal s)]
  | unary op s outer isUnary =>
    refine .inl ⟨_, ?_, .of_startsOperand goal _ t (.unary op s outer isUnary)⟩
    rw [marks_cons, mark_token, nextAction, onToken_of_isUnaryOp goal op.tag t.tag s.marks isUnary]
  | binary op p a s outer isBinary =>
    refine .inl ⟨_, ?_, .of_startsOperand goal _ t (.binary op p a s outer isBinary)⟩
    rw [marks_cons, mark_token, marks_cons, mark_expr, nextAction,
      onToken_of_binary goal op.tag t.tag p s.marks isBinary]
  | firstArg f left s outer callee opens =>
    have begins := Begins.firstArg f left s outer callee opens
    have decided : nextAction goal t.tag (Stack.marks (.args [] :: .token left :: .token f :: s))
        = onArgs t.tag true := rfl
    rw [decided]
    unfold onArgs
    split
    · next closes =>
      exact .inl ⟨true, rfl, fun _ => .call f left t [] s outer callee opens closes⟩
    · exact .inl ⟨_, rfl, by simp⟩
    · exact .inl ⟨_, rfl, .of_startsArg goal _ t begins⟩
  | nextArg f left comma as s outer callee opens nonempty parts =>
    refine .inl ⟨_, ?_, .of_startsArg goal _ t
      (.nextArg f left comma as s outer callee opens nonempty parts)⟩
    simp only [marks_cons, mark_token, parts, nextAction, onToken]
  | plainArg s _ ih => exact ih
  | label tilde label equal s outer marks names binds =>
    refine .inl ⟨t.tag == .reserved .question || startsOperand t.tag, ?_, ?_⟩
    · simp only [marks_cons, mark_token, marks, names, binds, nextAction, onToken, isLabel,
        Bool.true_and]
    simp only [Bool.or_eq_true, beq_iff_eq]
    rintro (omits | starts)
    · exact .begins .expr _ (.optionalLabel tilde label equal t s outer marks names binds omits)
    · exact .of_startsOperand goal _ t (.label tilde label equal s outer marks names binds) starts
  | optionalLabel tilde label equal question s outer marks names binds omits =>
    refine .inl ⟨_, ?_, .of_startsOperand goal _ t
      (.optionalLabel tilde label equal question s outer marks names binds omits)⟩
    simp only [marks_cons, mark_token, omits, nextAction, onToken]

theorem Begins.shift_of_startsItem
    (la : Tag)
    (place : Begins goal .item s)
    (starts : startsItem goal la = true) :
    nextAction goal la s.marks = .shift := by
  cases place with
  | toplevelPhrase single =>
    subst single
    exact (Action.shiftIf_eq_shift_iff _).mpr starts
  | items is isFile =>
    simp only [marks_cons, mark_items, nextAction]
    unfold onItems
    split
    · simp [startsItem, startsOperand, isUnaryOp] at starts
    · rfl
    · exact (Action.shiftIf_eq_shift_iff _).mpr starts
  | documented doc s outer documents =>
    rw [marks_cons, mark_token, documents]
    exact (Action.shiftIf_eq_shift_iff _).mpr starts

theorem Begins.nextAction_type
    (la : Tag)
    (place : Begins goal .type s) :
    nextAction goal la s.marks = .shiftIf (startsType la) := by
  cases place with
  | coreType single =>
    subst single
    rfl
  | declared kwLet label colon s outer types lets names declares =>
    rw [marks_cons, mark_token, declares]
    rfl

theorem Begins.of_lparen
    (left : Token)
    (place : Begins goal .expr (.token left :: s))
    (opens : left.tag = .reserved .lparen) :
    Begins goal .expr s := by
  cases place with
  | group left s outer => exact outer
  | exprItem s outer => cases outer with | documented doc s _ documents => simp_all
  | plainArg s outer => cases outer with | nextArg f left comma as s _ _ _ _ parts => simp_all
  | unary op s _ isUnary => simp_all [isUnaryOp]
  | binary op p a s _ isBinary => simp_all [binaryLevels?]
  | bound | label | optionalLabel => simp_all

/-- An operator below an expression takes it, or leaves it to an operator that binds tighter. -/
theorem operatorBelow_eq_some
    (la : Tag)
    (ms : List Mark)
    (a : Action)
    (operator : operatorBelow la ms = some a) :
    a = .shift ∧ (binding? la).isSome = true ∨ ∃ r, a = .reduce r := by
  unfold operatorBelow at operator
  split at operator
  · next op rest =>
    obtain ⟨left, _, decided⟩ := Option.map_eq_some_iff.mp operator
    split at decided
    · next yields =>
      refine .inl ⟨decided.symm, ?_⟩
      cases binding : binding? la with
      | none => rw [binding] at yields; cases yields
      | some right => rfl
    · exact .inr ⟨_, decided.symm⟩
  · split at operator
    · exact .inr ⟨_, (Option.some.inj operator).symm⟩
    · cases operator
  · cases operator

/-- Where no operator is left, an expression is closed by a parenthesis, or it is the goal, or it
is handed to what it is for. -/
theorem closeExpr_cases
    (la : Tag)
    (ms : List Mark) :
    (closeExpr goal la ms = .shift ∧ la = .reserved .rparen
        ∧ ∃ rest, ms = .token (.reserved .lparen) :: rest)
      ∨ (closeExpr goal la ms = .accept ∧ ms = [] ∧ goal = .expression ∧ la = .eof)
      ∨ closeExpr goal la ms = .error
      ∨ ∃ r, closeExpr goal la ms = .reduce r := by
  have reduces : ∀ b r, Action.reduceIf b r = .error ∨ ∃ r', Action.reduceIf b r = .reduce r' := by
    intro b r
    cases b <;> simp [Action.reduceIf]
  unfold closeExpr
  split
  case h_1 =>
    split
    · next single =>
      split
      · next ends => exact .inr (.inl ⟨rfl, rfl, single, ends⟩)
      · exact .inr (.inr (.inl rfl))
    · exact .inr (.inr (reduces _ _))
  case h_7 rest =>
    by_cases closes : la = .reserved .rparen
    · subst closes
      exact .inl ⟨rfl, rfl, rest, rfl⟩
    · exact .inr (.inr (.inl (by simp [Action.shiftIf, closes])))
  case h_8 =>
    split
    · exact .inr (.inr (reduces _ _))
    · split
      · exact .inr (.inr (reduces _ _))
      · exact .inr (.inr (.inl rfl))
  case h_9 => exact .inr (.inr (.inl rfl))
  all_goals exact .inr (.inr (reduces _ _))

theorem shift_of_onExpr
    (la : Tag)
    (ms : List Mark)
    (next : onExpr goal la ms = .shift) :
    la = .text .postfixOp ∨ (∃ p, binaryLevels? la = some p)
      ∨ la = .reserved .rparen ∧ ∃ rest, ms = .token (.reserved .lparen) :: rest := by
  by_cases isBinary : (binding? la).isSome = true
  · rw [binding?_isSome] at isBinary
    exact .inr (.inl (Option.isSome_iff_exists.mp isBinary))
  unfold onExpr at next
  split at next
  · next isPostfix => exact .inl isPostfix
  · split at next
    · next operator =>
      subst next
      rcases operatorBelow_eq_some la ms _ operator with ⟨_, bound⟩ | ⟨r, reduces⟩
      · exact absurd bound isBinary
      · cases reduces
    · rcases closeExpr_cases goal la ms with ⟨_, closes⟩ | ⟨other, _⟩ | other | ⟨r, other⟩
      · exact .inr (.inr closes)
      all_goals
        rw [next] at other
        cases other

theorem Begins.nextAction_name
    (la : Tag)
    (a : Token)
    (place : Begins goal .type s)
    (names : a.tag = .text .lowerIdent ∨ a.tag = .text .upperIdent) :
    nextAction goal la (Stack.marks (.token a :: s)) = .reduce .typeName := by
  cases place with
  | coreType single =>
    subst single
    rcases names with names | names <;> rw [marks_cons, mark_token, names] <;> rfl
  | declared kwLet label colon s outer types lets isName declares =>
    rcases names with names | names <;>
      simp only [marks_cons, mark_token, names, declares] <;> rfl

theorem shift_of_onType
    (la : Tag)
    (ms : List Mark)
    (next : onType goal la ms = .shift) :
    la = .text .lowerIdent := by
  unfold onType at next
  split at next
  · rfl
  · split at next <;> cases next
  · exact absurd next (Action.reduceIf_ne_shift _ _)
  · cases next

theorem Viable.shift
    (viable : Viable goal s)
    (next : nextAction goal t.tag s.marks = .shift) :
    Viable goal (.token t :: s) := by
  cases viable with
  | begins c s place =>
    rcases place.nextAction_cases goal s t c with ⟨b, decided, taken⟩ | ⟨decided, _⟩
    · exact taken ((Action.shiftIf_eq_shift_iff b).mp (decided.symm.trans next))
    · simp [decided] at next
  | atom a s place isAtom =>
    have clear := place.clear goal s
    rcases isAtom with isInt | isLower | isUpper
    · simp [isInt, nextAction, onToken] at next
    · rw [marks_cons, mark_token, isLower, nextAction_lowerIdent goal t.tag s.marks clear] at next
      split at next
      · next opens => exact .called a t s place isLower opens
      · cases next
    · rw [marks_cons, mark_token, isUpper, nextAction_upperIdent goal t.tag s.marks clear] at next
      cases next
  | expr e s place =>
    rcases shift_of_onExpr goal t.tag s.marks next with
      isPostfix | ⟨p, isBinary⟩ | ⟨closes, rest, shape⟩
    · exact .postfixed t e s place isPostfix
    · exact .begins .expr _ (.binary t p e s place isBinary)
    · cases s with
      | nil => cases shape
      | cons x s =>
        cases x with
        | token left =>
          rw [marks_cons, mark_token, List.cons.injEq, Mark.token.injEq] at shape
          exact .group left t e s (place.of_lparen goal s left shape.1) shape.1 closes
        | expr | args | type | item | items => cases shape
  | postfixed op e s place isPostfix => simp [isPostfix, nextAction, onToken] at next
  | group left right e s place opens closes => simp [closes, nextAction, onToken, onRParen] at next
  | called f left s place callee opens =>
    simp [opens, callee, nextAction, onToken, onLParen] at next
  | args f left as s place callee opens nonempty =>
    simp only [marks_cons, mark_args, nextAction, onArgs] at next
    split at next
    · next closes => exact .call f left t as s place callee opens closes
    · next parts =>
      exact .begins .arg _ (.nextArg f left t as s place callee opens nonempty parts)
    · simp [nonempty, Action.shiftIf] at next
  | call f left right as s place callee opens closes =>
    simp [closes, nextAction, onToken, onRParen] at next
  | tilde tilde s place marks =>
    simp only [marks_cons, mark_token, marks, nextAction, onToken, Action.shiftIf_eq_shift_iff,
      beq_iff_eq] at next
    exact .label tilde t s place marks next
  | label tilde label s place marks names =>
    simp only [marks_cons, mark_token, marks, names, nextAction, onToken, onLowerIdent] at next
    split at next
    · next binds => exact .begins .expr _ (.label tilde label t s place marks names binds)
    · exact absurd next (Action.reduceIf_ne_shift _ _)
  | kwLet kwLet s place lets =>
    simp only [marks_cons, mark_token, lets, nextAction, onToken, Action.shiftIf_eq_shift_iff,
      beq_iff_eq] at next
    exact .binder kwLet t s place lets next
  | binder kwLet label s place lets names =>
    simp only [marks_cons, mark_token, lets, names, nextAction, onToken, onLowerIdent,
      Action.shiftIf_eq_shift_iff, beq_iff_eq] at next
    split at next
    · next types => exact .begins .type _ (.declared kwLet label t s place types lets names next)
    · next values => exact .begins .expr _ (.bound kwLet label t s place values lets names next)
  | kwOpen kwOpen s place opens =>
    simp only [marks_cons, mark_token, opens, nextAction, onToken, Action.shiftIf_eq_shift_iff,
      beq_iff_eq] at next
    exact .opened kwOpen t s place opens next
  | opened kwOpen label s place opens names =>
    simp [opens, names, nextAction, onToken, onUpperIdent, Action.reduceIf_ne_shift] at next
  | typeName a s place names =>
    rw [place.nextAction_name goal s t.tag a names] at next
    cases next
  | type ty s place =>
    simp only [marks_cons, nextAction] at next
    exact .typeApplication t ty s place (shift_of_onType goal t.tag _ next)
  | typeApplication a ty s place names =>
    simp [names, nextAction, onToken, onLowerIdent] at next
  | item i s place =>
    simp only [marks_cons, mark_item, nextAction, onItem] at next
    split at next <;> (try split at next) <;> cases next
  | items is isOpen isFile =>
    simp only [marks_cons, mark_items, nextAction, onItems] at next
    split at next
    · cases next
    · next parts => exact .closed t is isOpen isFile parts
    · rw [Action.shiftIf_eq_shift_iff, Bool.and_eq_true] at next
      obtain ⟨rfl, starts⟩ := next
      exact .of_startsItem goal _ t (.items is isFile) starts
  | closed semi is isOpen isFile parts =>
    simp [parts, nextAction, onToken, onSemi] at next

end Shifts

end TolerantParser.Mini
