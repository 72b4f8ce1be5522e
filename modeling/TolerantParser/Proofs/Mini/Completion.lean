import TolerantParser.Mini.Lexer
import TolerantParser.Proofs.Driver.Blame
import TolerantParser.Proofs.Mini.Agreement
import TolerantParser.Proofs.Mini.Expression.Completeness

/-! # There are no dead ends

Every viable stack can be completed: some tokens lead from it to acceptance.  `Closes` says how a
stack goes on once a phrase that was begun on it is complete.  It holds by induction on what the
phrase was begun for (`Begins.closes`): a group closes with its parenthesis and goes on as what is
around it, a call takes the argument and closes, an item ends the file.  From any part of a phrase
one or two tokens complete it (`Viable.exists_completes`).

So a token is refused only where no continuation with it would be accepted
(`exists_completion_of_reachable`). -/

set_option autoImplicit false

namespace TolerantParser.Mini

/-- Every token with the tag `la` is the first of some tokens that are accepted. -/
def Completes (goal : Goal) (s : Stack) (la : Tag) : Prop :=
  ∀ t : Token, t.tag = la → ∃ ts v, automaton.run ⟨goal, s, none⟩ (t :: ts) = some (.accepted v)

section Steps
variable (goal : Goal) (s s' : Stack) (la : Tag)

theorem Completes.of_shift
    (next : nextAction goal la s.marks = .shift)
    (rest : ∀ t : Token, t.tag = la → ∃ la', Completes goal (.token t :: s) la') :
    Completes goal s la := by
  rintro t rfl
  obtain ⟨la', completes⟩ := rest t rfl
  obtain ⟨u, isNext⟩ := exists_token_of_tag la'
  obtain ⟨ts, v, run⟩ := completes u isNext
  exact ⟨u :: ts, v, by rw [run_of_shift goal s t (u :: ts) next, run]⟩

theorem Completes.of_reduce
    (r : Reduction)
    (next : nextAction goal la s.marks = .reduce r)
    (applied : r.apply s = some s')
    (rest : Completes goal s' la) :
    Completes goal s la := by
  rintro t rfl
  obtain ⟨ts, v, run⟩ := rest t rfl
  exact ⟨ts, v, by rw [run_of_reduce goal s s' t ts r next applied, run]⟩

theorem Completes.of_accept
    (v : Tree)
    (next : nextAction goal la s.marks = .accept)
    (complete : acceptedValue? goal s = some v) :
    Completes goal s la := by
  rintro t rfl
  refine ⟨[], v, ?_⟩
  rw [automaton.run_singleton, offerSettled_eq, settled_of_accept goal s t v next complete]

end Steps

/-! ## Complete phrases -/

/-- The tokens that complete an expression here: no operator is one of them. -/
def isEnd (la : Tag) : Bool := la == .eof || la == .reserved .rparen

def Closes (goal : Goal) : Category → Stack → Prop
  | .item, s => ∀ i, Completes goal (.item i :: s) .eof
  | .type, s => ∀ ty, Completes goal (.type ty :: s) .eof
  | .expr, s => ∃ la, isEnd la = true ∧ ∀ e, Completes goal (.expr e :: s) la
  | .arg, s => ∀ arg s', Joins arg s s' → Completes goal s' (.reserved .rparen)

theorem leftLevel_of_isEnd
    (la : Tag)
    (ends : isEnd la = true) :
    leftLevel la = .e1 ∧ la ≠ .reserved .lparen
      ∧ ¬ (la = .text .postfixOp ∨ (binaryLevels? la).isSome = true) := by
  have all : ∀ t ∈ Tag.all, isEnd t = true → leftLevel t = .e1 ∧ t ≠ .reserved .lparen
      ∧ ¬ (t = .text .postfixOp ∨ (binaryLevels? t).isSome = true) := by decide
  exact all la la.mem_all ends

section Places
variable (goal : Goal) (s : Stack)

theorem Completes.of_items
    (is : List Tree)
    (isOpen : Bool)
    (isFile : goal.isFile = true) :
    Completes goal [.items is isOpen] .eof := by
  obtain ⟨v, complete⟩ := exists_acceptedValue?_items goal is isOpen isFile
  exact .of_accept goal _ .eof v rfl complete

theorem Completes.of_args
    (f left : Token)
    (as : List Tree)
    (closes : Closes goal .expr s)
    (callee : f.tag = .text .lowerIdent) :
    Completes goal (.args as :: .token left :: .token f :: s) (.reserved .rparen) := by
  obtain ⟨la, _, completes⟩ := closes
  obtain ⟨name, names⟩ := exists_kind_of_tag f _ callee
  refine .of_shift goal _ _ rfl fun right isRight => ⟨la, ?_⟩
  refine .of_reduce goal _ (.expr (.call name as) :: s) la .closeCall ?_ ?_ (completes _)
  · simp [isRight, nextAction, onToken, onRParen]
  · simp [Reduction.apply, names, Kind.text?]

/-- An expression of the loosest level ends where what it is for is reduced. -/
theorem Completes.of_closeExpr
    (e : Tree)
    (s' : Stack)
    (la : Tag)
    (r : Reduction)
    (ends : isEnd la = true)
    (place : Place goal (.operand .e1) s.marks)
    (next : closeExpr goal la s.marks = .reduce r)
    (applied : r.apply (.expr e :: s) = some s')
    (rest : Completes goal s' la) :
    Completes goal (.expr e :: s) la := by
  refine .of_reduce goal _ s' la r ?_ applied rest
  rw [marks_cons, mark_expr, place.nextAction_above goal _ la,
    if_neg (leftLevel_of_isEnd la ends).2.2, next]

theorem Begins.closes
    (c : Category)
    (place : Begins goal c s) :
    Closes goal c s := by
  induction place with
  | expression single =>
    subst single
    exact ⟨.eof, rfl, fun e => .of_accept _ _ _ e rfl rfl⟩
  | coreType single =>
    subst single
    exact fun ty => .of_accept _ _ _ ty rfl rfl
  | toplevelPhrase single =>
    subst single
    exact fun i => .of_accept _ _ _ i rfl rfl
  | items is isFile =>
    exact fun i => .of_reduce goal _ _ _ .appendItem rfl rfl (.of_items goal _ false isFile)
  | documented doc s _ documents ih =>
    obtain ⟨text, kind⟩ := exists_kind_of_tag doc _ documents
    intro i
    refine .of_reduce goal _ (.item (.documented text i) :: s) _ .docItem ?_ ?_ (ih _)
    · simp [documents, nextAction, onItem]
    · simp [Reduction.apply, kind, Kind.text?]
  | exprItem s outer values ih =>
    refine ⟨.eof, rfl, fun e => ?_⟩
    exact .of_closeExpr goal s e (.item e :: s) _ .exprItem rfl
      (.opening _ (outer.opening goal s values))
      (by rw [outer.closeExpr_eq goal s .eof values]; rfl) rfl (ih e)
  | bound kwLet label equal s _ _ lets names binds ih =>
    obtain ⟨name, kind⟩ := exists_kind_of_tag label _ names
    refine ⟨.eof, rfl, fun e => ?_⟩
    refine .of_closeExpr goal _ e (.item (.letItem name e) :: s) _ .letItem rfl ?_ ?_ ?_ (ih _)
    · simp only [marks_cons, mark_token, lets, names, binds]
      exact .opening _ (.bound _)
    · simp only [marks_cons, mark_token, lets, names, binds]
      rfl
    · simp [Reduction.apply, kind, Kind.text?]
  | declared kwLet label colon s _ _ lets names declares ih =>
    obtain ⟨name, kind⟩ := exists_kind_of_tag label _ names
    intro ty
    refine .of_reduce goal _ (.item (.valItem name ty) :: s) _ .valItem ?_ ?_ (ih _)
    · simp only [marks_cons, mark_type, mark_token, declares]
      rfl
    · simp [Reduction.apply, kind, Kind.text?]
  | group left s outer opens ih =>
    obtain ⟨la, _, completes⟩ := ih
    obtain ⟨l, inner⟩ := (outer.place goal s .expr).1 rfl
    refine ⟨.reserved .rparen, rfl, fun e => ?_⟩
    refine .of_shift goal _ _ ?_ fun right isRight => ⟨la, ?_⟩
    · rw [marks_cons, mark_expr, marks_cons, mark_token, opens,
        (Place.group l _ inner).nextAction_above goal]
      rfl
    · refine .of_reduce goal _ (.expr e :: s) la .group ?_ rfl (completes e)
      simp [isRight, nextAction, onToken, onRParen]
  | unary op s outer isUnary ih =>
    obtain ⟨la, ends, completes⟩ := ih
    refine ⟨la, ends, fun e => ?_⟩
    refine .of_reduce goal _ (.expr (.unary op.kind.wording e) :: s) la .unaryOp ?_ rfl
      (completes _)
    rw [marks_cons, mark_expr, marks_cons, mark_token,
      nextAction_above_unary goal la s.marks op.tag isUnary (outer.clear goal s),
      if_neg fun isPostfix => (leftLevel_of_isEnd la ends).2.2 (.inl isPostfix)]
  | binary op p a s _ isBinary ih =>
    obtain ⟨la, ends, completes⟩ := ih
    refine ⟨la, ends, fun e => ?_⟩
    refine .of_reduce goal _ (.expr (.binary op.kind.wording a e) :: s) la .binaryOp ?_ rfl
      (completes _)
    rw [marks_cons, mark_expr, marks_cons, mark_token, marks_cons, mark_expr,
      nextAction_above_binary goal la s.marks op.tag p isBinary, (leftLevel_of_isEnd la ends).1,
      if_pos (Level.e1_le p.whole)]
  | firstArg f left s _ callee _ ih =>
    rintro arg _ ⟨⟩
    exact .of_args goal s f left [arg] ih callee
  | nextArg f left comma as s _ callee _ _ _ ih =>
    rintro arg _ ⟨⟩
    exact .of_args goal s f left (as ++ [arg]) ih callee
  | plainArg s outer ih =>
    have place := (outer.place goal s .arg).2 rfl
    refine ⟨.reserved .rparen, rfl, fun e => ?_⟩
    obtain ⟨s', joins, _⟩ := outer.joins goal s e
    exact .of_closeExpr goal s e s' _ .argument rfl (.plain _ place)
      (by rw [place.closeExpr_eq goal]; rfl) joins.appendArg_eq (ih e s' joins)
  | label tilde label equal s outer marks names binds ih =>
    obtain ⟨name, kind⟩ := exists_kind_of_tag label _ names
    refine ⟨.reserved .rparen, rfl, fun e => ?_⟩
    obtain ⟨s', joins, _⟩ := outer.joins goal s (.labeled name false (some e))
    refine .of_closeExpr goal _ e s' _ .labeledArgument rfl ?_ ?_
      (Rewrites.labeledArgument tilde label equal name e s s' marks kind binds joins).apply_eq
      (ih _ s' joins)
    · simp only [marks_cons, mark_token, marks, names, binds]
      exact .label _
    · simp only [marks_cons, mark_token, marks, names, binds]
      rfl
  | optionalLabel tilde label equal question s outer marks names binds omits ih =>
    obtain ⟨name, kind⟩ := exists_kind_of_tag label _ names
    refine ⟨.reserved .rparen, rfl, fun e => ?_⟩
    obtain ⟨s', joins, _⟩ := outer.joins goal s (.labeled name true (some e))
    refine .of_closeExpr goal _ e s' _ .labeledArgument rfl ?_ ?_
      (Rewrites.optionalArgument tilde label equal question name e s s' marks kind binds omits
        joins).apply_eq
      (ih _ s' joins)
    · simp only [marks_cons, mark_token, marks, names, binds, omits]
      exact .optionalLabel _
    · simp only [marks_cons, mark_token, omits]
      rfl

/-! ## Phrases that have begun -/

theorem Completes.of_expr
    (e : Tree)
    (place : Begins goal .expr s) :
    ∃ la, Completes goal (.expr e :: s) la := by
  obtain ⟨la, _, completes⟩ := place.closes goal s .expr
  exact ⟨la, completes e⟩

theorem Completes.of_atom
    (t : Token)
    (place : Begins goal .expr s)
    (isAtom : t.tag = .text .int ∨ t.tag = .text .lowerIdent ∨ t.tag = .text .upperIdent) :
    ∃ la, Completes goal (.token t :: s) la := by
  obtain ⟨la, ends, completes⟩ := place.closes goal s .expr
  obtain ⟨v, value⟩ := exists_ofAtom? t isAtom
  have clear := place.clear goal s
  refine ⟨la, .of_reduce goal _ (.expr v :: s) la .atom ?_ ?_ (completes v)⟩
  · rw [marks_cons, mark_token]
    rcases isAtom with isInt | isLower | isUpper
    · rw [isInt]
      rfl
    · rw [isLower, nextAction_lowerIdent goal la s.marks clear,
        if_neg (leftLevel_of_isEnd la ends).2.1]
    · rw [isUpper, nextAction_upperIdent goal la s.marks clear]
  · simp [Reduction.apply, value]

theorem Completes.of_typeName
    (t : Token)
    (place : Begins goal .type s)
    (names : t.tag = .text .lowerIdent ∨ t.tag = .text .upperIdent) :
    Completes goal (.token t :: s) .eof := by
  have completes := place.closes goal s .type
  have named : ∃ name, t.kind.text? = some name := by
    rcases names with isName | isName <;>
      obtain ⟨name, kind⟩ := exists_kind_of_tag t _ isName <;>
      exact ⟨name, by rw [kind]; rfl⟩
  obtain ⟨name, named⟩ := named
  refine .of_reduce goal _ (.type (.typeCon name) :: s) _ .typeName
    (place.nextAction_name goal s .eof t names) ?_ (completes _)
  simp [Reduction.apply, named]

theorem Completes.of_label
    (tilde label : Token)
    (place : Begins goal .arg s)
    (marks : tilde.tag = .reserved .tilde)
    (names : label.tag = .text .lowerIdent) :
    Completes goal (.token label :: .token tilde :: s) (.reserved .rparen) := by
  obtain ⟨name, kind⟩ := exists_kind_of_tag label _ names
  obtain ⟨s', joins, _⟩ := place.joins goal s (.labeled name false none)
  refine .of_reduce goal _ s' _ .punnedLabel ?_
    (Rewrites.punnedLabel tilde label name s s' marks kind joins).apply_eq
    (place.closes goal s .arg _ s' joins)
  simp [marks, names, nextAction, onToken, onLowerIdent, Action.reduceIf, endsArg]

theorem Completes.of_opened
    (kwOpen label : Token)
    (place : Begins goal .item s)
    (opens : kwOpen.tag = .reserved .kwOpen)
    (names : label.tag = .text .upperIdent) :
    Completes goal (.token label :: .token kwOpen :: s) .eof := by
  obtain ⟨name, kind⟩ := exists_kind_of_tag label _ names
  refine .of_reduce goal _ (.item (.openItem name) :: s) _ .openItem ?_
    (Rewrites.openItem kwOpen label name s opens kind).apply_eq (place.closes goal s .item _)
  simp [opens, names, nextAction, onToken, onUpperIdent, Action.reduceIf, endsItem]

theorem Completes.of_kwOpen
    (kwOpen : Token)
    (place : Begins goal .item s)
    (opens : kwOpen.tag = .reserved .kwOpen) :
    Completes goal (.token kwOpen :: s) (.text .upperIdent) := by
  refine .of_shift goal _ _ ?_ fun label names =>
    ⟨.eof, .of_opened goal s kwOpen label place opens names⟩
  simp [opens, nextAction, onToken, Action.shiftIf]

/-! ## Places -/

theorem Begins.exists_completes_expr
    (place : Begins goal .expr s) :
    ∃ la, Completes goal s la := by
  obtain ⟨l, operand⟩ := (place.place goal s .expr).1 rfl
  exact ⟨.text .int, .of_shift goal s _ (operand.shift_of_startsOperand goal _ _ _ rfl)
    fun t isInt => Completes.of_atom goal s t place (.inl isInt)⟩

theorem Begins.exists_completes
    (c : Category)
    (place : Begins goal c s) :
    ∃ la, Completes goal s la := by
  cases c with
  | item =>
    exact ⟨.reserved .kwOpen, .of_shift goal s _ (place.shift_of_startsItem goal s _ rfl)
      fun kwOpen opens => ⟨_, .of_kwOpen goal s kwOpen place opens⟩⟩
  | expr => exact place.exists_completes_expr goal s
  | arg => exact (Begins.plainArg s place).exists_completes_expr goal s
  | type =>
    exact ⟨.text .upperIdent, .of_shift goal s _ (place.nextAction_type goal s _)
      fun t names => ⟨_, .of_typeName goal s t place (.inr names)⟩⟩

theorem Completes.of_binder
    (kwLet label : Token)
    (place : Begins goal .item s)
    (lets : kwLet.tag = .reserved .kwLet)
    (names : label.tag = .text .lowerIdent) :
    ∃ la, Completes goal (.token label :: .token kwLet :: s) la := by
  refine ⟨.reserved (if goal = .interface then .colon else .equal), .of_shift goal _ _ ?_ ?_⟩
  · simp [lets, names, nextAction, onToken, onLowerIdent, Action.shiftIf]
  intro t isNext
  by_cases types : goal = .interface
  · rw [if_pos types] at isNext
    exact (Begins.declared kwLet label t s place types lets names isNext).exists_completes goal _ _
  · rw [if_neg types] at isNext
    exact (Begins.bound kwLet label t s place types lets names isNext).exists_completes goal _ _

theorem Viable.exists_completes
    (viable : Viable goal s) :
    ∃ la, Completes goal s la := by
  cases viable with
  | begins c s place => exact place.exists_completes goal s c
  | atom t s place isAtom => exact Completes.of_atom goal s t place isAtom
  | expr e s place => exact Completes.of_expr goal s e place
  | postfixed op e s place isPostfix =>
    obtain ⟨la, completes⟩ := Completes.of_expr goal s (e.applyPostfix op.kind.wording) place
    refine ⟨la, .of_reduce goal _ _ la .postfixOp ?_ rfl completes⟩
    simp [isPostfix, nextAction, onToken]
  | group left right e s place _ closes =>
    obtain ⟨la, completes⟩ := Completes.of_expr goal s e place
    refine ⟨la, .of_reduce goal _ (.expr e :: s) la .group ?_ rfl completes⟩
    simp [closes, nextAction, onToken, onRParen]
  | called f left s place callee opens =>
    refine ⟨.reserved .rparen, .of_reduce goal _ _ _ .openCall ?_ rfl
      (.of_args goal s f left [] (place.closes goal s .expr) callee)⟩
    simp [opens, callee, nextAction, onToken, onLParen]
  | args f left as s place callee =>
    exact ⟨_, .of_args goal s f left as (place.closes goal s .expr) callee⟩
  | call f left right as s place callee opens closes =>
    obtain ⟨name, kind⟩ := exists_kind_of_tag f _ callee
    obtain ⟨la, completes⟩ := Completes.of_expr goal s (.call name as) place
    refine ⟨la, .of_reduce goal _ _ la .closeCall ?_
      (Rewrites.closeCall f left right name as s kind opens closes).apply_eq completes⟩
    simp [closes, nextAction, onToken, onRParen]
  | tilde tilde s place marks =>
    refine ⟨.text .lowerIdent, .of_shift goal _ _ ?_ fun label names =>
      ⟨_, .of_label goal s tilde label place marks names⟩⟩
    simp [marks, nextAction, onToken, Action.shiftIf]
  | label tilde label s place marks names =>
    exact ⟨_, .of_label goal s tilde label place marks names⟩
  | kwLet kwLet s place lets =>
    refine ⟨.text .lowerIdent, .of_shift goal _ _ ?_ fun label names =>
      Completes.of_binder goal s kwLet label place lets names⟩
    simp [lets, nextAction, onToken, Action.shiftIf]
  | binder kwLet label s place lets names =>
    exact Completes.of_binder goal s kwLet label place lets names
  | kwOpen kwOpen s place opens => exact ⟨_, .of_kwOpen goal s kwOpen place opens⟩
  | opened kwOpen label s place opens names =>
    exact ⟨_, .of_opened goal s kwOpen label place opens names⟩
  | typeName t s place names => exact ⟨_, .of_typeName goal s t place names⟩
  | type ty s place => exact ⟨_, place.closes goal s .type ty⟩
  | typeApplication t ty s place names =>
    obtain ⟨name, kind⟩ := exists_kind_of_tag t _ names
    refine ⟨_, .of_reduce goal _ _ .eof .typeApplication ?_
      (Rewrites.typeApplication t name ty s kind).apply_eq (place.closes goal s .type _)⟩
    simp [names, nextAction, onToken, onLowerIdent]
  | item i s place => exact ⟨_, place.closes goal s .item i⟩
  | items is isOpen isFile => exact ⟨_, .of_items goal is isOpen isFile⟩
  | closed semi is isOpen isFile parts =>
    refine ⟨_, .of_reduce goal _ [.items is true] .eof .closeItem ?_ rfl
      (.of_items goal is true isFile)⟩
    simp [parts, nextAction, onToken, onSemi]

end Places

/-! ## Drivers -/

theorem exists_success_of_reachable
    (h : Heuristics)
    (goal : Goal)
    (history : List Token)
    (s : State Env)
    (reachable : (driver h).Reachable (initialState goal) history s) :
    ∃ ts p, (driver h).offerMany s ts = ⟨.success p, ts.length⟩ := by
  obtain ⟨⟨sameGoal, viable⟩, _⟩ := viable_of_reachable h goal history s reachable
  obtain ⟨la, completes⟩ := viable.exists_completes goal s.env.stack
  obtain ⟨t, isNext⟩ := exists_token_of_tag la
  obtain ⟨ts, v, run⟩ := completes t isNext
  have run' : (driver h).automaton.run s.env (t :: ts) = some (.accepted v) := by
    rw [← run, ← sameGoal]
    rfl
  exact ⟨t :: ts, _, (driver h).offerMany_of_run s (t :: ts) v run'⟩

/-- A parse never comes to a dead end: from every state that offering tokens leads to from the
start, there are tokens that end in success.  Hence the token that an error blames is the first one
with which the tokens before it cannot go on: everything before it begins an accepted stream, and
nothing with it does. -/
theorem exists_completion_of_reachable
    (h : Heuristics)
    (goal : Goal)
    (o : Offset) :
    ∃ s₀, (driver h).initial goal o = .ok s₀
      ∧ (∀ history s, (driver h).Reachable s₀ history s →
          ∃ ws p, (driver h).offerMany s ws = ⟨.success p, ws.length⟩)
      ∧ ∀ ts f, ((driver h).offerMany s₀ ts).outcome = .error f →
          ∃ before t rest, ts = before ++ t :: rest ∧ f.token = t
            ∧ (∀ us, us <+: before →
                ∃ ws p, (driver h).offerMany s₀ (us ++ ws) = ⟨.success p, (us ++ ws).length⟩)
            ∧ ∀ ws,
              (driver h).offerMany s₀ (before ++ t :: ws) = ⟨.error f, before.length + 1⟩ := by
  refine ⟨initialState goal, initial_driver h goal o, exists_success_of_reachable h goal, ?_⟩
  intro ts f failed
  obtain ⟨before, t, rest, last, split, fed, blames, same⟩ :=
    (driver h).exists_blamed_of_offerMany (initialState goal) ts f failed
  refine ⟨before, t, rest, split, blames.token, ?_, same⟩
  intro us begins
  obtain ⟨middle, fed'⟩ :=
    (driver h).exists_intermediate_of_beginning (initialState goal) last us before begins
      (by rw [fed])
  have reachable := Driver.Reachable.offerMany [] us _ middle .start fed'
  obtain ⟨ws, p, succeeds⟩ := exists_success_of_reachable h goal _ middle reachable
  refine ⟨ws, p, ?_⟩
  rw [(driver h).offerMany_append (initialState goal) middle us ws fed', succeeds,
    List.length_append]

/-- A call in a documented item, with a label where the value of another one is to begin. -/
theorem exists_completion_of_reachable_at_label :
    let ts := lex "/**d*/ let x = f ( ~ a = ~ b )"
    ∃ f before t rest, ((driver .empty).offerMany (initialState .useFile) ts).outcome = .error f
      ∧ ts = before ++ t :: rest ∧ f.token = t
      ∧ ∃ ws p, (driver .empty).offerMany (initialState .useFile) (before ++ ws)
          = ⟨.success p, (before ++ ws).length⟩ := by
  intro ts
  obtain ⟨s₀, start, _, blamed⟩ := exists_completion_of_reachable .empty .useFile .zero
  cases start
  have failed : ((driver .empty).offerMany (initialState .useFile) ts).outcome.isError = true := rfl
  generalize ended : ((driver .empty).offerMany (initialState .useFile) ts).outcome = o at failed
  cases o with
  | intermediate s => cases failed
  | success p => cases failed
  | error f =>
    obtain ⟨before, t, rest, split, token, completes, _⟩ := blamed ts f ended
    exact ⟨f, before, t, rest, rfl, split, token, completes before (List.prefix_refl before)⟩

end TolerantParser.Mini
