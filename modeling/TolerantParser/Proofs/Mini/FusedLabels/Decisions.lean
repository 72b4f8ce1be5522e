import TolerantParser.Proofs.Mini.EndOfFile

/-! # Where an equals sign goes on and an infix operator does not

An equals sign is a binary operator that binds as loosely as the infix operators of the loosest
class, so on most stacks the two come to the same.  They differ where a name has just been read
behind a tilde or `let` (`nextAction_equal`): there the grammar wants the sign and has no use for an
operator.  `Names` says that a stack is one of these.

So on any other stack that a run comes by, an equals sign is refused where an infix operator is
(`Viable.failed_equal`), and the parts of a fused label operator are no remedy
(`offer_of_no_name`).  Behind the name of a label the parts are always taken up (`offer_label`),
behind a name that is being bound they are if there is no question mark among them and values are
bound (`offer_binder`). -/

set_option autoImplicit false

namespace TolerantParser.Mini

def Names (r : Reserved) (ms : List Mark) : Prop :=
  [.token (.text .lowerIdent), .token (.reserved r)] <+: ms

/-! ## Away from such names -/

section Decisions
variable (goal : Goal) (below : List Mark)

theorem onLowerIdent_equal
    (noLabel : ¬ [Mark.token (.reserved .tilde)] <+: below)
    (noBinder : ¬ [Mark.token (.reserved .kwLet)] <+: below) :
    onLowerIdent goal (.text .infixOp0) below = onLowerIdent goal (.reserved .equal) below := by
  unfold onLowerIdent
  split
  · exact absurd (by simp) noLabel
  · exact absurd (by simp) noBinder
  · rfl
  · rfl

theorem onUpperIdent_equal :
    onUpperIdent goal (.text .infixOp0) below = onUpperIdent goal (.reserved .equal) below := by
  unfold onUpperIdent
  split <;> rfl

theorem onToken_equal
    (top : Tag)
    (notName : top ≠ .text .lowerIdent) :
    onToken goal (.text .infixOp0) top below = onToken goal (.reserved .equal) top below := by
  cases top with
  | text c =>
    cases c with
    | lowerIdent => exact absurd rfl notName
    | upperIdent => exact onUpperIdent_equal goal below
    | int | postfixOp | docString | infixOp0 | infixOp1 => rfl
  | reserved r =>
    cases r with
    | lparen =>
      simp only [onToken, onLParen]
      split <;> rfl
    | _ => rfl
  | eof => rfl

theorem onType_equal :
    onType goal (.text .infixOp0) below = onType goal (.reserved .equal) below := by
  unfold onType
  split <;> simp_all [Action.reduceIf, endsItem]

theorem onItem_equal :
    onItem (.text .infixOp0) below = onItem (.reserved .equal) below := by
  unfold onItem
  split <;> rfl

theorem nextAction_equal
    (ms : List Mark)
    (noLabel : ¬ Names .tilde ms)
    (noBinder : ¬ Names .kwLet ms) :
    nextAction goal (.text .infixOp0) ms = nextAction goal (.reserved .equal) ms := by
  cases ms with
  | nil => cases goal <;> rfl
  | cons top below =>
    cases top with
    | token top =>
      by_cases isName : top = .text .lowerIdent
      · subst isName
        simp only [Names, List.cons_prefix_cons, true_and] at noLabel noBinder
        exact onLowerIdent_equal goal below noLabel noBinder
      · exact onToken_equal goal below top isName
    | expr => rfl
    | args isEmpty => cases isEmpty <;> rfl
    | type => exact onType_equal goal below
    | item => exact onItem_equal below
    | items isOpen => cases goal <;> cases isOpen <;> rfl

end Decisions

theorem Rewrites.not_names
    (r : Reduction)
    (s s' : Stack)
    (rewrites : Rewrites r s s')
    (keyword : Reserved) :
    ¬ Names keyword s'.marks := by
  cases rewrites with
  | argument _ _ _ joins | punnedLabel _ _ _ _ _ _ _ joins | labeledArgument _ _ _ _ _ _ _ _ _ _ joins
  | optionalArgument _ _ _ _ _ _ _ _ _ _ _ _ joins => cases joins <;> simp [Names]
  | _ => simp [Names]

section Settling
variable (goal : Goal) (s : Stack) (t equal : Token)
  (isInfix : t.tag = .text .infixOp0) (isEqual : equal.tag = .reserved .equal)
include isInfix isEqual

theorem Viable.failed_equal
    (b : Breakdown Env)
    (viable : Viable goal s)
    (noLabel : ¬ Names .tilde s.marks)
    (noBinder : ¬ Names .kwLet s.marks)
    (failed : settled goal s t = .failed b) :
    ∃ b', settled goal s equal = .failed b' := by
  have decided : ∀ s : Stack, ¬ Names .tilde s.marks → ¬ Names .kwLet s.marks →
      nextAction goal t.tag s.marks = nextAction goal equal.tag s.marks := by
    intro s noLabel noBinder
    rw [isInfix, isEqual]
    exact nextAction_equal goal s.marks noLabel noBinder
  -- the same reductions lead to a stack where neither token makes for another one
  obtain ⟨s', ⟨viable', noLabel', noBinder', sameEqual⟩, same, irreducible⟩ :=
    exists_irreducible goal t (fun s' => Viable goal s' ∧ ¬ Names .tilde s'.marks
        ∧ ¬ Names .kwLet s'.marks ∧ settled goal s equal = settled goal s' equal)
      (by
        rintro s₁ r s₂ ⟨viable₁, noLabel₁, noBinder₁, same₁⟩ next applied
        obtain ⟨rewrites, viable₂⟩ := viable₁.rewrites_of_apply goal s₁ t r s₂ next applied
        rw [decided s₁ noLabel₁ noBinder₁] at next
        exact ⟨viable₂, rewrites.not_names r s₁ s₂ .tilde, rewrites.not_names r s₁ s₂ .kwLet,
          same₁.trans (settled_of_reduce goal s₁ s₂ equal r next applied)⟩)
      s ⟨viable, noLabel, noBinder, rfl⟩
  rw [same] at failed
  cases next : nextAction goal t.tag s'.marks with
  | shift =>
    rw [settled_of_shift goal s' t next] at failed
    cases failed
  | reduce r => exact absurd next (viable'.ne_reduce_of_irreducible goal s' t r irreducible)
  | accept =>
    obtain ⟨v, complete⟩ := (viable'.accept goal s' t next).1
    rw [settled_of_accept goal s' t v next complete] at failed
    cases failed
  | error =>
    rw [decided s' noLabel' noBinder'] at next
    exact ⟨_, sameEqual.trans (settled_of_error goal s' equal next)⟩

end Settling

/-! ## Readings away from such names -/

section Offers
variable (h : Heuristics) (goal : Goal) (history : List Token) (s : State Env) (t : Token)
  (parts : List Token)

theorem pending_eq_none_of_names
    (keyword : Reserved)
    (reachable : (driver h).Reachable (initialState goal) history s)
    (names : Names keyword s.env.stack.marks) :
    s.pending = none := by
  cases pending : s.pending with
  | none => rfl
  | some p =>
    obtain ⟨_, last, _, behind⟩ :=
      Driver.Reachable.behind (driver h) (initialState goal) s history rfl reachable p pending
    obtain ⟨below, standing⟩ := exists_top_of_offerSettled p.fallback s.env last behind.arrived
    simp [Names, standing, tag_of_markerCount last p.count behind.marked] at names

theorem not_names_of_reading
    (env : Env)
    (keyword : Reserved)
    (reachable : (driver h).Reachable (initialState goal) history s)
    (reading : (driver h).Reading s env)
    (noName : ¬ Names keyword s.env.stack.marks) :
    ¬ Names keyword env.stack.marks := by
  cases reading with
  | plain => exact noName
  | reread p env pending replayed =>
    obtain ⟨_, last, _, behind⟩ :=
      Driver.Reachable.behind (driver h) (initialState goal) s history rfl reachable p pending
    have positive := ((last.kind.markerCount_eq_some_iff p.count).mp behind.marked).2.1
    have nonempty : markerTokens p.count p.position ≠ [] := by
      rw [← List.length_pos_iff, length_markerTokens]
      omega
    obtain ⟨u, isLast⟩ := Option.ne_none_iff_exists'.mp (mt List.getLast?_eq_none_iff.mp nonempty)
    obtain ⟨below, standing⟩ := exists_top_of_run p.fallback env _ u
      ((automaton.offerAll_eq_some_iff p.fallback env _).mp replayed) isLast
    have isPostfix := tag_of_mem_markerTokens _ _ u (List.mem_of_getLast? isLast)
    simp [Names, standing, isPostfix]

/-- Where no such name has been read, an equals sign is refused in every reading if an infix
operator is. -/
theorem exists_error_of_equal
    (equal : Token)
    (f : Failure Env)
    (reachable : (driver h).Reachable (initialState goal) history s)
    (isInfix : t.tag = .text .infixOp0)
    (isEqual : equal.tag = .reserved .equal)
    (noLabel : ¬ Names .tilde s.env.stack.marks)
    (noBinder : ¬ Names .kwLet s.env.stack.marks)
    (stepped : (driver h).step s t = .error f) :
    ∃ g, (driver h).step s equal = .error g := by
  rw [← Outcome.isError_iff]
  cases taken : ((driver h).step s equal).isError with
  | true => rfl
  | false =>
    -- then it is taken in one of the readings, where the operator is refused
    obtain ⟨env, reading, same⟩ := (driver h).exists_reading_of_step s equal taken
    obtain ⟨rfl, viable⟩ := OnCourse.of_reading h goal s env history reachable reading
    have noLabel' := not_names_of_reading h env.goal history s env .tilde reachable reading noLabel
    have noBinder' := not_names_of_reading h env.goal history s env .kwLet reachable reading noBinder
    obtain ⟨g, refused⟩ := (Outcome.isError_iff _).mp
      ((driver h).isError_read_of_step_error s env t f reading stepped)
    have arrived := (((driver h).read_eq_error_iff env s.docstrings t g).mp refused).1
    obtain ⟨b, arrived'⟩ := viable.failed_equal env.goal env.stack t equal isInfix isEqual
      g.breakdown noLabel' noBinder' arrived
    rw [same, read_eq_error_of_settled h equal env s.docstrings b arrived'] at taken
    cases taken

/-- Where no such name has been read, splitting a fused label operator is no remedy: it is read as
it is, in whatever reading, or refused. -/
theorem offer_of_no_name
    (reachable : (driver h).Reachable (initialState goal) history s)
    (fused : t.labelParts? = some parts)
    (noLabel : ¬ Names .tilde s.env.stack.marks)
    (noBinder : ¬ Names .kwLet s.env.stack.marks) :
    (driver h).offer s t = (driver h).step s t := by
  obtain ⟨isInfix, ⟨equal, rest, rfl, isEqual⟩, _⟩ := tags_of_labelParts t parts fused
  cases first : ((driver h).step s t).isError with
  | false => exact (driver h).offer_of_step s t first
  | true =>
    obtain ⟨f, stepped⟩ := (Outcome.isError_iff _).mp first
    obtain ⟨g, refused⟩ := exists_error_of_equal h goal history s t equal f reachable isInfix
      isEqual noLabel noBinder stepped
    have noRetry : (driver h).stepAll s (equal :: rest) = none := by
      simp only [Driver.stepAll, refused]
    have remedy : (driver h).heuristics.remedy? t
        = if h.labelSplit then some (.retry (equal :: rest)) else none :=
      remedy?_of_labelParts h t _ fused
    rw [(driver h).offer_of_step_error s t f stepped, remedy, stepped]
    split
    · rw [Option.bind_some, Driver.apply, noRetry, Option.getD_none]
    · rfl

end Offers

/-! ## Fused operators behind such names -/

theorem startsOperand_labelOperator (op : LabelOperator) :
    startsOperand (.reserved op.reserved) = true := by
  cases op <;> rfl

theorem exists_fusedLabel
    (t : Token)
    (parts : List Token)
    (fused : t.labelParts? = some parts) :
    ∃ f : FusedLabel, parts = f.tokens t.span := by
  unfold Token.labelParts? at fused
  split at fused
  · obtain ⟨f, _, rfl⟩ := Option.map_eq_some_iff.mp fused
    exact ⟨f, rfl⟩
  · cases fused

theorem nextAction_of_names
    (goal : Goal)
    (keyword : Reserved)
    (ms : List Mark)
    (la : Tag)
    (isKeyword : keyword = .tilde ∨ keyword = .kwLet)
    (names : Names keyword ms)
    (isOther : la = .text .infixOp0 ∨ la = .text .docString) :
    nextAction goal la ms = .error := by
  obtain ⟨rest, rfl⟩ := names
  rcases isKeyword with rfl | rfl <;> rcases isOther with rfl | rfl <;> cases goal <;> rfl

section Offers
variable (h : Heuristics) (s : State Env) (t : Token)

theorem offer_of_shift
    (unmarked : t.kind.markerCount = none)
    (next : nextAction s.env.goal t.tag s.env.stack.marks = .shift) :
    (driver h).offer s t
      = .intermediate ⟨⟨s.env.goal, .token t :: s.env.stack, none⟩, s.docstrings, none⟩ := by
  have arrived : (driver h).automaton.offerSettled s.env t
      = .needsInput ⟨s.env.goal, .token t :: s.env.stack, none⟩ :=
    settled_of_shift s.env.goal s.env.stack t next
  rw [(driver h).offer_of_offerSettled s t _ arrived, (driver h).pendingAfter_eq_none _ t unmarked]

theorem step_of_refusal
    (closed : s.pending = none)
    (next : nextAction s.env.goal t.tag s.env.stack.marks = .error) :
    ∃ f, (driver h).step s t = .error f := by
  have plain := (driver h).step_of_pending_eq_none s t closed
  exact ⟨_, plain.trans (read_eq_error_of_settled h t s.env s.docstrings _
    (settled_of_error s.env.goal s.env.stack t next))⟩

theorem offer_of_refusal
    (closed : s.pending = none)
    (noRemedy : h.remedy? t = none)
    (next : nextAction s.env.goal t.tag s.env.stack.marks = .error) :
    ∃ f, (driver h).offer s t = .error f := by
  have noRemedy' : (driver h).heuristics.remedy? t = none := noRemedy
  obtain ⟨f, stepped⟩ := step_of_refusal h s t closed next
  exact ⟨f, ((driver h).offer_of_remedy?_eq_none s t noRemedy').trans stepped⟩

variable (ts : List Token)

theorem outcome_of_shift
    (unmarked : t.kind.markerCount = none)
    (next : nextAction s.env.goal t.tag s.env.stack.marks = .shift) :
    ((driver h).offerMany s (t :: ts)).outcome
      = ((driver h).offerMany
          ⟨⟨s.env.goal, .token t :: s.env.stack, none⟩, s.docstrings, none⟩ ts).outcome := by
  simp only [Driver.offerMany, offer_of_shift h s t unmarked next]

theorem outcome_of_refusal
    (closed : s.pending = none)
    (noRemedy : h.remedy? t = none)
    (next : nextAction s.env.goal t.tag s.env.stack.marks = .error) :
    ∃ f, ((driver h).offerMany s (t :: ts)).outcome = .error f := by
  obtain ⟨f, offered⟩ := offer_of_refusal h s t closed noRemedy next
  exact ⟨f, by simp only [Driver.offerMany, offered]⟩

end Offers

section Parts
variable (h : Heuristics) (s : State Env) (f : FusedLabel) (span : Span)

theorem exists_outcome_of_operator
    (mark : Token)
    (below : Stack)
    (standing : s.env.stack = .token mark :: below)
    (isMark : mark.tag = .reserved .equal ∨ mark.tag = .reserved .question) :
    ∃ next, ((driver h).offerMany s [⟨f.operator.kind, span⟩]).outcome = .intermediate next := by
  have operand := startsOperand_labelOperator f.operator
  have taken : nextAction s.env.goal (.reserved f.operator.reserved) s.env.stack.marks = .shift := by
    rcases isMark with isMark | isMark <;>
      simp [standing, isMark, nextAction, onToken, operand, Action.shiftIf]
  exact ⟨_, outcome_of_shift h s ⟨f.operator.kind, span⟩ [] rfl taken⟩

theorem exists_outcome_of_parts
    (binds : nextAction s.env.goal (.reserved .equal) s.env.stack.marks = .shift)
    (omits : f.isOptional = true → isLabel s.env.stack.marks = true) :
    ∃ next, ((driver h).offerMany s (f.tokens span)).outcome = .intermediate next := by
  unfold FusedLabel.tokens
  split
  · next isOptional =>
    have omitted : nextAction s.env.goal (.reserved .question)
        (.token (.reserved .equal) :: s.env.stack.marks) = .shift := by
      simp [nextAction, onToken, omits isOptional, Action.shiftIf]
    rw [outcome_of_shift h s ⟨.reserved .equal, _⟩ _ rfl binds,
      outcome_of_shift h _ ⟨.reserved .question, _⟩ _ rfl omitted]
    exact exists_outcome_of_operator h _ f _ _ _ rfl (.inr rfl)
  · rw [outcome_of_shift h s ⟨.reserved .equal, _⟩ _ rfl binds]
    exact exists_outcome_of_operator h _ f _ _ _ rfl (.inl rfl)

/-- The parts are refused where the equals sign is, and where it is the sign of no label but a
question mark comes behind it. -/
theorem exists_error_of_parts
    (closed : s.pending = none)
    (noRemedy : ∀ part ∈ f.tokens span, h.remedy? part = none)
    (stuck : nextAction s.env.goal (.reserved .equal) s.env.stack.marks = .error
      ∨ nextAction s.env.goal (.reserved .equal) s.env.stack.marks = .shift
        ∧ f.isOptional = true ∧ isLabel s.env.stack.marks = false) :
    ∃ g, ((driver h).offerMany s (f.tokens span)).outcome = .error g := by
  rcases stuck with refused | ⟨binds, isOptional, noLabel⟩
  · obtain ⟨equal, rest, tokens, isEqual⟩ : ∃ equal rest,
        f.tokens span = equal :: rest ∧ equal.tag = .reserved .equal := by
      unfold FusedLabel.tokens
      split <;> exact ⟨_, _, rfl, rfl⟩
    rw [tokens] at noRemedy ⊢
    exact outcome_of_refusal h s equal rest closed (noRemedy equal List.mem_cons_self)
      (by rw [isEqual]; exact refused)
  · have refused : nextAction s.env.goal (.reserved .question)
        (.token (.reserved .equal) :: s.env.stack.marks) = .error := by
      simp [nextAction, onToken, noLabel, Action.shiftIf, startsOperand, isUnaryOp]
    simp only [FusedLabel.tokens, isOptional, if_true] at noRemedy ⊢
    rw [outcome_of_shift h s ⟨.reserved .equal, _⟩ _ rfl binds]
    exact outcome_of_refusal h _ ⟨.reserved .question, _⟩ _ rfl
      (noRemedy _ (List.mem_cons_of_mem _ List.mem_cons_self)) refused

end Parts

section Names
variable (h : Heuristics) (enabled : h.labelSplit = true) (s : State Env) (t : Token)
  (parts : List Token) (closed : s.pending = none) (fused : t.labelParts? = some parts)
include enabled closed fused

/-- Behind such a name a fused label operator leads where its parts lead, and it is refused if they
are. -/
theorem offer_of_names
    (keyword : Reserved)
    (isKeyword : keyword = .tilde ∨ keyword = .kwLet)
    (names : Names keyword s.env.stack.marks) :
    (∀ next, (driver h).offer s t = .intermediate next
        ↔ ((driver h).offerMany s parts).outcome = .intermediate next)
      ∧ ∀ g, ((driver h).offerMany s parts).outcome = .error g →
          ∃ f, (driver h).offer s t = .error f := by
  have isInfix := (tags_of_labelParts t parts fused).1
  have refused := nextAction_of_names s.env.goal keyword _ t.tag isKeyword names (.inl isInfix)
  obtain ⟨f, stepped⟩ := step_of_refusal h s t closed refused
  have remedy : (driver h).heuristics.remedy? t = some (.retry parts) := by
    have split := remedy?_of_labelParts h t parts fused
    rwa [if_pos enabled] at split
  have noRemedy := remedy?_of_mem_labelParts h t parts fused
  exact ⟨(driver h).offer_of_retry_iff s t parts f remedy noRemedy stepped,
    fun g failed =>
      ⟨f, (driver h).offer_of_failed_retry s t parts f remedy noRemedy stepped g failed⟩⟩

theorem offer_label
    (labels : Names .tilde s.env.stack.marks) :
    ∃ next, (driver h).offer s t = .intermediate next
      ∧ ((driver h).offerMany s parts).outcome = .intermediate next := by
  obtain ⟨same, _⟩ := offer_of_names h enabled s t parts closed fused .tilde (.inl rfl) labels
  obtain ⟨f, rfl⟩ := exists_fusedLabel t parts fused
  obtain ⟨rest, marks⟩ := labels
  obtain ⟨next, fed⟩ := exists_outcome_of_parts h s f t.span (by rw [← marks]; rfl)
    (fun _ => by rw [← marks]; rfl)
  exact ⟨next, (same next).mpr fed, fed⟩

theorem offer_binder
    (binds : Names .kwLet s.env.stack.marks) :
    (∃ next, (driver h).offer s t = .intermediate next
        ∧ ((driver h).offerMany s parts).outcome = .intermediate next)
      ∨ ∃ f g, (driver h).offer s t = .error f
        ∧ ((driver h).offerMany s parts).outcome = .error g := by
  obtain ⟨same, fails⟩ := offer_of_names h enabled s t parts closed fused .kwLet (.inr rfl) binds
  have noRemedy := remedy?_of_mem_labelParts h t parts fused
  obtain ⟨f, rfl⟩ := exists_fusedLabel t parts fused
  obtain ⟨rest, marks⟩ := binds
  have failed : (nextAction s.env.goal (.reserved .equal) s.env.stack.marks = .error
        ∨ nextAction s.env.goal (.reserved .equal) s.env.stack.marks = .shift
          ∧ f.isOptional = true ∧ isLabel s.env.stack.marks = false) →
      ∃ e g, (driver h).offer s t = .error e
        ∧ ((driver h).offerMany s (f.tokens t.span)).outcome = .error g := by
    intro stuck
    obtain ⟨g, failed⟩ := exists_error_of_parts h s f t.span closed noRemedy stuck
    obtain ⟨e, refused⟩ := fails g failed
    exact ⟨e, g, refused, failed⟩
  by_cases types : s.env.goal = .interface
  · -- a type is declared behind a colon
    exact .inr (failed (.inl (by rw [← marks, types]; rfl)))
  · have taken : nextAction s.env.goal (.reserved .equal) s.env.stack.marks = .shift := by
      rw [← marks]
      simp [nextAction, onToken, onLowerIdent, types, Action.shiftIf]
    cases optional : f.isOptional with
    | true => exact .inr (failed (.inr ⟨taken, optional, by rw [← marks]; rfl⟩))
    | false =>
      obtain ⟨next, fed⟩ := exists_outcome_of_parts h s f t.span taken (by simp [optional])
      exact .inl ⟨next, (same next).mpr fed, fed⟩

end Names

end TolerantParser.Mini
