import TolerantParser.Proofs.Mini.Settling
import TolerantParser.Proofs.Mini.Trees.Nested
import TolerantParser.Marker

/-! # The two readings of a marker run on the miniature automaton

A marker run can be read as an infix operator exactly where it can be read as postfix operators
(`settled_marker`): up to the expression that both readings need, they cause the same reductions.
After the infix reading nothing but an operand goes on (`settled_above_marker`).  After the other
one there is an expression again, so that more postfix operators are welcome
(`offerAll_above_postfixed`) and a doc comment is not (`settled_docString_above_postfixed`). -/

set_option autoImplicit false

namespace TolerantParser.Mini

/-! ## Away from an expression -/

def Alike (a b : Action) : Prop := a = b ∧ b ≠ .shift ∧ b ≠ .accept

theorem onLowerIdent_alike
    (goal : Goal)
    (below : List Mark) :
    Alike (onLowerIdent goal (.text .infixOp1) below)
      (onLowerIdent goal (.text .postfixOp) below) := by
  unfold onLowerIdent Alike
  split
  · simp [Action.reduceIf, endsArg]
  · cases goal <;> simp [Action.shiftIf]
  · simp
  · split <;> simp

theorem onUpperIdent_alike
    (goal : Goal)
    (below : List Mark) :
    Alike (onUpperIdent goal (.text .infixOp1) below)
      (onUpperIdent goal (.text .postfixOp) below) := by
  unfold onUpperIdent Alike
  split
  · simp [Action.reduceIf, endsItem]
  · split <;> simp

theorem onToken_alike
    (goal : Goal)
    (top : Tag)
    (below : List Mark) :
    Alike (onToken goal (.text .infixOp1) top below)
      (onToken goal (.text .postfixOp) top below) := by
  cases top with
  | text c =>
    cases c with
    | lowerIdent => exact onLowerIdent_alike goal below
    | upperIdent => exact onUpperIdent_alike goal below
    | int | postfixOp => simp [Alike, onToken]
    | docString | infixOp0 | infixOp1 =>
      simp [Alike, onToken, Action.shiftIf, startsItem, startsOperand, isUnaryOp]
  | reserved r =>
    cases r with
    | lparen =>
      simp only [Alike, onToken, onLParen]
      split <;> simp [Action.shiftIf, startsOperand, isUnaryOp]
    | rparen =>
      simp only [Alike, onToken, onRParen]
      split <;> simp
    | semi =>
      simp only [Alike, onToken, onSemi]
      split <;> simp
    | _ =>
      simp [Alike, onToken, Action.shiftIf, startsArg, startsType, startsOperand, isUnaryOp]
  | eof => simp [Alike, onToken, Action.shiftIf, isUnaryOp]

/-- Where the top is no expression, neither reading is taken up yet, and what they do is alike. -/
theorem nextAction_alike
    (goal : Goal)
    (ms : List Mark)
    (notExpr : ms.head? ≠ some .expr) :
    Alike (nextAction goal (.text .infixOp1) ms) (nextAction goal (.text .postfixOp) ms) := by
  cases ms with
  | nil =>
    cases goal <;>
      simp [Alike, nextAction, onEmpty, Action.shiftIf, startsOperand, startsType, startsItem,
        isUnaryOp]
  | cons top below =>
    cases top with
    | token top => exact onToken_alike goal top below
    | expr => exact absurd rfl notExpr
    | args isEmpty =>
      cases isEmpty <;>
        simp [Alike, nextAction, onArgs, Action.shiftIf, startsArg, startsOperand, isUnaryOp]
    | type =>
      simp only [Alike, nextAction, onType]
      split <;> simp [Action.reduceIf, endsItem] at *
    | item =>
      simp only [Alike, nextAction, onItem]
      split <;> simp [endsItem] at *
    | items isOpen =>
      cases goal <;> cases isOpen <;>
        simp [Alike, nextAction, onItems, Action.shiftIf, startsItem, startsOperand, isUnaryOp]

/-! ## On an expression -/

theorem operatorBelow_cases
    (la : Tag)
    (below : Stack)
    (a : Action)
    (operator : operatorBelow la below.marks = some a) :
    (∃ op x rest left, below = .token op :: .expr x :: rest ∧ binding? op.tag = some left
        ∧ a = if (binding? la).any left.yieldsTo then .shift else .reduce .binaryOp)
      ∨ ∃ op rest, below = .token op :: rest ∧ isUnaryOp op.tag = true
        ∧ a = .reduce .unaryOp := by
  match below with
  | [] => cases operator
  | .expr _ :: _ | .args _ :: _ | .type _ :: _ | .item _ :: _ | .items _ _ :: _ =>
    cases operator
  | .token op :: .expr x :: rest =>
    obtain ⟨left, bound, same⟩ := Option.map_eq_some_iff.mp operator
    exact .inl ⟨op, x, rest, left, rfl, bound, same.symm⟩
  | [.token op] | .token op :: .token _ :: _ | .token op :: .args _ :: _
  | .token op :: .type _ :: _ | .token op :: .item _ :: _ | .token op :: .items _ _ :: _ =>
    by_cases unary : isUnaryOp op.tag = true
    · simp only [Stack.marks, List.map_cons, List.map_nil, Symbol.mark, operatorBelow, unary,
        if_true, Option.some.injEq] at operator
      exact .inr ⟨op, _, rfl, unary, operator.symm⟩
    · simp [Stack.marks, Symbol.mark, operatorBelow, unary] at operator

/-- On an expression the operators under it are reduced, until the token is shifted or there is no
operator left.  The induction is on the stack under the expression. -/
theorem settled_expr
    (goal : Goal)
    (t : Token)
    (e : Tree)
    (below : Stack) :
    ∃ e' below', settled goal (.expr e :: below) t = settled goal (.expr e' :: below') t
      ∧ nextAction goal t.tag (.expr :: Stack.marks below')
        = if t.tag = .text .postfixOp ∨ (binding? t.tag).isSome then .shift
          else closeExpr goal t.tag (Stack.marks below') := by
  induction size : below.length using Nat.strongRecOn generalizing e below with
  | ind n ih =>
    by_cases isPostfix : t.tag = .text .postfixOp
    · refine ⟨e, below, rfl, ?_⟩
      rw [if_pos (.inl isPostfix), nextAction, onExpr, if_pos isPostfix]
    have onExpr_eq : nextAction goal t.tag (.expr :: Stack.marks below)
        = onExpr goal t.tag (Stack.marks below) := rfl
    simp only [onExpr, if_neg isPostfix] at onExpr_eq
    cases operator : operatorBelow t.tag (Stack.marks below) with
    | none =>
      refine ⟨e, below, rfl, ?_⟩
      simpa only [operator, isPostfix, false_or] using onExpr_eq
    | some a =>
      simp only [operator] at onExpr_eq
      rcases operatorBelow_cases t.tag below a operator with
        ⟨op, x, rest, left, rfl, bound, decided⟩ | ⟨op, rest, rfl, unary, decided⟩
      · by_cases yields : (binding? t.tag).any left.yieldsTo = true
        · have isBinary : (binding? t.tag).isSome = true := by
            cases h : binding? t.tag with
            | none => rw [h] at yields; cases yields
            | some right => rfl
          refine ⟨e, _, rfl, ?_⟩
          rw [if_pos (.inr isBinary), onExpr_eq, decided, if_pos yields]
        · rw [if_neg yields] at decided
          obtain ⟨e', below', same, done⟩ := ih rest.length
            (by rw [← size, List.length_cons, List.length_cons]; omega)
            (.binary op.kind.wording x e) rest rfl
          refine ⟨e', below', ?_, done⟩
          rw [← same]
          exact settled_of_reduce goal _ _ t .binaryOp (onExpr_eq.trans decided) rfl
      · obtain ⟨e', below', same, done⟩ := ih rest.length
          (by rw [← size, List.length_cons]; omega) (.unary op.kind.wording e) rest rfl
        refine ⟨e', below', ?_, done⟩
        rw [← same]
        exact settled_of_reduce goal _ _ t .unaryOp (onExpr_eq.trans decided) rfl

/-! ## The two readings -/

variable (goal : Goal) (s : Stack) (m q : Token)

/-- Both readings of a marker run are taken up, or neither is.  The first one ends below the infix
operator, the second one with an expression below the postfix operator. -/
theorem settled_marker
    (isInfix : m.tag = .text .infixOp1)
    (isPostfix : q.tag = .text .postfixOp) :
    (∃ above e below, settled goal s m = .needsInput ⟨goal, .token m :: above, none⟩
        ∧ settled goal s q = .needsInput ⟨goal, .token q :: .expr e :: below, none⟩)
      ∨ ∃ b b', settled goal s m = .failed b ∧ settled goal s q = .failed b' := by
  induction energy : s.energy using Nat.strongRecOn generalizing s with
  | ind n ih =>
    by_cases notExpr : s.marks.head? ≠ some .expr
    · obtain ⟨same, notShift, notAccept⟩ := nextAction_alike goal s.marks notExpr
      rw [← isInfix, ← isPostfix] at same
      rw [← isPostfix] at notShift notAccept
      cases next : nextAction goal q.tag s.marks with
      | shift => exact absurd next notShift
      | accept => exact absurd next notAccept
      | error =>
        exact .inr ⟨_, _, settled_of_error goal s m (same.trans next),
          settled_of_error goal s q next⟩
      | reduce r =>
        cases applied : r.apply s with
        | none =>
          exact .inr ⟨_, _, settled_of_impossible_reduce goal s m r (same.trans next) applied,
            settled_of_impossible_reduce goal s q r next applied⟩
        | some s' =>
          have less := energy_apply_lt goal q.tag s s' r next applied
          rw [settled_of_reduce goal s s' m r (same.trans next) applied,
            settled_of_reduce goal s s' q r next applied]
          exact ih s'.energy (by omega) s' rfl
    · obtain ⟨e, below, rfl⟩ : ∃ e below, s = .expr e :: below := by
        match s with
        | .expr e :: below => exact ⟨e, below, rfl⟩
        | [] | .token _ :: _ | .args _ :: _ | .type _ :: _ | .item _ :: _ | .items _ _ :: _ =>
          exact absurd (by simp [Stack.marks, Symbol.mark]) notExpr
      obtain ⟨e', below', same, next⟩ := settled_expr goal m e below
      rw [if_pos (.inr (by rw [isInfix]; rfl))] at next
      refine .inl ⟨.expr e' :: below', e, below, ?_, ?_⟩
      · rw [same]
        exact settled_of_shift goal _ m next
      · refine settled_of_shift goal _ q ?_
        simp only [marks_cons, mark_expr, nextAction, onExpr, if_pos isPostfix]

/-- After the infix reading a token is taken up exactly if it starts an operand. -/
theorem settled_above_marker
    (t : Token)
    (isInfix : m.tag = .text .infixOp1)
    (noOperand : startsOperand t.tag = false) :
    settled goal (.token m :: s) t
      = .failed (.handlingError ⟨goal, .token m :: s, some t⟩) := by
  apply settled_of_error
  simp only [marks_cons, mark_token, nextAction, onToken, isInfix, noOperand, Action.shiftIf,
    Bool.false_eq_true, if_false]

theorem settled_above_postfixed
    (e : Tree)
    (t : Token)
    (isPostfix : q.tag = .text .postfixOp) :
    settled goal (.token q :: .expr e :: s) t
      = settled goal (.expr (e.applyPostfix q.kind.wording) :: s) t := by
  refine settled_of_reduce goal _ _ t .postfixOp ?_ rfl
  simp only [marks_cons, mark_token, mark_expr, nextAction, onToken, isPostfix]

/-- Above an expression postfix operators are taken up, and leave such a stack behind: the last of
them stands above the expression to which the others have been applied. -/
theorem offerAll_above_postfixed
    (e : Tree)
    (la : Option Token)
    (qs : List Token)
    (isPostfix : q.tag = .text .postfixOp)
    (arePostfix : ∀ u ∈ qs, u.tag = .text .postfixOp) :
    ∃ q' e', q'.tag = .text .postfixOp
      ∧ e'.applyPostfix q'.kind.wording = e.applyPostfixes ((q :: qs).map (·.kind.wording))
      ∧ automaton.offerAll ⟨goal, .token q :: .expr e :: s, la⟩ qs
        = some ⟨goal, .token q' :: .expr e' :: s, if qs = [] then la else none⟩ := by
  induction qs generalizing q e la with
  | nil => exact ⟨q, e, isPostfix, rfl, rfl⟩
  | cons u us ih =>
    have isPostfix' := arePostfix u (List.mem_cons_self ..)
    have offered : automaton.offerSettled ⟨goal, .token q :: .expr e :: s, la⟩ u
        = .needsInput ⟨goal, .token u :: .expr (e.applyPostfix q.kind.wording) :: s, none⟩ := by
      rw [offerSettled_eq, settled_above_postfixed goal s q e u isPostfix]
      refine settled_of_shift goal _ u ?_
      simp only [marks_cons, mark_expr, nextAction, onExpr, if_pos isPostfix']
    obtain ⟨q', e', isPostfix'', applied, rest⟩ :=
      ih u (e.applyPostfix q.kind.wording) none isPostfix'
        (fun v member => arePostfix v (List.mem_cons_of_mem u member))
    refine ⟨q', e', isPostfix'', applied, ?_⟩
    rw [Automaton.offerAll, offered]
    simpa using rest

theorem closeExpr_docString
    (below : List Mark) :
    closeExpr goal (.text .docString) below = .error := by
  unfold closeExpr
  split <;> simp [Action.reduceIf, Action.shiftIf, endsItem, endsArg]

theorem settled_docString_above_postfixed
    (e : Tree)
    (t : Token)
    (isPostfix : q.tag = .text .postfixOp)
    (isDoc : t.tag = .text .docString) :
    ∃ b, settled goal (.token q :: .expr e :: s) t = .failed b := by
  rw [settled_above_postfixed goal s q e t isPostfix]
  obtain ⟨e', below', same, next⟩ := settled_expr goal t (e.applyPostfix q.kind.wording) s
  have notOperator : ¬(t.tag = .text .postfixOp ∨ (binding? t.tag).isSome = true) := by
    rw [isDoc]
    decide
  rw [if_neg notOperator, isDoc, closeExpr_docString, ← isDoc] at next
  rw [same]
  exact ⟨_, settled_of_error goal _ t next⟩

end TolerantParser.Mini
