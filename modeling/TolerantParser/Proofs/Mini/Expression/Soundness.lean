import TolerantParser.Proofs.Mini.Settling
import TolerantParser.Proofs.Mini.Expression.Places

/-! # Nothing but derivations is read

`Reached base la s us` describes the stacks above `base` that a run comes by, with the tokens `us`
that it has read since: every phrase on the stack is derived by its tokens, at a level that fits
where it stands.  Reductions keep the tokens (`Reached.reduce`) and taking up a token appends it
(`Reached.shift`), until the expression that was begun on `base` is complete. -/

set_option autoImplicit false

namespace TolerantParser.Mini

inductive Awaits (base : Stack) : Slot → Stack → List Token → Prop
  | base : Awaits base (.operand .e1) base []
  | group (left : Token) (l : Level) (s : Stack) (us : List Token)
      (outer : Awaits base (.operand l) s us)
      (opens : left.tag = .reserved .lparen) :
      Awaits base (.operand .e1) (.token left :: s) (us ++ [left])
  | unary (op : Token) (l : Level) (s : Stack) (us : List Token)
      (outer : Awaits base (.operand l) s us)
      (isUnary : isUnaryOp op.tag = true) :
      Awaits base (.operand .e4) (.token op :: s) (us ++ [op])
  | binary (op : Token) (p : BinaryLevels) (a : Tree) (l : Level) (s : Stack) (us vs : List Token)
      (outer : Awaits base (.operand l) s us)
      (isBinary : binaryLevels? op.tag = some p)
      (fits : l ≤ p.whole)
      (left : Yields (.expr p.left a) vs) :
      Awaits base (.operand p.right) (.token op :: .expr a :: s) (us ++ (vs ++ [op]))
  | firstArg (f left : Token) (name : String) (l : Level) (s : Stack) (us : List Token)
      (outer : Awaits base (.operand l) s us)
      (callee : f.kind = .text .lowerIdent name)
      (opens : left.tag = .reserved .lparen) :
      Awaits base .argument (.args [] :: .token left :: .token f :: s) (us ++ [f, left])
  | nextArg (f left comma : Token) (name : String) (values : List Tree) (l : Level) (s : Stack)
      (us vs : List Token)
      (outer : Awaits base (.operand l) s us)
      (callee : f.kind = .text .lowerIdent name)
      (opens : left.tag = .reserved .lparen)
      (nonempty : values ≠ [])
      (before : Yields (.args values) vs)
      (parts : comma.tag = .reserved .comma) :
      Awaits base .argument (.token comma :: .args values :: .token left :: .token f :: s)
        (us ++ (f :: left :: (vs ++ [comma])))
  | plain (s : Stack) (us : List Token)
      (outer : Awaits base .argument s us) :
      Awaits base (.operand .e1) s us
  | label (tilde label equal : Token) (name : String) (s : Stack) (us : List Token)
      (outer : Awaits base .argument s us)
      (marks : tilde.tag = .reserved .tilde)
      (names : label.kind = .text .lowerIdent name)
      (binds : equal.tag = .reserved .equal) :
      Awaits base (.operand .e1) (.token equal :: .token label :: .token tilde :: s)
        (us ++ [tilde, label, equal])
  | optionalLabel (tilde label equal question : Token) (name : String) (s : Stack)
      (us : List Token)
      (outer : Awaits base .argument s us)
      (marks : tilde.tag = .reserved .tilde)
      (names : label.kind = .text .lowerIdent name)
      (binds : equal.tag = .reserved .equal)
      (omits : question.tag = .reserved .question) :
      Awaits base (.operand .e1)
        (.token question :: .token equal :: .token label :: .token tilde :: s)
        (us ++ [tilde, label, equal, question])

/-- The stacks between two steps of a run whose lookahead is `la`. -/
inductive Reached (base : Stack) (la : Tag) : Stack → List Token → Prop
  | awaiting (slot : Slot) (s : Stack) (us : List Token)
      (awaits : Awaits base slot s us) :
      Reached base la s us
  | atom (t : Token) (v : Tree) (l : Level) (s : Stack) (us : List Token)
      (outer : Awaits base (.operand l) s us)
      (isAtom : Tree.ofAtom? t.kind = some v) :
      Reached base la (.token t :: s) (us ++ [t])
  /-- the lookahead does not reach into the expression -/
  | expr (k l : Level) (v : Tree) (s : Stack) (us vs : List Token)
      (outer : Awaits base (.operand l) s us)
      (fits : l ≤ k)
      (ends : leftLevel la ≤ k)
      (yields : Yields (.expr k v) vs) :
      Reached base la (.expr v :: s) (us ++ vs)
  | postfixed (op : Token) (l : Level) (v : Tree) (s : Stack) (us vs : List Token)
      (outer : Awaits base (.operand l) s us)
      (operand : Yields (.expr .e5 v) vs)
      (isPostfix : op.tag = .text .postfixOp) :
      Reached base la (.token op :: .expr v :: s) (us ++ (vs ++ [op]))
  | group (left right : Token) (l : Level) (v : Tree) (s : Stack) (us vs : List Token)
      (outer : Awaits base (.operand l) s us)
      (opens : left.tag = .reserved .lparen)
      (closes : right.tag = .reserved .rparen)
      (inner : Yields (.expr .e1 v) vs) :
      Reached base la (.token right :: .expr v :: .token left :: s)
        (us ++ (left :: vs ++ [right]))
  | called (f left : Token) (name : String) (l : Level) (s : Stack) (us : List Token)
      (outer : Awaits base (.operand l) s us)
      (callee : f.kind = .text .lowerIdent name)
      (opens : left.tag = .reserved .lparen) :
      Reached base la (.token left :: .token f :: s) (us ++ [f, left])
  | args (f left : Token) (name : String) (values : List Tree) (l : Level) (s : Stack)
      (us vs : List Token)
      (outer : Awaits base (.operand l) s us)
      (callee : f.kind = .text .lowerIdent name)
      (opens : left.tag = .reserved .lparen)
      (nonempty : values ≠ [])
      (inner : Yields (.args values) vs) :
      Reached base la (.args values :: .token left :: .token f :: s) (us ++ (f :: left :: vs))
  | call (f left right : Token) (name : String) (values : List Tree) (l : Level) (s : Stack)
      (us vs : List Token)
      (outer : Awaits base (.operand l) s us)
      (callee : f.kind = .text .lowerIdent name)
      (opens : left.tag = .reserved .lparen)
      (closes : right.tag = .reserved .rparen)
      (inner : Yields (.args values) vs) :
      Reached base la (.token right :: .args values :: .token left :: .token f :: s)
        (us ++ (f :: left :: vs ++ [right]))
  | tilde (tilde : Token) (s : Stack) (us : List Token)
      (outer : Awaits base .argument s us)
      (marks : tilde.tag = .reserved .tilde) :
      Reached base la (.token tilde :: s) (us ++ [tilde])
  | label (tilde label : Token) (name : String) (s : Stack) (us : List Token)
      (outer : Awaits base .argument s us)
      (marks : tilde.tag = .reserved .tilde)
      (names : label.kind = .text .lowerIdent name) :
      Reached base la (.token label :: .token tilde :: s) (us ++ [tilde, label])

/-! ## Places -/

section Places
variable (goal : Goal) (base : Stack)

theorem Awaits.place
    (opening : Opening goal base.marks)
    (slot : Slot)
    (s : Stack)
    (us : List Token)
    (awaits : Awaits base slot s us) :
    Place goal slot s.marks := by
  induction awaits with
  | base => exact .opening _ opening
  | group left l s us _ opens ih =>
    rw [marks_cons, mark_token, opens]
    exact .group l _ ih
  | unary op l s us _ isUnary ih => exact .unary op.tag l _ isUnary ih
  | binary op p a l s us vs _ isBinary => exact .binary op.tag p _ isBinary
  | firstArg => exact .firstArg _
  | nextArg f left comma name values l s us vs _ _ _ nonempty _ parts =>
    have notEmpty : values.isEmpty = false := by simp [nonempty]
    rw [marks_cons, mark_token, parts, marks_cons, mark_args, notEmpty]
    exact .nextArg _
  | plain s us _ ih => exact .plain _ ih
  | label tilde label equal name s us _ marks names binds =>
    simp only [marks_cons, mark_token, Token.tag, names, Kind.tag_text] at marks binds ⊢
    rw [marks, binds]
    exact .label _
  | optionalLabel tilde label equal question name s us _ marks names binds omits =>
    simp only [marks_cons, mark_token, Token.tag, names, Kind.tag_text] at marks binds omits ⊢
    rw [marks, binds, omits]
    exact .optionalLabel _

theorem Awaits.level_le
    (slot : Slot)
    (l : Level)
    (s : Stack)
    (us : List Token)
    (awaits : Awaits base slot s us)
    (operand : slot = .operand l) :
    l ≤ .e4 := by
  cases awaits with
  | binary op p a m s us vs _ isBinary =>
    injection operand with same
    rw [← same]
    exact (binaryLevels?_bounds op.tag p isBinary).2.2.1
  | firstArg | nextArg => cases operand
  | _ =>
    injection operand with same
    rw [← same]
    decide

end Places

theorem leftLevel_le_e5 (t : Tag) : leftLevel t ≤ .e5 := by
  have all : ∀ t ∈ Tag.all, leftLevel t ≤ .e5 := by decide
  exact all t t.mem_all

theorem yields_of_ofAtom?
    (t : Token)
    (v : Tree)
    (isAtom : Tree.ofAtom? t.kind = some v) :
    Yields (.expr .atom v) [t] := by
  unfold Tree.ofAtom? at isAtom
  split at isAtom
  · next digits kind =>
    cases isAtom
    exact .int t digits kind
  · next name kind =>
    cases isAtom
    exact .var t name kind
  · next name kind =>
    cases isAtom
    exact .constr t name kind
  · cases isAtom

/-! ## Reductions -/

section Reductions
variable (goal : Goal) (base : Stack) (la : Tag)

theorem Reached.of_appendArg
    (v : Tree)
    (s s' : Stack)
    (us vs : List Token)
    (outer : Awaits base .argument s us)
    (yields : Yields (.arg v) vs)
    (appended : appendArg v s = some s') :
    Reached base la s' (us ++ vs) := by
  cases outer with
  | firstArg f left name l s us outer callee opens =>
    cases appended
    have reached : Reached base la _ _ :=
      .args f left name [v] l s us vs outer callee opens (by simp) (.firstArg v vs yields)
    simpa using reached
  | nextArg f left comma name values l s us ws outer callee opens nonempty before parts =>
    simp only [appendArg, parts, if_true, Option.some.injEq] at appended
    subst appended
    have reached : Reached base la _ _ :=
      .args f left name (values ++ [v]) l s us _ outer callee opens (by simp)
        (.nextArg comma v values ws vs parts nonempty before yields)
    simpa using reached

theorem Reached.reduce_argument
    (opening : Opening goal base.marks)
    (v : Tree)
    (s s' : Stack)
    (us vs : List Token)
    (r : Reduction)
    (outer : Awaits base .argument s us)
    (yields : Yields (.expr .e1 v) vs)
    (next : nextAction goal la (.expr :: s.marks) = .reduce r)
    (applied : r.apply (.expr v :: s) = some s') :
    Reached base la s' (us ++ vs) := by
  have place := outer.place goal base opening
  rw [(Place.plain _ place).nextAction_above goal _ la, place.closeExpr_eq goal _ la] at next
  split at next
  · cases next
  · obtain ⟨_, rfl⟩ := (Action.reduceIf_eq_reduce_iff _ _ r).mp next
    exact .of_appendArg base la v s s' us vs outer (.plain v vs yields) applied

theorem Reached.reduce_expr
    (opening : Opening goal base.marks)
    (k l : Level)
    (v : Tree)
    (s s' : Stack)
    (us vs : List Token)
    (r : Reduction)
    (outer : Awaits base (.operand l) s us)
    (fits : l ≤ k)
    (yields : Yields (.expr k v) vs)
    (next : nextAction goal la (.expr :: s.marks) = .reduce r)
    (applied : r.apply (.expr v :: s) = some s') :
    Reached base la s' (us ++ vs) ∨ s = base ∧ us = [] := by
  have place := outer.place goal base opening
  have whole : Yields (.expr .e1 v) vs := yields.loosen k .e1 v vs (Level.e1_le k)
  cases outer with
  | base => exact .inr ⟨rfl, rfl⟩
  | plain s us outer =>
    exact .inl (.reduce_argument goal base la opening v s s' us vs r outer whole next applied)
  | group left l s us outer opens =>
    rw [place.nextAction_above goal _ la, marks_cons, mark_token, opens] at next
    split at next
    · cases next
    · exact absurd next (Action.shiftIf_ne_reduce _ r)
  | unary op l s us outer isUnary =>
    rw [marks_cons, mark_token, nextAction_above_unary goal la _ op.tag isUnary
      ((outer.place goal base opening).clear goal _ _)] at next
    split at next
    · cases next
    · next noPostfix =>
      cases next
      cases applied
      have ends' : leftLevel la ≤ .e4 := Level.le_trans _ _ _ (leftLevel_le_e3 la noPostfix)
        (by decide)
      have operand := yields.loosen k .e4 v vs fits
      have spelled := (prefixText?_eq_some_iff op.kind op.kind.wording).mpr ⟨isUnary, rfl⟩
      have reached := Reached.expr .e4 l _ s us _ outer (outer.level_le base _ l s us rfl) ends'
        (.unary op _ v vs spelled operand)
      exact .inl (by simpa using reached)
  | binary op p a l s us ws outer isBinary fits' left =>
    rw [marks_cons, mark_token, marks_cons, mark_expr,
      nextAction_above_binary goal la _ op.tag p isBinary] at next
    split at next
    · next ends' =>
      cases next
      cases applied
      have right := yields.loosen k p.right v vs fits
      have spelled := infixText?_of_binary op.kind p isBinary
      have reached := Reached.expr p.whole l _ s us _ outer fits' ends'
        (.binary op p _ a v ws vs isBinary spelled left right)
      exact .inl (by simpa using reached)
    · cases next
  | label tilde label equal name s us outer marks names binds =>
    have isName : label.tag = .text .lowerIdent := tag_of_kind _ _ names
    rw [place.nextAction_above goal _ la] at next
    split at next
    · cases next
    · simp only [marks_cons, mark_token, marks, binds, isName, closeExpr_label] at next
      obtain ⟨_, rfl⟩ := (Action.reduceIf_eq_reduce_iff _ _ r).mp next
      have reached := Reached.of_appendArg base la _ s s' us _ outer
        (.labeled tilde label equal name v vs marks names binds whole)
        (by simpa [Reduction.apply, appendLabeled, appendLabeled.plain, binds, names, Kind.text?]
          using applied)
      exact .inl (by simpa using reached)
  | optionalLabel tilde label equal question name s us outer marks names binds omits =>
    rw [place.nextAction_above goal _ la] at next
    split at next
    · cases next
    · simp only [marks_cons, mark_token, omits, closeExpr_optionalLabel] at next
      obtain ⟨_, rfl⟩ := (Action.reduceIf_eq_reduce_iff _ _ r).mp next
      have reached := Reached.of_appendArg base la _ s s' us _ outer
        (.optional tilde label equal question name v vs marks names binds omits whole)
        (by simpa [Reduction.apply, appendLabeled, omits, names, Kind.text?] using applied)
      exact .inl (by simpa using reached)

/-- A reduction keeps the tokens, unless what it takes is the expression on `base` itself. -/
theorem Reached.reduce
    (opening : Opening goal base.marks)
    (s s' : Stack)
    (us : List Token)
    (r : Reduction)
    (reached : Reached base la s us)
    (next : nextAction goal la s.marks = .reduce r)
    (applied : r.apply s = some s') :
    Reached base la s' us ∨ ∃ v, s = .expr v :: base ∧ Yields (.expr .e1 v) us := by
  cases reached with
  | awaiting slot s us awaits =>
    exact absurd next ((awaits.place goal base opening).ne_reduce goal slot _ la r)
  | atom t v l s us outer isAtom =>
    have clear := (outer.place goal base opening).clear goal _ _
    have isReduce := reduce_atom_of_clear goal la s.marks clear t v r isAtom next
    subst isReduce
    simp only [Reduction.apply, isAtom, Option.map_some, Option.some.injEq] at applied
    subst applied
    exact .inl (.expr .atom l v s us [t] outer (Level.le_atom l) (Level.le_atom _)
      (yields_of_ofAtom? t v isAtom))
  | expr k l v s us vs outer fits ends yields =>
    rcases Reached.reduce_expr goal base la opening k l v s s' us vs r outer fits yields next
      applied with reached | ⟨rfl, rfl⟩
    · exact .inl reached
    · exact .inr ⟨v, rfl, yields.loosen k .e1 v vs (Level.e1_le k)⟩
  | postfixed op l v s us vs outer operand isPostfix =>
    simp only [marks_cons, mark_token, isPostfix, nextAction, onToken, Action.reduce.injEq] at next
    subst next
    cases applied
    have fits : l ≤ .e5 :=
      Level.le_trans _ _ _ (outer.level_le base _ l s us rfl) (by decide)
    obtain ⟨text, kind⟩ := exists_kind_of_tag op _ isPostfix
    rw [kind, Kind.wording_text]
    exact .inl (.expr .e5 l _ s us _ outer fits (leftLevel_le_e5 la)
      (operand.applyPostfix op text v vs kind))
  | group left right l v s us vs outer opens closes inner =>
    simp only [marks_cons, mark_token, mark_expr, closes, nextAction, onToken, onRParen,
      Action.reduce.injEq] at next
    subst next
    cases applied
    exact .inl (.expr .atom l v s us _ outer (Level.le_atom l) (Level.le_atom _)
      (.group left right v vs opens closes inner))
  | called f left name l s us outer callee opens =>
    have isName : f.tag = .text .lowerIdent := tag_of_kind _ _ callee
    simp only [marks_cons, mark_token, isName, opens, nextAction, onToken, onLParen,
      Action.reduce.injEq] at next
    subst next
    cases applied
    exact .inl (.awaiting .argument _ _ (.firstArg f left name l s us outer callee opens))
  | args f left name values l s us vs outer callee opens nonempty inner =>
    simp only [marks_cons, mark_args, nextAction, onArgs, Action.shiftIf] at next
    split at next <;> (try split at next) <;> cases next
  | call f left right name values l s us vs outer callee opens closes inner =>
    simp only [marks_cons, mark_token, mark_args, closes, nextAction, onToken, onRParen,
      Action.reduce.injEq] at next
    subst next
    simp only [Reduction.apply, callee, Kind.text?, Option.map_some, Option.some.injEq] at applied
    subst applied
    exact .inl (.expr .atom l _ s us _ outer (Level.le_atom l) (Level.le_atom _)
      (.call f left right name values vs callee opens closes inner))
  | tilde tilde s us outer marks =>
    simp only [marks_cons, mark_token, marks, nextAction, onToken] at next
    exact absurd next (Action.shiftIf_ne_reduce _ r)
  | label tilde label name s us outer marks names =>
    have isName : label.tag = .text .lowerIdent := tag_of_kind _ _ names
    simp only [marks_cons, mark_token, isName, marks, nextAction, onToken, onLowerIdent] at next
    split at next
    · cases next
    · obtain ⟨_, rfl⟩ := (Action.reduceIf_eq_reduce_iff _ _ r).mp next
      refine .inl (.of_appendArg base la _ s s' us _ outer
        (.punned tilde label name marks names) ?_)
      simpa [Reduction.apply, names, Kind.text?] using applied

end Reductions

/-! ## Taking up a token -/

section Shifts
variable (goal : Goal) (base : Stack) (la : Tag)

theorem Reached.of_startsOperand
    (t : Token)
    (l : Level)
    (s : Stack)
    (us : List Token)
    (outer : Awaits base (.operand l) s us)
    (starts : startsOperand t.tag = true) :
    Reached base la (.token t :: s) (us ++ [t]) := by
  have atom : ∀ v, Tree.ofAtom? t.kind = some v → Reached base la (.token t :: s) (us ++ [t]) :=
    fun v isAtom => .atom t v l s us outer isAtom
  cases kind : t.kind with
  | text c text =>
    cases c with
    | int => exact atom (.int text) (by rw [kind]; rfl)
    | lowerIdent => exact atom (.var text) (by rw [kind]; rfl)
    | upperIdent => exact atom (.constr text) (by rw [kind]; rfl)
    | _ => simp [Token.tag, kind, startsOperand, isUnaryOp] at starts
  | reserved r =>
    by_cases opens : r = .lparen
    · have isParen : t.tag = .reserved .lparen :=
        tag_of_kind t (.reserved .lparen) (by rw [kind, opens])
      exact .awaiting _ _ _ (.group t l s us outer isParen)
    · have isUnary : isUnaryOp t.tag = true := by
        unfold startsOperand at starts
        split at starts <;> simp_all [Token.tag]
      exact .awaiting _ _ _ (.unary t l s us outer isUnary)
  | eof => simp [Token.tag, kind, startsOperand, isUnaryOp] at starts

theorem Reached.shift_end
    (opening : Opening goal base.marks)
    (t : Token)
    (l : Level)
    (v : Tree)
    (s : Stack)
    (us vs : List Token)
    (outer : Awaits base (.operand l) s us)
    (noPostfix : t.tag ≠ .text .postfixOp)
    (noBinary : binaryLevels? t.tag = none)
    (yields : Yields (.expr .e1 v) vs)
    (next : nextAction goal t.tag (.expr :: s.marks) = .shift) :
    Reached base la (.token t :: .expr v :: s) (us ++ vs ++ [t]) := by
  have place := outer.place goal base opening
  have loosest : leftLevel t.tag = .e1 := by simp only [leftLevel, noBinary, if_neg noPostfix]
  have noOperator : ¬ (t.tag = .text .postfixOp ∨ (binaryLevels? t.tag).isSome = true) := by
    simp [noPostfix, noBinary]
  cases outer with
  | base =>
    rw [place.nextAction_above goal _ t.tag, if_neg noOperator] at next
    exact absurd next (opening.closeExpr_ne_shift goal _ t.tag)
  | group left m s us outer opens =>
    rw [place.nextAction_above goal _ t.tag, if_neg noOperator] at next
    simp only [marks_cons, mark_token, opens, closeExpr, Action.shiftIf_eq_shift_iff,
      beq_iff_eq] at next
    have reached : Reached base la _ _ := .group left t m v s us vs outer opens next yields
    simpa using reached
  | unary op m s us outer isUnary =>
    have clear := (outer.place goal base opening).clear goal _ _
    rw [marks_cons, mark_token, nextAction_above_unary goal t.tag _ op.tag isUnary clear,
      if_neg noPostfix] at next
    cases next
  | binary op p a m s us ws outer isBinary =>
    rw [marks_cons, mark_token, marks_cons, mark_expr,
      nextAction_above_binary goal t.tag _ op.tag p isBinary, loosest,
      if_pos (Level.e1_le p.whole)] at next
    cases next
  | plain s us outer =>
    rw [place.nextAction_above goal _ t.tag, if_neg noOperator,
      (outer.place goal base opening).closeExpr_eq goal _ t.tag] at next
    exact absurd next (Action.reduceIf_ne_shift _ _)
  | label tilde label equal name s us outer marks names binds =>
    have isName : label.tag = .text .lowerIdent := tag_of_kind _ _ names
    rw [place.nextAction_above goal _ t.tag, if_neg noOperator] at next
    simp only [marks_cons, mark_token, marks, binds, isName, closeExpr_label] at next
    exact absurd next (Action.reduceIf_ne_shift _ _)
  | optionalLabel tilde label equal question name s us outer marks names binds omits =>
    rw [place.nextAction_above goal _ t.tag, if_neg noOperator] at next
    simp only [marks_cons, mark_token, omits, closeExpr_optionalLabel] at next
    exact absurd next (Action.reduceIf_ne_shift _ _)

/-- An operator that is taken up above an operand makes a phrase with it that fits the place. -/
theorem Reached.shift_expr
    (opening : Opening goal base.marks)
    (t : Token)
    (k l : Level)
    (v : Tree)
    (s : Stack)
    (us vs : List Token)
    (outer : Awaits base (.operand l) s us)
    (ends : leftLevel t.tag ≤ k)
    (yields : Yields (.expr k v) vs)
    (next : nextAction goal t.tag (.expr :: s.marks) = .shift) :
    Reached base la (.token t :: .expr v :: s) (us ++ (vs ++ [t])) := by
  have place := outer.place goal base opening
  by_cases isPostfix : t.tag = .text .postfixOp
  · rw [isPostfix] at ends
    exact .postfixed t l v s us vs outer (yields.loosen k .e5 v vs ends) isPostfix
  cases operator : binaryLevels? t.tag with
  | some q =>
    have fits' := place.fits_of_shift goal l _ t.tag q operator next
    rw [leftLevel_of_binary t.tag q operator] at ends
    have left := yields.loosen k q.left v vs ends
    exact .awaiting _ _ _ (.binary t q v l s us vs outer operator fits' left)
  | none =>
    rw [← List.append_assoc]
    exact .shift_end goal base la opening t l v s us vs outer isPostfix operator
      (yields.loosen k .e1 v vs (Level.e1_le k)) next

/-- At the place of an argument a label can begin as well, and a call without arguments can end. -/
theorem Reached.shift_argument
    (t : Token)
    (s : Stack)
    (us : List Token)
    (outer : Awaits base .argument s us)
    (noOperand : startsOperand t.tag = false)
    (next : nextAction goal t.tag s.marks = .shift) :
    Reached base la (.token t :: s) (us ++ [t]) := by
  have label : t.tag = .reserved .tilde → Reached base la (.token t :: s) (us ++ [t]) :=
    fun marks => .tilde t s us outer marks
  cases outer with
  | firstArg f left name l s us outer callee opens =>
    simp only [marks_cons, mark_args, nextAction, onArgs, List.isEmpty_nil] at next
    split at next
    · next closes =>
      have reached : Reached base la _ _ :=
        .call f left t name [] l s us [] outer callee opens closes .noArgs
      simpa using reached
    · cases next
    · simp only [Action.shiftIf_eq_shift_iff, startsArg, noOperand, Bool.true_and, Bool.false_or,
        beq_iff_eq] at next
      exact label next
  | nextArg f left comma name values l s us vs outer callee opens nonempty before parts =>
    simp only [marks_cons, mark_token, parts, nextAction, onToken, Action.shiftIf_eq_shift_iff,
      startsArg, noOperand, Bool.false_or, beq_iff_eq] at next
    exact label next

theorem Reached.shift_operand
    (opening : Opening goal base.marks)
    (t : Token)
    (l : Level)
    (s : Stack)
    (us : List Token)
    (awaits : Awaits base (.operand l) s us)
    (noOperand : startsOperand t.tag = false)
    (next : nextAction goal t.tag s.marks = .shift) :
    Reached base la (.token t :: s) (us ++ [t]) ∨ s = base ∧ us = [] := by
  have noShift : Action.shiftIf (startsOperand t.tag) ≠ .shift := by
    rw [ne_eq, Action.shiftIf_eq_shift_iff, noOperand]
    decide
  cases awaits with
  | base => exact .inr ⟨rfl, rfl⟩
  | group left m s us outer opens =>
    have clear := (outer.place goal base opening).clear goal _ _
    rw [marks_cons, mark_token, opens, nextAction_lparen goal t.tag _ clear] at next
    exact absurd next noShift
  | unary op m s us outer isUnary =>
    rw [marks_cons, mark_token, nextAction,
      onToken_of_isUnaryOp goal op.tag t.tag _ isUnary] at next
    exact absurd next noShift
  | binary op p a m s us vs outer isBinary =>
    rw [marks_cons, mark_token, marks_cons, mark_expr, nextAction,
      onToken_of_binary goal op.tag t.tag p _ isBinary] at next
    exact absurd next noShift
  | plain s us outer => exact .inl (.shift_argument goal base la t s us outer noOperand next)
  | label tilde label equal name s us outer marks names binds =>
    have isName : label.tag = .text .lowerIdent := tag_of_kind _ _ names
    simp only [marks_cons, mark_token, marks, isName, binds, nextAction, onToken, isLabel,
      noOperand, Action.shiftIf_eq_shift_iff, Bool.true_and, Bool.or_false, beq_iff_eq] at next
    have awaits := Awaits.optionalLabel tilde label equal t name s us outer marks names binds next
    exact .inl (.awaiting _ _ _ (by simpa using awaits))
  | optionalLabel tilde label equal question name s us outer marks names binds omits =>
    rw [marks_cons, mark_token, omits, nextAction, onToken] at next
    exact absurd next noShift

theorem Reached.shift
    (opening : Opening goal base.marks)
    (t : Token)
    (s : Stack)
    (us : List Token)
    (reached : Reached base t.tag s us)
    (next : nextAction goal t.tag s.marks = .shift) :
    Reached base la (.token t :: s) (us ++ [t])
      ∨ s = base ∧ us = [] ∧ startsOperand t.tag = false := by
  cases reached with
  | awaiting slot s us awaits =>
    cases slot with
    | argument =>
      cases starts : startsOperand t.tag with
      | true => exact .inl (.of_startsOperand base la t .e1 s us (.plain s us awaits) starts)
      | false => exact .inl (.shift_argument goal base la t s us awaits starts next)
    | operand l =>
      cases starts : startsOperand t.tag with
      | true => exact .inl (.of_startsOperand base la t l s us awaits starts)
      | false =>
        rcases Reached.shift_operand goal base la opening t l s us awaits starts next with
          reached | ⟨rfl, rfl⟩
        · exact .inl reached
        · exact .inr ⟨rfl, rfl, rfl⟩
  | atom u v l s us outer isAtom =>
    have clear := (outer.place goal base opening).clear goal _ _
    rw [marks_cons, mark_token] at next
    rcases tag_of_ofAtom? u v isAtom with isInt | isLower | isUpper
    · rw [isInt] at next
      cases next
    · obtain ⟨name, callee⟩ := exists_kind_of_tag u .lowerIdent isLower
      rw [isLower, nextAction_lowerIdent goal t.tag _ clear] at next
      split at next
      · next opens =>
        have reached : Reached base la _ _ := .called u t name l s us outer callee opens
        exact .inl (by simpa using reached)
      · cases next
    · rw [isUpper, nextAction_upperIdent goal t.tag _ clear] at next
      cases next
  | expr k l v s us vs outer fits ends yields =>
    rw [List.append_assoc]
    exact .inl (.shift_expr goal base la opening t k l v s us vs outer ends yields next)
  | postfixed op l v s us vs outer operand isPostfix =>
    simp [isPostfix, nextAction, onToken] at next
  | group left right l v s us vs outer opens closes inner =>
    simp [closes, nextAction, onToken, onRParen] at next
  | called f left name l s us outer callee opens =>
    have isName : f.tag = .text .lowerIdent := tag_of_kind _ _ callee
    simp [isName, opens, nextAction, onToken, onLParen] at next
  | args f left name values l s us vs outer callee opens nonempty inner =>
    have notEmpty : values.isEmpty = false := by simp [nonempty]
    simp only [marks_cons, mark_args, notEmpty, nextAction, onArgs] at next
    split at next
    · next closes =>
      have reached : Reached base la _ _ :=
        .call f left t name values l s us vs outer callee opens closes inner
      exact .inl (by simpa using reached)
    · next parts =>
      have awaits := Awaits.nextArg f left t name values l s us vs outer callee opens nonempty inner
        parts
      exact .inl (.awaiting _ _ _ (by simpa using awaits))
    · cases next
  | call f left right name values l s us vs outer callee opens closes inner =>
    simp [closes, nextAction, onToken, onRParen] at next
  | tilde tilde s us outer marks =>
    simp only [marks_cons, mark_token, marks, nextAction, onToken, Action.shiftIf_eq_shift_iff,
      beq_iff_eq] at next
    obtain ⟨name, names⟩ := exists_kind_of_tag t .lowerIdent next
    have reached : Reached base la _ _ := .label tilde t name s us outer marks names
    exact .inl (by simpa using reached)
  | label tilde label name s us outer marks names =>
    have isName : label.tag = .text .lowerIdent := tag_of_kind _ _ names
    simp only [marks_cons, mark_token, marks, isName, nextAction, onToken, onLowerIdent] at next
    split at next
    · next binds =>
      have awaits := Awaits.label tilde label t name s us outer marks names binds
      exact .inl (.awaiting _ _ _ (by simpa using awaits))
    · exact absurd next (Action.reduceIf_ne_shift _ _)

end Shifts

end TolerantParser.Mini
