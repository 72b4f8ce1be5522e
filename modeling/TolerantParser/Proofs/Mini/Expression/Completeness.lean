import TolerantParser.Proofs.Driver.PlainRun
import TolerantParser.Proofs.Mini.Settling
import TolerantParser.Proofs.Mini.Expression.Places

/-! # Every derivation is read

The automaton reads the tokens of a phrase at a place for it, and leaves the value of the phrase on
the stack (`reads_of_yields`).  The induction follows the derivation.  What carries it is that the
token after the phrase does not reach into it, which is what `leftLevel` measures. -/

set_option autoImplicit false

namespace TolerantParser.Mini

section Run
variable (goal : Goal) (s s' : Stack) (t : Token) (ts : List Token)

theorem run_of_shift
    (next : nextAction goal t.tag s.marks = .shift) :
    automaton.run ⟨goal, s, none⟩ (t :: ts) = automaton.run ⟨goal, .token t :: s, none⟩ ts :=
  automaton.run_cons_of_needsInput _ _ t ts (settled_of_shift goal s t next)

theorem run_of_reduce
    (r : Reduction)
    (next : nextAction goal t.tag s.marks = .reduce r)
    (applied : r.apply s = some s') :
    automaton.run ⟨goal, s, none⟩ (t :: ts) = automaton.run ⟨goal, s', none⟩ (t :: ts) := by
  simp only [Automaton.run, offerSettled_eq, settled_of_reduce goal s s' t r next applied]

end Run

theorem run_of_label
    (goal : Goal)
    (s : Stack)
    (tilde label : Token)
    (ts : List Token)
    (place : Place goal .argument s.marks)
    (marks : tilde.tag = .reserved .tilde)
    (isName : label.tag = .text .lowerIdent) :
    automaton.run ⟨goal, s, none⟩ (tilde :: label :: ts)
      = automaton.run ⟨goal, .token label :: .token tilde :: s, none⟩ ts := by
  have named : nextAction goal label.tag (Stack.marks (.token tilde :: s)) = .shift := by
    simp [marks, isName, nextAction, onToken, Action.shiftIf]
  rw [run_of_shift goal s tilde (label :: ts) (marks ▸ place.shift_tilde goal s.marks),
    run_of_shift goal (.token tilde :: s) label ts named]

/-- The automaton reads the tokens of the phrase wherever the phrase can begin. -/
def Reads (goal : Goal) : Phrase → List Token → Prop
  | .expr k v, us => ∀ (l : Level) (s : Stack) (t : Token) (ts : List Token),
    Place goal (.operand l) s.marks → l ≤ k → leftLevel t.tag ≤ k → t.tag ≠ .reserved .lparen →
    automaton.run ⟨goal, s, none⟩ (us ++ t :: ts)
      = automaton.run ⟨goal, .expr v :: s, none⟩ (t :: ts)
  | .arg v, us => ∀ (s s' : Stack) (t : Token) (ts : List Token),
    Place goal .argument s.marks → appendArg v s = some s' → endsArg t.tag = true →
    automaton.run ⟨goal, s, none⟩ (us ++ t :: ts) = automaton.run ⟨goal, s', none⟩ (t :: ts)
  | .args vs, us => ∀ (s : Stack) (t : Token) (ts : List Token),
    endsArg t.tag = true →
    automaton.run ⟨goal, .args [] :: s, none⟩ (us ++ t :: ts)
      = automaton.run ⟨goal, .args vs :: s, none⟩ (t :: ts)

namespace Reads

section Expressions
variable (goal : Goal)

theorem binary
    (op : Token)
    (p : BinaryLevels)
    (a b : Tree)
    (us vs : List Token)
    (isBinary : binaryLevels? op.tag = some p)
    (left : Reads goal (.expr p.left a) us)
    (right : Reads goal (.expr p.right b) vs) :
    Reads goal (.expr p.whole (.binary op.kind.wording a b)) (us ++ op :: vs) := by
  intro l s t ts place fits ends notCall
  obtain ⟨leftFits, rightFits, _, _⟩ := binaryLevels?_bounds op.tag p isBinary
  have opEnds : leftLevel op.tag ≤ p.left := by
    rw [leftLevel_of_binary op.tag p isBinary]
    exact Level.le_refl _
  have opNotCall : op.tag ≠ .reserved .lparen := by
    intro isParen
    rw [isParen] at isBinary
    cases isBinary
  have readLeft := left l s op (vs ++ t :: ts) place (Level.le_trans _ _ _ fits leftFits)
    opEnds opNotCall
  have taken := place.shift_of_binary goal l s.marks op.tag p isBinary fits
  have inner : Place goal (.operand p.right) (Stack.marks (.token op :: .expr a :: s)) :=
    .binary op.tag p s.marks isBinary
  have readRight := right p.right (.token op :: .expr a :: s) t ts inner (Level.le_refl _)
    (Level.le_trans _ _ _ ends rightFits) notCall
  have reduce := nextAction_above_binary goal t.tag s.marks op.tag p isBinary
  rw [if_pos ends] at reduce
  rw [List.append_assoc, List.cons_append, readLeft,
    run_of_shift goal (.expr a :: s) op (vs ++ t :: ts) taken, readRight]
  exact run_of_reduce goal (.expr b :: .token op :: .expr a :: s) _ t ts .binaryOp reduce rfl

theorem unary
    (op : Token)
    (v : Tree)
    (us : List Token)
    (isUnary : isUnaryOp op.tag = true)
    (operand : Reads goal (.expr .e4 v) us) :
    Reads goal (.expr .e4 (.unary op.kind.wording v)) (op :: us) := by
  intro l s t ts place fits ends notCall
  have starts : startsOperand op.tag = true := by
    unfold startsOperand
    split <;> first | rfl | exact isUnary
  have taken := place.shift_of_startsOperand goal _ s.marks op.tag starts
  have inner : Place goal (.operand .e4) (Stack.marks (.token op :: s)) :=
    .unary op.tag l s.marks isUnary place
  have readOperand := operand .e4 (.token op :: s) t ts inner (Level.le_refl _) ends notCall
  have reduce := nextAction_above_unary goal t.tag s.marks op.tag isUnary (place.clear goal _ _)
  rw [if_neg (by intro isPostfix; rw [isPostfix] at ends; exact absurd ends (by decide))] at reduce
  rw [List.cons_append, run_of_shift goal s op (us ++ t :: ts) taken, readOperand]
  exact run_of_reduce goal (.expr v :: .token op :: s) _ t ts .unaryOp reduce rfl

theorem postfixed
    (op : Token)
    (text : String)
    (v : Tree)
    (us : List Token)
    (kind : op.kind = .text .postfixOp text)
    (operand : Reads goal (.expr .e5 v) us) :
    Reads goal (.expr .e5 (v.applyPostfix text)) (us ++ [op]) := by
  intro l s t ts place fits _ _
  have isPostfix : op.tag = .text .postfixOp := tag_of_kind op _ kind
  have opEnds : leftLevel op.tag ≤ .e5 := by
    rw [isPostfix]
    decide
  have readOperand := operand l s op (t :: ts) place fits opEnds (by simp [isPostfix])
  have taken : nextAction goal op.tag (Stack.marks (.expr v :: s)) = .shift := by
    simp [isPostfix, nextAction, onExpr]
  have reduce : nextAction goal t.tag (Stack.marks (.token op :: .expr v :: s))
      = .reduce .postfixOp := by
    simp [isPostfix, nextAction, onToken]
  rw [List.append_assoc, List.singleton_append, readOperand,
    run_of_shift goal (.expr v :: s) op (t :: ts) taken]
  refine run_of_reduce goal (.token op :: .expr v :: s) _ t ts .postfixOp reduce ?_
  rw [Reduction.apply, kind, Kind.wording_text]

theorem atom
    (u : Token)
    (v : Tree)
    (isAtom : Tree.ofAtom? u.kind = some v) :
    Reads goal (.expr .atom v) [u] := by
  intro l s t ts place _ _ notCall
  have clear := place.clear goal _ s.marks
  have decided : startsOperand u.tag = true
      ∧ nextAction goal t.tag (.token u.tag :: s.marks) = .reduce .atom := by
    rcases tag_of_ofAtom? u v isAtom with isInt | isLower | isUpper
    · rw [isInt]
      exact ⟨rfl, rfl⟩
    · rw [isLower, nextAction_lowerIdent goal t.tag s.marks clear, if_neg notCall]
      exact ⟨rfl, rfl⟩
    · rw [isUpper, nextAction_upperIdent goal t.tag s.marks clear]
      exact ⟨rfl, rfl⟩
  have taken := place.shift_of_startsOperand goal _ s.marks u.tag decided.1
  rw [List.singleton_append, run_of_shift goal s u (t :: ts) taken]
  exact run_of_reduce goal (.token u :: s) _ t ts .atom decided.2
    (by simp [Reduction.apply, isAtom])

theorem group
    (left right : Token)
    (v : Tree)
    (us : List Token)
    (opens : left.tag = .reserved .lparen)
    (closes : right.tag = .reserved .rparen)
    (inner : Reads goal (.expr .e1 v) us) :
    Reads goal (.expr .atom v) (left :: us ++ [right]) := by
  intro l s t ts place _ _ _
  have taken := place.shift_of_startsOperand goal _ s.marks left.tag (by rw [opens]; rfl)
  have innerPlace : Place goal (.operand .e1) (Stack.marks (.token left :: s)) := by
    rw [marks_cons, mark_token, opens]
    exact .group l s.marks place
  have readInner := inner .e1 (.token left :: s) right (t :: ts) innerPlace (Level.le_refl _)
    (by rw [closes]; decide) (by rw [closes]; decide)
  have closed : nextAction goal right.tag (Stack.marks (.expr v :: .token left :: s)) = .shift := by
    rw [marks_cons, mark_expr, innerPlace.nextAction_above goal _ right.tag, closes, marks_cons,
      mark_token, opens]
    rfl
  have reduce : nextAction goal t.tag (Stack.marks (.token right :: .expr v :: .token left :: s))
      = .reduce .group := by
    simp [closes, nextAction, onToken, onRParen]
  rw [List.cons_append, List.cons_append, List.append_assoc, List.singleton_append,
    run_of_shift goal s left (us ++ right :: t :: ts) taken, readInner,
    run_of_shift goal (.expr v :: .token left :: s) right (t :: ts) closed]
  exact run_of_reduce goal (.token right :: .expr v :: .token left :: s) _ t ts .group reduce rfl

theorem call
    (f left right : Token)
    (name : String)
    (values : List Tree)
    (us : List Token)
    (callee : f.kind = .text .lowerIdent name)
    (opens : left.tag = .reserved .lparen)
    (closes : right.tag = .reserved .rparen)
    (inner : Reads goal (.args values) us) :
    Reads goal (.expr .atom (.call name values)) (f :: left :: us ++ [right]) := by
  intro l s t ts place _ _ _
  have isName : f.tag = .text .lowerIdent := tag_of_kind _ _ callee
  have clear := place.clear goal _ s.marks
  have taken := place.shift_of_startsOperand goal _ s.marks f.tag (by rw [isName]; rfl)
  have called : nextAction goal left.tag (Stack.marks (.token f :: s)) = .shift := by
    rw [marks_cons, mark_token, isName, nextAction_lowerIdent goal left.tag s.marks clear,
      if_pos opens]
  have opened : ∀ la, nextAction goal la (Stack.marks (.token left :: .token f :: s))
      = .reduce .openCall := by
    intro la
    simp [opens, isName, nextAction, onToken, onLParen]
  have openArgs : ∀ ws : List Token, ws ≠ [] →
      automaton.run ⟨goal, .token left :: .token f :: s, none⟩ ws
        = automaton.run ⟨goal, .args [] :: .token left :: .token f :: s, none⟩ ws := by
    intro ws nonempty
    obtain ⟨w, ws, rfl⟩ := List.exists_cons_of_ne_nil nonempty
    exact run_of_reduce goal (.token left :: .token f :: s) _ w ws .openCall (opened w.tag) rfl
  have readInner := inner (.token left :: .token f :: s) right (t :: ts) (by rw [closes]; rfl)
  have closed : nextAction goal right.tag
      (Stack.marks (.args values :: .token left :: .token f :: s)) = .shift := by
    simp [closes, nextAction, onArgs]
  have reduce : nextAction goal t.tag
      (Stack.marks (.token right :: .args values :: .token left :: .token f :: s))
      = .reduce .closeCall := by
    simp [closes, nextAction, onToken, onRParen]
  have split : f :: left :: us ++ [right] ++ t :: ts = f :: left :: (us ++ right :: t :: ts) := by
    simp
  rw [split, run_of_shift goal s f (left :: (us ++ right :: t :: ts)) taken,
    run_of_shift goal (.token f :: s) left (us ++ right :: t :: ts) called,
    openArgs (us ++ right :: t :: ts) (by simp), readInner,
    run_of_shift goal (.args values :: .token left :: .token f :: s) right (t :: ts) closed]
  exact run_of_reduce goal (.token right :: .args values :: .token left :: .token f :: s) _ t ts
    .closeCall reduce (by simp [Reduction.apply, callee, Kind.text?])

end Expressions

/-! ## Arguments -/

section Arguments
variable (goal : Goal)

theorem plain
    (v : Tree)
    (us : List Token)
    (inner : Reads goal (.expr .e1 v) us) :
    Reads goal (.arg v) us := by
  intro s s' t ts place appended ends
  obtain ⟨whole, notCall, _⟩ := leftLevel_of_endsArg t.tag ends
  have outer : Place goal (.operand .e1) s.marks := .plain s.marks place
  have readInner := inner .e1 s t ts outer (Level.le_refl _) whole notCall
  have reduce : nextAction goal t.tag (Stack.marks (.expr v :: s)) = .reduce .argument := by
    rw [marks_cons, mark_expr, outer.nextAction_above_of_endsArg goal _ t.tag ends,
      place.closeExpr_eq goal _ t.tag, ends]
    rfl
  rw [readInner]
  exact run_of_reduce goal (.expr v :: s) s' t ts .argument reduce appended

theorem punned
    (tilde label : Token)
    (name : String)
    (marks : tilde.tag = .reserved .tilde)
    (names : label.kind = .text .lowerIdent name) :
    Reads goal (.arg (.labeled name false none)) [tilde, label] := by
  intro s s' t ts place appended ends
  have isName : label.tag = .text .lowerIdent := tag_of_kind _ _ names
  have reduce : nextAction goal t.tag (Stack.marks (.token label :: .token tilde :: s))
      = .reduce .punnedLabel := by
    have notEqual : t.tag ≠ .reserved .equal := by
      intro isEqual
      rw [isEqual] at ends
      cases ends
    simp [isName, marks, nextAction, onToken, onLowerIdent, notEqual, Action.reduceIf, ends]
  have readLabel := run_of_label goal s tilde label (t :: ts) place marks isName
  rw [List.cons_append, List.cons_append, List.nil_append, readLabel]
  refine run_of_reduce goal (.token label :: .token tilde :: s) s' t ts .punnedLabel reduce ?_
  simpa [Reduction.apply, names, Kind.text?] using appended

theorem labeled
    (tilde label equal : Token)
    (name : String)
    (v : Tree)
    (us : List Token)
    (marks : tilde.tag = .reserved .tilde)
    (names : label.kind = .text .lowerIdent name)
    (binds : equal.tag = .reserved .equal)
    (inner : Reads goal (.expr .e1 v) us) :
    Reads goal (.arg (.labeled name false (some v))) (tilde :: label :: equal :: us) := by
  intro s s' t ts place appended ends
  obtain ⟨whole, notCall, _⟩ := leftLevel_of_endsArg t.tag ends
  have isName : label.tag = .text .lowerIdent := tag_of_kind _ _ names
  have outer : Place goal (.operand .e1)
      (Stack.marks (.token equal :: .token label :: .token tilde :: s)) := by
    simp only [marks_cons, mark_token, binds, isName, marks]
    exact .label s.marks
  have readLabel := run_of_label goal s tilde label (equal :: (us ++ t :: ts)) place marks isName
  have taken : nextAction goal equal.tag (Stack.marks (.token label :: .token tilde :: s))
      = .shift := by
    simp [isName, marks, binds, nextAction, onToken, onLowerIdent]
  have readInner := inner .e1 _ t ts outer (Level.le_refl _) whole notCall
  have reduce : nextAction goal t.tag
      (Stack.marks (.expr v :: .token equal :: .token label :: .token tilde :: s))
      = .reduce .labeledArgument := by
    rw [marks_cons, mark_expr, outer.nextAction_above_of_endsArg goal _ t.tag ends]
    simp only [marks_cons, mark_token, binds, isName, marks, closeExpr_label, ends]
    rfl
  rw [List.cons_append, List.cons_append, List.cons_append, readLabel,
    run_of_shift goal (.token label :: .token tilde :: s) equal (us ++ t :: ts) taken, readInner]
  refine run_of_reduce goal _ s' t ts .labeledArgument reduce ?_
  simpa [Reduction.apply, appendLabeled, appendLabeled.plain, binds, names, Kind.text?]
    using appended

theorem optional
    (tilde label equal question : Token)
    (name : String)
    (v : Tree)
    (us : List Token)
    (marks : tilde.tag = .reserved .tilde)
    (names : label.kind = .text .lowerIdent name)
    (binds : equal.tag = .reserved .equal)
    (omits : question.tag = .reserved .question)
    (inner : Reads goal (.expr .e1 v) us) :
    Reads goal (.arg (.labeled name true (some v)))
      (tilde :: label :: equal :: question :: us) := by
  intro s s' t ts place appended ends
  obtain ⟨whole, notCall, _⟩ := leftLevel_of_endsArg t.tag ends
  have isName : label.tag = .text .lowerIdent := tag_of_kind _ _ names
  have outer : Place goal (.operand .e1)
      (Stack.marks (.token question :: .token equal :: .token label :: .token tilde :: s)) := by
    simp only [marks_cons, mark_token, omits, binds, isName, marks]
    exact .optionalLabel s.marks
  have readLabel :=
    run_of_label goal s tilde label (equal :: question :: (us ++ t :: ts)) place marks isName
  have taken : nextAction goal equal.tag (Stack.marks (.token label :: .token tilde :: s))
      = .shift := by
    simp [isName, marks, binds, nextAction, onToken, onLowerIdent]
  have taken' : nextAction goal question.tag
      (Stack.marks (.token equal :: .token label :: .token tilde :: s)) = .shift := by
    simp [isName, marks, binds, omits, nextAction, onToken, isLabel, Action.shiftIf]
  have readInner := inner .e1 _ t ts outer (Level.le_refl _) whole notCall
  have reduce : nextAction goal t.tag
      (Stack.marks
        (.expr v :: .token question :: .token equal :: .token label :: .token tilde :: s))
      = .reduce .labeledArgument := by
    rw [marks_cons, mark_expr, outer.nextAction_above_of_endsArg goal _ t.tag ends]
    simp only [marks_cons, mark_token, omits, closeExpr_optionalLabel, ends]
    rfl
  rw [List.cons_append, List.cons_append, List.cons_append, List.cons_append, readLabel,
    run_of_shift goal (.token label :: .token tilde :: s) equal _ taken,
    run_of_shift goal (.token equal :: .token label :: .token tilde :: s) question _ taken',
    readInner]
  refine run_of_reduce goal _ s' t ts .labeledArgument reduce ?_
  simpa [Reduction.apply, appendLabeled, omits, names, Kind.text?] using appended

theorem firstArg
    (v : Tree)
    (us : List Token)
    (first : Reads goal (.arg v) us) :
    Reads goal (.args [v]) us := by
  intro s t ts ends
  exact first (.args [] :: s) (.args [v] :: s) t ts (.firstArg s.marks) rfl ends

theorem nextArg
    (comma : Token)
    (v : Tree)
    (values : List Tree)
    (us vs : List Token)
    (parts : comma.tag = .reserved .comma)
    (nonempty : values ≠ [])
    (before : Reads goal (.args values) us)
    (last : Reads goal (.arg v) vs) :
    Reads goal (.args (values ++ [v])) (us ++ comma :: vs) := by
  intro s t ts ends
  have notEmpty : values.isEmpty = false := by simp [nonempty]
  have readBefore := before s comma (vs ++ t :: ts) (by rw [parts]; rfl)
  have taken : nextAction goal comma.tag (Stack.marks (.args values :: s)) = .shift := by
    simp [parts, nextAction, onArgs, Action.shiftIf, notEmpty]
  have place : Place goal .argument (Stack.marks (.token comma :: .args values :: s)) := by
    simp only [marks_cons, mark_token, mark_args, parts, notEmpty]
    exact .nextArg s.marks
  have readLast := last (.token comma :: .args values :: s) (.args (values ++ [v]) :: s) t ts place
    (by simp [appendArg, parts]) ends
  rw [List.append_assoc, List.cons_append, readBefore,
    run_of_shift goal (.args values :: s) comma (vs ++ t :: ts) taken, readLast]

end Arguments

end Reads

theorem reads_of_yields
    (goal : Goal)
    (p : Phrase)
    (us : List Token)
    (yields : Yields p us) :
    Reads goal p us := by
  induction yields with
  | next k l v us tighter _ ih =>
    intro m s t ts place fits ends notCall
    have looser : l ≤ k := (Level.le_def l k).mpr (by omega)
    exact ih m s t ts place (Level.le_trans _ _ _ fits looser) (Level.le_trans _ _ _ ends looser)
      notCall
  | binary op p text a b us vs isBinary spelled _ _ left right =>
    rw [infixText?_of_binary op.kind p isBinary] at spelled
    cases spelled
    exact .binary goal op p a b us vs isBinary left right
  | unary op text v us spelled _ operand =>
    obtain ⟨isUnary, rfl⟩ := (prefixText?_eq_some_iff op.kind text).mp spelled
    exact .unary goal op v us isUnary operand
  | postfixed op text v us kind flat _ operand =>
    rw [← v.applyPostfix_of_flat text flat]
    exact .postfixed goal op text v us kind operand
  | extended op text v ops us kind _ run =>
    exact .postfixed goal op text (.postfixed v ops) us kind run
  | int t digits kind => exact .atom goal t _ (by rw [kind]; rfl)
  | constr t name kind => exact .atom goal t _ (by rw [kind]; rfl)
  | var t name kind => exact .atom goal t _ (by rw [kind]; rfl)
  | group l r v us opens closes _ inner => exact .group goal l r v us opens closes inner
  | call f l r name values us callee opens closes _ inner =>
    exact .call goal f l r name values us callee opens closes inner
  | noArgs =>
    intro s t ts _
    rfl
  | firstArg v us _ first => exact .firstArg goal v us first
  | nextArg comma v values us vs parts nonempty _ _ before last =>
    exact .nextArg goal comma v values us vs parts nonempty before last
  | plain v us _ inner => exact .plain goal v us inner
  | punned tilde label name marks names => exact .punned goal tilde label name marks names
  | labeled tilde label equal name v us marks names binds _ inner =>
    exact .labeled goal tilde label equal name v us marks names binds inner
  | optional tilde label equal question name v us marks names binds omits _ inner =>
    exact .optional goal tilde label equal question name v us marks names binds omits inner

end TolerantParser.Mini
