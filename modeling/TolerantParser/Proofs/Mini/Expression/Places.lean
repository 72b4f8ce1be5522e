import TolerantParser.Mini.Reduction
import TolerantParser.Proofs.Mini.Expression.Grammar

/-! # Where expressions stand on the stack

`Place goal slot ms` says that the marks `ms` end where a phrase of the expression grammar is to
begin, and `slot` which one: an operand that is no looser than some level, or an argument of a
call.  The decisions of the automaton at a place, and above a complete operand at a place, are
stated here once, for the derivations that it reads and for the stacks that it comes by. -/

set_option autoImplicit false

namespace TolerantParser.Mini

/-- Marks on which an expression begins that stands in no other expression. -/
inductive Opening (goal : Goal) : List Mark → Prop
  | bottom
      (single : goal = .expression ∨ goal = .toplevelPhrase) :
      Opening goal []
  | items (ms : List Mark)
      (values : goal ≠ .interface) :
      Opening goal (.items true :: ms)
  | documented (ms : List Mark)
      (values : goal ≠ .interface) :
      Opening goal (.token (.text .docString) :: ms)
  | bound (ms : List Mark) :
      Opening goal
        (.token (.reserved .equal) :: .token (.text .lowerIdent) :: .token (.reserved .kwLet) :: ms)

/-- What is to begin at a place: an expression of a level that is no looser, or an argument. -/
inductive Slot
  | operand (least : Level)
  | argument

inductive Place (goal : Goal) : Slot → List Mark → Prop
  | opening (ms : List Mark)
      (opens : Opening goal ms) :
      Place goal (.operand .e1) ms
  | group (l : Level) (ms : List Mark)
      (outer : Place goal (.operand l) ms) :
      Place goal (.operand .e1) (.token (.reserved .lparen) :: ms)
  | unary (op : Tag) (l : Level) (ms : List Mark)
      (isUnary : isUnaryOp op = true)
      (outer : Place goal (.operand l) ms) :
      Place goal (.operand .e4) (.token op :: ms)
  | binary (op : Tag) (p : BinaryLevels) (ms : List Mark)
      (isBinary : binaryLevels? op = some p) :
      Place goal (.operand p.right) (.token op :: .expr :: ms)
  | firstArg (ms : List Mark) :
      Place goal .argument (.args true :: ms)
  | nextArg (ms : List Mark) :
      Place goal .argument (.token (.reserved .comma) :: .args false :: ms)
  | plain (ms : List Mark)
      (outer : Place goal .argument ms) :
      Place goal (.operand .e1) ms
  | label (ms : List Mark) :
      Place goal (.operand .e1)
        (.token (.reserved .equal) :: .token (.text .lowerIdent) :: .token (.reserved .tilde) :: ms)
  | optionalLabel (ms : List Mark) :
      Place goal (.operand .e1)
        (.token (.reserved .question) :: .token (.reserved .equal) :: .token (.text .lowerIdent)
          :: .token (.reserved .tilde) :: ms)

/-! ## Tokens by their tags -/

theorem tag_of_kind
    (t : Token)
    (k : Kind)
    (kind : t.kind = k) :
    t.tag = k.tag := by
  rw [Token.tag, kind]

theorem exists_kind_of_tag
    (t : Token)
    (c : TextClass)
    (isText : t.tag = .text c) :
    ∃ text, t.kind = .text c text := by
  unfold Token.tag at isText
  cases kind : t.kind with
  | text d text =>
    rw [kind, Kind.tag_text, Tag.text.injEq] at isText
    exact ⟨text, by rw [isText]⟩
  | reserved r =>
    rw [kind] at isText
    cases isText
  | eof =>
    rw [kind] at isText
    cases isText

theorem tag_of_ofAtom?
    (t : Token)
    (v : Tree)
    (isAtom : Tree.ofAtom? t.kind = some v) :
    t.tag = .text .int ∨ t.tag = .text .lowerIdent ∨ t.tag = .text .upperIdent := by
  unfold Token.tag
  unfold Tree.ofAtom? at isAtom
  split at isAtom
  · next kind => simp [kind]
  · next kind => simp [kind]
  · next kind => simp [kind]
  · cases isAtom

theorem exists_ofAtom?
    (t : Token)
    (isAtom : t.tag = .text .int ∨ t.tag = .text .lowerIdent ∨ t.tag = .text .upperIdent) :
    ∃ v, Tree.ofAtom? t.kind = some v := by
  rcases isAtom with isAtom | isAtom | isAtom <;>
    obtain ⟨text, kind⟩ := exists_kind_of_tag t _ isAtom <;>
    rw [kind] <;>
    exact ⟨_, rfl⟩

/-! ## Operators of the grammar -/

/-- The prefix operators of the grammar are those of the automaton. -/
theorem prefixText?_eq_some_iff
    (k : Kind)
    (text : String) :
    prefixText? k = some text ↔ isUnaryOp k.tag = true ∧ k.wording = text := by
  cases k with
  | text c s => simp [prefixText?, isUnaryOp]
  | reserved r => cases r <;> simp [prefixText?, isUnaryOp, Reserved.spelling]
  | eof => simp [prefixText?, isUnaryOp]

theorem infixText?_of_binary
    (k : Kind)
    (p : BinaryLevels)
    (isBinary : binaryLevels? k.tag = some p) :
    infixText? k = some k.wording := by
  cases k with
  | text c s => cases c <;> first | rfl | cases isBinary
  | reserved r => cases r <;> first | rfl | cases isBinary
  | eof => cases isBinary

theorem Tree.applyPostfix_of_flat
    (e : Tree)
    (op : String)
    (flat : e.isPostfixed = false) :
    e.applyPostfix op = .postfixed e [op] := by
  cases e <;> first | rfl | cases flat

/-- What the automaton makes of one more postfix operator is what the grammar has for it. -/
theorem Yields.applyPostfix
    (op : Token)
    (text : String)
    (v : Tree)
    (us : List Token)
    (operand : Yields (.expr .e5 v) us)
    (isPostfix : op.kind = .text .postfixOp text) :
    Yields (.expr .e5 (v.applyPostfix text)) (us ++ [op]) := by
  cases v with
  | postfixed e ops => exact .extended op text e ops us isPostfix operand
  | _ => exact .postfixed op text _ us isPostfix rfl operand

theorem onToken_of_isUnaryOp
    (goal : Goal)
    (op la : Tag)
    (ms : List Mark)
    (isUnary : isUnaryOp op = true) :
    onToken goal la op ms = .shiftIf (startsOperand la) := by
  cases op with
  | text c => cases isUnary
  | reserved r => cases r <;> first | rfl | cases isUnary
  | eof => cases isUnary

theorem onToken_of_binary
    (goal : Goal)
    (op la : Tag)
    (p : BinaryLevels)
    (ms : List Mark)
    (isBinary : binaryLevels? op = some p) :
    onToken goal la op (.expr :: ms) = .shiftIf (startsOperand la) := by
  cases op with
  | text c => cases c <;> first | rfl | cases isBinary
  | reserved r => cases r <;> first | rfl | cases isBinary
  | eof => cases isBinary

theorem binding?_isSome (t : Tag) : (binding? t).isSome = (binaryLevels? t).isSome := by
  have all : ∀ t ∈ Tag.all, (binding? t).isSome = (binaryLevels? t).isSome := by decide
  exact all t t.mem_all

/-! ## Nothing before a place reaches beyond it -/

/-- Marks above which a name or an opening parenthesis is the beginning of an expression. -/
def Clear (goal : Goal) : List Mark → Prop
  | [] => goal ≠ .coreType
  | m :: _ =>
    m ∉ [Mark.expr, .type, .token (.text .lowerIdent), .token (.reserved .tilde),
      .token (.reserved .kwLet), .token (.reserved .kwOpen), .token (.reserved .colon)]

theorem clear_of_isUnaryOp
    (goal : Goal)
    (op : Tag)
    (ms : List Mark)
    (isUnary : isUnaryOp op = true) :
    Clear goal (.token op :: ms) := by
  cases op with
  | text c => cases isUnary
  | reserved r => cases r <;> simp_all [isUnaryOp, Clear]
  | eof => cases isUnary

theorem clear_of_binary
    (goal : Goal)
    (op : Tag)
    (p : BinaryLevels)
    (ms : List Mark)
    (isBinary : binaryLevels? op = some p) :
    Clear goal (.token op :: ms) := by
  cases op with
  | text c => cases c <;> simp_all [binaryLevels?, Clear]
  | reserved r => cases r <;> simp_all [binaryLevels?, Clear]
  | eof => cases isBinary

theorem Place.clear
    (goal : Goal)
    (slot : Slot)
    (ms : List Mark)
    (place : Place goal slot ms) :
    Clear goal ms := by
  induction place with
  | opening ms opens =>
    cases opens with
    | bottom single => rcases single with rfl | rfl <;> simp [Clear]
    | items | documented | bound => simp [Clear]
  | unary op l ms isUnary => exact clear_of_isUnaryOp goal op ms isUnary
  | binary op p ms isBinary => exact clear_of_binary goal op p _ isBinary
  | plain ms _ ih => exact ih
  | group | firstArg | nextArg | label | optionalLabel => simp [Clear]

section Clear
variable (goal : Goal) (la : Tag) (ms : List Mark) (clear : Clear goal ms)
include clear

theorem nextAction_lowerIdent :
    nextAction goal la (.token (.text .lowerIdent) :: ms)
      = if la = .reserved .lparen then .shift else .reduce .atom := by
  have noType : inType goal ms = false := by
    unfold inType
    split <;> simp_all [Clear]
  simp only [nextAction, onToken, onLowerIdent]
  split <;> simp_all [Clear]

theorem nextAction_upperIdent :
    nextAction goal la (.token (.text .upperIdent) :: ms) = .reduce .atom := by
  have noType : inType goal ms = false := by
    unfold inType
    split <;> simp_all [Clear]
  simp only [nextAction, onToken, onUpperIdent]
  split <;> simp_all [Clear]

theorem reduce_atom_of_clear
    (t : Token)
    (v : Tree)
    (r : Reduction)
    (isAtom : Tree.ofAtom? t.kind = some v)
    (next : nextAction goal la (.token t.tag :: ms) = .reduce r) :
    r = .atom := by
  rcases tag_of_ofAtom? t v isAtom with isInt | isLower | isUpper
  · rw [isInt] at next
    cases next
    rfl
  · rw [isLower, nextAction_lowerIdent goal la ms clear] at next
    split at next <;> cases next
    rfl
  · rw [isUpper, nextAction_upperIdent goal la ms clear] at next
    cases next
    rfl

theorem nextAction_lparen :
    nextAction goal la (.token (.reserved .lparen) :: ms) = .shiftIf (startsOperand la) := by
  simp only [nextAction, onToken, onLParen]
  split <;> simp_all [Clear]

theorem operatorBelow_of_clear
    (op : Tag) :
    operatorBelow la (.token op :: ms)
      = if isUnaryOp op then some (.reduce .unaryOp) else none := by
  unfold operatorBelow
  split <;> simp_all [Clear]

end Clear

/-! ## Decisions at a place -/

theorem startsItem_of_startsOperand
    (goal : Goal)
    (la : Tag)
    (values : goal ≠ .interface)
    (starts : startsOperand la = true) :
    startsItem goal la = true := by
  unfold startsItem
  split <;> simp_all

theorem Place.shift_of_startsOperand
    (goal : Goal)
    (slot : Slot)
    (ms : List Mark)
    (la : Tag)
    (place : Place goal slot ms)
    (starts : startsOperand la = true) :
    nextAction goal la ms = .shift := by
  induction place with
  | opening ms opens =>
    cases opens with
    | bottom single => rcases single with rfl | rfl <;>
        simp [nextAction, onEmpty, Action.shiftIf, starts, startsItem_of_startsOperand]
    | items ms values =>
      have item := startsItem_of_startsOperand goal la values starts
      simp only [nextAction, onItems]
      split
      · cases starts
      · cases starts
      · simp [Action.shiftIf, item]
    | documented ms values =>
      have item := startsItem_of_startsOperand goal la values starts
      simp [nextAction, onToken, Action.shiftIf, item]
    | bound => simp [nextAction, onToken, Action.shiftIf, starts]
  | group l ms outer =>
    rw [nextAction_lparen goal la ms (outer.clear goal _ ms), Action.shiftIf, if_pos starts]
  | unary op l ms isUnary =>
    rw [nextAction, onToken_of_isUnaryOp goal op la ms isUnary, Action.shiftIf, if_pos starts]
  | binary op p ms isBinary =>
    rw [nextAction, onToken_of_binary goal op la p ms isBinary, Action.shiftIf, if_pos starts]
  | firstArg ms =>
    simp only [nextAction, onArgs]
    split
    · rfl
    · cases starts
    · simp [Action.shiftIf, startsArg, starts]
  | nextArg => simp [nextAction, onToken, Action.shiftIf, startsArg, starts]
  | plain ms _ ih => exact ih
  | label | optionalLabel => simp [nextAction, onToken, Action.shiftIf, starts]

theorem Place.ne_reduce
    (goal : Goal)
    (slot : Slot)
    (ms : List Mark)
    (la : Tag)
    (r : Reduction)
    (place : Place goal slot ms) :
    nextAction goal la ms ≠ .reduce r := by
  induction place with
  | opening ms opens =>
    cases opens with
    | bottom single => rcases single with rfl | rfl <;> exact Action.shiftIf_ne_reduce _ r
    | items ms values =>
      simp only [nextAction, onItems]
      split
      · simp
      · simp
      · exact Action.shiftIf_ne_reduce _ r
    | documented | bound => exact Action.shiftIf_ne_reduce _ r
  | group l ms outer =>
    rw [nextAction_lparen goal la ms (outer.clear goal _ ms)]
    exact Action.shiftIf_ne_reduce _ r
  | unary op l ms isUnary =>
    rw [nextAction, onToken_of_isUnaryOp goal op la ms isUnary]
    exact Action.shiftIf_ne_reduce _ r
  | binary op p ms isBinary =>
    rw [nextAction, onToken_of_binary goal op la p ms isBinary]
    exact Action.shiftIf_ne_reduce _ r
  | firstArg ms =>
    simp only [nextAction, onArgs]
    split
    · simp
    · exact Action.shiftIf_ne_reduce _ r
    · exact Action.shiftIf_ne_reduce _ r
  | nextArg | label | optionalLabel => exact Action.shiftIf_ne_reduce _ r
  | plain ms _ ih => exact ih

theorem Place.shift_tilde
    (goal : Goal)
    (ms : List Mark)
    (place : Place goal .argument ms) :
    nextAction goal (.reserved .tilde) ms = .shift := by
  cases place <;> rfl

/-! ## Decisions above an operand -/

section Operand
variable (goal : Goal) (la : Tag) (ms : List Mark)

theorem nextAction_above_unary
    (op : Tag)
    (isUnary : isUnaryOp op = true)
    (clear : Clear goal ms) :
    nextAction goal la (.expr :: .token op :: ms)
      = if la = .text .postfixOp then .shift else .reduce .unaryOp := by
  simp only [nextAction, onExpr, operatorBelow_of_clear goal la ms clear op, isUnary, if_true]

/-- Above its right operand a binary operator is reduced, unless the token reaches into it. -/
theorem nextAction_above_binary
    (op : Tag)
    (p : BinaryLevels)
    (isBinary : binaryLevels? op = some p) :
    nextAction goal la (.expr :: .token op :: .expr :: ms)
      = if leftLevel la ≤ p.whole then .reduce .binaryOp else .shift := by
  have all : ∀ op ∈ Tag.all, ∀ la ∈ Tag.all, ∀ p ∈ binaryLevels? op,
      onExpr .expression la [.token op, .expr]
        = if leftLevel la ≤ p.whole then .reduce .binaryOp else .shift := by decide
  have decided := all op op.mem_all la la.mem_all p isBinary
  have binding : ∃ b, binding? op = some b := by
    rw [← Option.isSome_iff_exists, binding?_isSome, isBinary]
    rfl
  obtain ⟨b, binding⟩ := binding
  simpa only [nextAction, onExpr, operatorBelow, binding, Option.map_some] using decided

theorem operatorBelow_eq_none
    (op : Tag)
    (notBinary : binaryLevels? op = none)
    (notUnary : isUnaryOp op = false) :
    operatorBelow la (.token op :: ms) = none := by
  have unbound : binding? op = none := by
    rw [← Option.isNone_iff_eq_none, ← Option.not_isSome, binding?_isSome, notBinary]
    rfl
  unfold operatorBelow
  split <;> simp_all

end Operand

theorem Place.operatorBelow_eq_none
    (goal : Goal)
    (ms : List Mark)
    (la : Tag)
    (place : Place goal (.operand .e1) ms) :
    operatorBelow la ms = none := by
  generalize loosest : Slot.operand .e1 = slot at place
  induction place with
  | opening ms opens =>
    cases opens with
    | documented => exact Mini.operatorBelow_eq_none la _ _ rfl rfl
    | bottom | items | bound => rfl
  | group => exact Mini.operatorBelow_eq_none la _ _ rfl rfl
  | unary => cases loosest
  | binary op p ms isBinary =>
    have all : ∀ op ∈ Tag.all, ∀ p ∈ binaryLevels? op, p.right ≠ .e1 := by decide
    injection loosest with loosest
    exact absurd loosest.symm (all op op.mem_all p isBinary)
  | firstArg | nextArg => cases loosest
  | plain ms outer => cases outer <;> rfl
  | label | optionalLabel => rfl

/-- Above an expression of the loosest level all operators go on, and the rest ends it. -/
theorem Place.nextAction_above
    (goal : Goal)
    (ms : List Mark)
    (la : Tag)
    (place : Place goal (.operand .e1) ms) :
    nextAction goal la (.expr :: ms)
      = if la = .text .postfixOp ∨ (binaryLevels? la).isSome then .shift
        else closeExpr goal la ms := by
  simp only [nextAction, onExpr, place.operatorBelow_eq_none goal ms la, binding?_isSome]
  by_cases isPostfix : la = .text .postfixOp
  · rw [if_pos isPostfix, if_pos (Or.inl isPostfix)]
  · rw [if_neg isPostfix]
    simp only [isPostfix, false_or]

theorem leftLevel_of_endsArg
    (la : Tag)
    (ends : endsArg la = true) :
    leftLevel la ≤ .e1 ∧ la ≠ .reserved .lparen
      ∧ ¬ (la = .text .postfixOp ∨ (binaryLevels? la).isSome) := by
  have all : ∀ t ∈ Tag.all, endsArg t = true → leftLevel t ≤ .e1 ∧ t ≠ .reserved .lparen
      ∧ ¬ (t = .text .postfixOp ∨ (binaryLevels? t).isSome) := by decide
  exact all la la.mem_all ends

theorem Place.nextAction_above_of_endsArg
    (goal : Goal)
    (ms : List Mark)
    (la : Tag)
    (place : Place goal (.operand .e1) ms)
    (ends : endsArg la = true) :
    nextAction goal la (.expr :: ms) = closeExpr goal la ms := by
  rw [place.nextAction_above goal ms la, if_neg (leftLevel_of_endsArg la ends).2.2]

theorem Place.closeExpr_eq
    (goal : Goal)
    (ms : List Mark)
    (la : Tag)
    (place : Place goal .argument ms) :
    closeExpr goal la ms = .reduceIf (endsArg la) .argument := by
  cases place <;> rfl

theorem closeExpr_label
    (goal : Goal)
    (ms : List Mark)
    (la : Tag) :
    closeExpr goal la
        (.token (.reserved .equal) :: .token (.text .lowerIdent) :: .token (.reserved .tilde) :: ms)
      = .reduceIf (endsArg la) .labeledArgument := rfl

theorem closeExpr_optionalLabel
    (goal : Goal)
    (ms : List Mark)
    (la : Tag) :
    closeExpr goal la (.token (.reserved .question) :: ms)
      = .reduceIf (endsArg la) .labeledArgument := rfl

theorem Place.shift_of_binary
    (goal : Goal)
    (l : Level)
    (ms : List Mark)
    (la : Tag)
    (q : BinaryLevels)
    (place : Place goal (.operand l) ms)
    (isBinary : binaryLevels? la = some q)
    (fits : l ≤ q.whole) :
    nextAction goal la (.expr :: ms) = .shift := by
  have loosest : Place goal (.operand .e1) ms → nextAction goal la (.expr :: ms) = .shift := by
    intro place
    rw [place.nextAction_above goal ms la, isBinary]
    simp
  cases place with
  | unary =>
    have bounds := (binaryLevels?_bounds la q isBinary).2.2.2
    exact absurd (Level.le_trans _ _ _ fits bounds) (by decide)
  | binary op p ms isBinary' =>
    rw [nextAction_above_binary goal la ms op p isBinary', if_neg]
    rw [leftLevel_of_binary la q isBinary]
    exact (right_le_whole_iff op la p q isBinary' isBinary).mp fits
  | opening _ opens => exact loosest (.opening _ opens)
  | group l ms outer => exact loosest (.group l ms outer)
  | plain _ outer => exact loosest (.plain _ outer)
  | label ms => exact loosest (.label ms)
  | optionalLabel ms => exact loosest (.optionalLabel ms)

theorem Place.fits_of_shift
    (goal : Goal)
    (l : Level)
    (ms : List Mark)
    (la : Tag)
    (q : BinaryLevels)
    (place : Place goal (.operand l) ms)
    (isBinary : binaryLevels? la = some q)
    (taken : nextAction goal la (.expr :: ms) = .shift) :
    l ≤ q.whole := by
  cases place with
  | unary op m ms isUnary outer =>
    rw [nextAction_above_unary goal la ms op isUnary (outer.clear goal _ ms)] at taken
    split at taken
    · next isPostfix =>
      rw [isPostfix] at isBinary
      cases isBinary
    · cases taken
  | binary op p ms isBinary' =>
    rw [nextAction_above_binary goal la ms op p isBinary'] at taken
    split at taken
    · cases taken
    · next reaches =>
      rw [leftLevel_of_binary la q isBinary] at reaches
      exact (right_le_whole_iff op la p q isBinary' isBinary).mpr reaches
  | _ => exact Level.e1_le q.whole

theorem Opening.closeExpr_ne_shift
    (goal : Goal)
    (ms : List Mark)
    (la : Tag)
    (opens : Opening goal ms) :
    closeExpr goal la ms ≠ .shift := by
  cases opens with
  | bottom single =>
    rcases single with rfl | rfl
    · simp only [closeExpr, if_true]
      split <;> simp
    · simp only [closeExpr, Action.reduceIf, reduceCtorEq, if_false]
      split <;> simp
  | items | documented | bound =>
    simp only [closeExpr, isLabel, isBinder, Action.reduceIf, if_true, Bool.false_eq_true, if_false]
    split <;> simp

end TolerantParser.Mini
