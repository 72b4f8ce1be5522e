import TolerantParser.Proofs.Mini.Expression.Places

/-! # Operators around expressions

Level by level the grammar says which operator takes which operands, and it leaves out nothing that
could be written: an operator between any two expressions, before one or behind one is part of some
expression (`Operand.append_binary`, `Operand.unary_of`, `Operand.append_postfix`).  `Operand`
forgets the trees and what binds tighter than all prefix operators, so that there are few cases. -/

set_option autoImplicit false

namespace TolerantParser.Mini

inductive Operand : Level → List Token → Prop
  | tight (v : Tree) (us : List Token)
      (yields : Yields (.expr .e5 v) us) :
      Operand .e5 us
  | next (k l : Level) (us : List Token)
      (tighter : k.rank = l.rank + 1)
      (inner : Operand k us) :
      Operand l us
  | binary (op : Token) (p : BinaryLevels) (us vs : List Token)
      (isBinary : binaryLevels? op.tag = some p)
      (left : Operand p.left us)
      (right : Operand p.right vs) :
      Operand p.whole (us ++ op :: vs)
  | unary (op : Token) (text : String) (us : List Token)
      (spelled : prefixText? op.kind = some text)
      (inner : Operand .e4 us) :
      Operand .e4 (op :: us)

namespace Operand

theorem loosen
    (k l : Level)
    (us : List Token)
    (operand : Operand k us)
    (looser : l ≤ k) :
    Operand l us :=
  Level.descend (Operand · us) (fun k l => .next k l us) k l looser operand

theorem exists_yields
    (l : Level)
    (us : List Token)
    (operand : Operand l us) :
    ∃ v, Yields (.expr l v) us := by
  induction operand with
  | tight v us yields => exact ⟨v, yields⟩
  | next k l us tighter _ ih =>
    obtain ⟨v, yields⟩ := ih
    exact ⟨v, .next k l v us tighter yields⟩
  | binary op p us vs isBinary _ _ left right =>
    obtain ⟨a, left⟩ := left
    obtain ⟨b, right⟩ := right
    have spelled := infixText?_of_binary op.kind p isBinary
    exact ⟨_, .binary op p _ a b us vs isBinary spelled left right⟩
  | unary op text us spelled _ ih =>
    obtain ⟨v, inner⟩ := ih
    exact ⟨_, .unary op text v us spelled inner⟩

theorem left_le_e3
    (op : Tag)
    (p : BinaryLevels)
    (isBinary : binaryLevels? op = some p) :
    p.left ≤ .e3 := by
  have all : ∀ t ∈ Tag.all, ∀ p ∈ binaryLevels? t, p.left ≤ .e3 := by decide
  exact all op op.mem_all p isBinary

theorem of_yields
    (k : Level)
    (v : Tree)
    (us : List Token)
    (yields : Yields (.expr k v) us)
    (loose : k ≤ .e5) :
    Operand k us := by
  generalize phrase : Phrase.expr k v = p at yields
  have whole := yields
  induction yields generalizing k v with
  | next k' l' v us tighter inner ih =>
    cases phrase
    by_cases tightest : l' = .e5
    · subst tightest
      exact .tight v us whole
    · have bound : l'.rank ≤ 5 := loose
      have other : l'.rank ≠ 5 := mt (Level.rank_injective l' .e5) tightest
      have loose' : k'.rank ≤ 5 := by omega
      exact .next k' l' us tighter (ih k' v loose' rfl inner)
  | binary op p text a b us vs isBinary _ left right ihLeft ihRight =>
    cases phrase
    have leftBound := left_le_e3 op.tag p isBinary
    have rightBound := (binaryLevels?_bounds op.tag p isBinary).2.2.1
    exact .binary op p us vs isBinary
      (ihLeft p.left a (Level.le_trans _ _ _ leftBound (by decide)) rfl left)
      (ihRight p.right b (Level.le_trans _ _ _ rightBound (by decide)) rfl right)
  | unary op text v us spelled inner ih =>
    cases phrase
    exact .unary op text us spelled (ih .e4 v (by decide) rfl inner)
  | postfixed | extended =>
    cases phrase
    exact .tight _ _ whole
  | int | constr | var | group | call =>
    cases phrase
    exact absurd loose (by decide)
  | noArgs | firstArg | nextArg | plain | punned | labeled | optional => cases phrase

theorem iff_exists_yields
    (us : List Token) :
    Operand .e1 us ↔ ∃ v, Yields (.expr .e1 v) us := by
  constructor
  · exact exists_yields .e1 us
  · rintro ⟨v, yields⟩
    exact of_yields .e1 v us yields (by decide)

/-! ## One more operator -/

section Operators
variable (op : Token)

theorem binary_of_le
    (p : BinaryLevels)
    (k l : Level)
    (us vs : List Token)
    (isBinary : binaryLevels? op.tag = some p)
    (left : Operand k us)
    (right : Operand .e4 vs)
    (fits : p.left ≤ k)
    (looser : l ≤ p.whole) :
    Operand l (us ++ op :: vs) := by
  have rightBound := (binaryLevels?_bounds op.tag p isBinary).2.2.1
  have whole := Operand.binary op p us vs isBinary (left.loosen k _ us fits)
    (right.loosen .e4 _ vs rightBound)
  exact whole.loosen p.whole l _ looser

/-- An operand behind an expression belongs to the whole of it or to its right end, whichever the
operator between them leaves to it. -/
theorem append_operand
    (p : BinaryLevels)
    (k l : Level)
    (us vs : List Token)
    (isBinary : binaryLevels? op.tag = some p)
    (before : Operand k us)
    (operand : Operand .e4 vs)
    (loose : k ≤ .e3)
    (looser : l ≤ k)
    (looser' : l ≤ p.whole) :
    Operand l (us ++ op :: vs) := by
  -- down the right spine of the expression, to the operator whose right operand `op` does not take
  induction before generalizing l with
  | tight => exact absurd loose (by decide)
  | unary => exact absurd loose (by decide)
  | next k' k us tighter inner ih =>
    by_cases loose' : k' ≤ .e3
    · have closer : k ≤ k' := (Level.le_def _ _).mpr (by omega)
      exact ih l loose' (Level.le_trans _ _ _ looser closer) looser'
    · have fits : p.left ≤ k' := by
        have bound := left_le_e3 op.tag p isBinary
        rw [Level.le_def] at bound loose' ⊢
        omega
      exact binary_of_le op p k' l us vs isBinary inner operand fits looser'
  | binary op' q us ws isBinary' left right _ ih =>
    by_cases tighter : q.right ≤ p.whole
    · have wholeBound := (binaryLevels?_bounds op.tag p isBinary).2.2.2
      have longer := ih q.right (Level.le_trans _ _ _ tighter wholeBound) (Level.le_refl _) tighter
      have whole := Operand.binary op' q us _ isBinary' left longer
      rw [List.append_assoc]
      exact whole.loosen q.whole l _ looser
    · have belongs := right_le_whole_iff op'.tag op.tag q p isBinary' isBinary
      have fits : p.left ≤ q.whole := Decidable.not_not.mp (mt belongs.mpr tighter)
      exact binary_of_le op p q.whole l _ vs isBinary (.binary op' q us ws isBinary' left right)
        operand fits looser'

theorem append_binary
    (p : BinaryLevels)
    (k : Level)
    (us vs : List Token)
    (isBinary : binaryLevels? op.tag = some p)
    (left : Operand .e1 us)
    (right : Operand k vs) :
    Operand .e1 (us ++ op :: vs) := by
  have append : ∀ ws, Operand .e4 ws → Operand .e1 (us ++ op :: ws) := fun ws operand =>
    append_operand op p .e1 .e1 us ws isBinary left operand (by decide) (by decide)
      (Level.e1_le p.whole)
  induction right generalizing op p us with
  | tight v ws yields => exact append ws ((Operand.tight v ws yields).loosen .e5 .e4 ws (by decide))
  | unary op' text ws spelled inner => exact append _ (.unary op' text ws spelled inner)
  | next k' k ws tighter inner ih => exact ih op p us isBinary left append
  | binary op' q vs ws isBinary' _ _ ihLeft ihRight =>
    have first := ihLeft op p us isBinary left append
    have both := ihRight op' q (us ++ op :: vs) isBinary' first fun ws operand =>
      append_operand op' q .e1 .e1 _ ws isBinary' first operand (by decide) (by decide)
        (Level.e1_le q.whole)
    simpa using both

theorem unary_of
    (text : String)
    (k l : Level)
    (us : List Token)
    (spelled : prefixText? op.kind = some text)
    (operand : Operand k us)
    (looser : l ≤ k)
    (looser' : l ≤ .e4) :
    Operand l (op :: us) := by
  induction operand generalizing l with
  | tight v us yields =>
    have inner := (Operand.tight v us yields).loosen .e5 .e4 us (by decide)
    exact (Operand.unary op text us spelled inner).loosen .e4 l _ looser'
  | unary op' text' us spelled' inner =>
    have whole := Operand.unary op text _ spelled (.unary op' text' us spelled' inner)
    exact whole.loosen .e4 l _ looser'
  | next k' k us tighter inner ih =>
    have closer : k ≤ k' := (Level.le_def _ _).mpr (by omega)
    exact ih l (Level.le_trans _ _ _ looser closer) looser'
  | binary op' q us vs isBinary _ right ihLeft _ =>
    have bound : q.left ≤ .e4 :=
      Level.le_trans _ _ _ (left_le_e3 op'.tag q isBinary) (by decide)
    have left := ihLeft q.left (Level.le_refl _) bound
    exact (Operand.binary op' q (op :: us) vs isBinary left right).loosen q.whole l _ looser

theorem append_postfix
    (text : String)
    (k : Level)
    (us : List Token)
    (isPostfix : op.kind = .text .postfixOp text)
    (operand : Operand k us) :
    Operand k (us ++ [op]) := by
  induction operand with
  | tight v us yields => exact .tight _ _ (yields.applyPostfix op text v us isPostfix)
  | next k l us tighter _ ih => exact .next k l _ tighter ih
  | unary op' text' us spelled _ ih => exact .unary op' text' _ spelled ih
  | binary op' p us vs isBinary left _ _ ih =>
    have whole := Operand.binary op' p us _ isBinary left ih
    simpa using whole

end Operators

end Operand

end TolerantParser.Mini
