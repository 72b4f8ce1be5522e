import TolerantParser.Proofs.Mini.Settling

/-! # How often the automaton is resumed

`Resumes A n c x` writes out the loop that settles a checkpoint: an internal one is resumed, and
any other one ends the loop.  The loop has one course at most (`Resumes.unique`), and the rank of
the checkpoint bounds it (`exists_resumes_le_rank`).  On the miniature automaton the rank is linear
in the stack, whatever stands on it, so that settling is too (`resumes_le_depth`). -/

set_option autoImplicit false

namespace TolerantParser

namespace Automaton

variable {Env Value : Type} (A : Automaton Env Value)

/-- The loop from the checkpoint `c` resumes `n` times and then stops at `x`. -/
inductive Resumes : Nat → Checkpoint Env Value → Settled Env Value → Prop
  | stop (c : Checkpoint Env Value) (x : Settled Env Value)
      (settled : c.settled? = some x) :
      Resumes 0 c x
  | resume (n : Nat) (c : Checkpoint Env Value) (x : Settled Env Value)
      (internal : c.isInternal = true)
      (rest : Resumes n (A.resume c) x) :
      Resumes (n + 1) c x

variable (c : Checkpoint Env Value)

theorem Resumes.unique
    (n m : Nat)
    (x y : Settled Env Value)
    (resumes : A.Resumes n c x)
    (resumes' : A.Resumes m c y) :
    n = m ∧ x = y := by
  induction resumes generalizing m with
  | stop c x settled =>
    cases resumes' with
    | stop _ _ settled' =>
      rw [settled] at settled'
      exact ⟨rfl, Option.some.inj settled'⟩
    | resume _ _ _ internal =>
      rw [c.settled?_eq_none_iff.mpr internal] at settled
      cases settled
  | resume n c x internal _ ih =>
    cases resumes' with
    | stop _ _ settled =>
      rw [c.settled?_eq_none_iff.mpr internal] at settled
      cases settled
    | resume m _ _ _ rest =>
      obtain ⟨sameNumber, sameEnd⟩ := ih m rest
      exact ⟨congrArg (· + 1) sameNumber, sameEnd⟩

theorem exists_resumes_le_rank : ∃ n, n ≤ A.rank c ∧ A.Resumes n c (A.settle c) := by
  induction rank : A.rank c using Nat.strongRecOn generalizing c with
  | ind r ih =>
    cases settled : c.settled? with
    | some x =>
      refine ⟨0, Nat.zero_le r, ?_⟩
      rw [A.settle_of_settled? c x settled]
      exact .stop c x settled
    | none =>
      have internal := c.settled?_eq_none_iff.mp settled
      have less := A.rank_resume_lt c internal
      obtain ⟨n, bound, resumes⟩ := ih (A.rank (A.resume c)) (by omega) (A.resume c) rfl
      refine ⟨n + 1, by omega, ?_⟩
      rw [A.settle_of_isInternal c internal]
      exact .resume n c _ internal resumes

end Automaton

namespace Mini

/-- The number of symbols on the stack of a checkpoint; one that has ended has no stack. -/
def depth (c : Checkpoint Env Tree) : Nat := c.env?.elim 0 Env.depth

theorem rank_le_depth (c : Checkpoint Env Tree) : rank c ≤ 3 * depth c + 3 := by
  cases holds : c.env? with
  | some env =>
    rw [depth, holds]
    exact rank_le c env holds
  | none => cases c <;> simp [Checkpoint.env?, rank] at *

theorem depth_offer_le
    (env : Env)
    (t : Token) :
    depth (automaton.offer env t) ≤ env.depth := by
  change depth (consult env.goal env.stack t) ≤ env.depth
  unfold consult
  split
  · exact Nat.le_refl _
  · exact Nat.le_refl _
  · split
    · exact Nat.zero_le _
    · exact Nat.le_refl _
  · exact Nat.le_refl _

theorem exists_resumes_le_depth
    (c : Checkpoint Env Tree) :
    ∃ n, n ≤ 3 * depth c + 3 ∧ automaton.Resumes n c (automaton.settle c)
      ∧ ∀ m x, automaton.Resumes m c x → m = n ∧ x = automaton.settle c := by
  obtain ⟨n, bound, resumes⟩ := automaton.exists_resumes_le_rank c
  refine ⟨n, Nat.le_trans bound (rank_le_depth c), resumes, fun m x resumes' => ?_⟩
  exact Automaton.Resumes.unique automaton c m n x _ resumes' resumes

/-- Settling stops at every checkpoint whatever, and resumes three times for each symbol on its
stack, and three times more, at most; there is no other course that it can take.  So it is for a
token that is offered to any environment, counted by the stack of the environment. -/
theorem resumes_le_depth :
    (∀ c : Checkpoint Env Tree,
        ∃ n, n ≤ 3 * depth c + 3 ∧ automaton.Resumes n c (automaton.settle c)
          ∧ ∀ m x, automaton.Resumes m c x → m = n ∧ x = automaton.settle c)
      ∧ ∀ (env : Env) (t : Token),
          ∃ n, n ≤ 3 * env.depth + 3
            ∧ automaton.Resumes n (automaton.offer env t) (automaton.offerSettled env t) := by
  refine ⟨exists_resumes_le_depth, fun env t => ?_⟩
  obtain ⟨n, bound, resumes, _⟩ := exists_resumes_le_depth (automaton.offer env t)
  have notDeeper := depth_offer_le env t
  exact ⟨n, by omega, resumes⟩

end Mini

end TolerantParser
