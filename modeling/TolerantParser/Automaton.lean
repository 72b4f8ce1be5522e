import TolerantParser.Goal
import TolerantParser.Token.Basic

/-! # Automata and their checkpoints

An automaton recognises token streams one token at a time.  What it answers with is a checkpoint:
it waits for the next token, it has an internal step to take, it has accepted, or it has failed.
A checkpoint can be kept and resumed from later, so trying a reading costs nothing but the try.

An automaton promises that internal steps run out: it measures each checkpoint by a number, and
resuming an internal checkpoint gives a smaller one.  `settle` resumes until nothing internal is
left; `settle_of_settled?` and `settle_of_isInternal` are its two equations. -/

set_option autoImplicit false

namespace TolerantParser

/-- A snapshot of an automaton with environments `Env` that accepts with a `Value`. -/
inductive Checkpoint (Env Value : Type)
  /-- waits for the next token -/
  | inputNeeded (env : Env)
  /-- about to take up the token it was offered -/
  | shifting (env : Env)
  /-- about to replace symbols by the phrase that they form -/
  | aboutToReduce (env : Env)
  /-- cannot take up the token it was offered -/
  | handlingError (env : Env)
  | accepted (value : Value)
  /-- has given up -/
  | rejected

inductive Breakdown (Env : Type)
  | handlingError (env : Env)
  | rejected

/-- A checkpoint with no internal step to take. -/
inductive Settled (Env Value : Type)
  | needsInput (env : Env)
  | accepted (value : Value)
  | failed (breakdown : Breakdown Env)

inductive Status
  | needsInput
  | internalOnly
  | accepted
  | failed
deriving DecidableEq

namespace Checkpoint

variable {Env Value : Type}

def status : Checkpoint Env Value → Status
  | inputNeeded _ => .needsInput
  | shifting _ => .internalOnly
  | aboutToReduce _ => .internalOnly
  | handlingError _ => .failed
  | accepted _ => .accepted
  | rejected => .failed

def isInternal (c : Checkpoint Env Value) : Bool := c.status == .internalOnly

/-- The environment of the checkpoint, unless it has accepted or given up. -/
def env? : Checkpoint Env Value → Option Env
  | inputNeeded env => some env
  | shifting env => some env
  | aboutToReduce env => some env
  | handlingError env => some env
  | accepted _ => none
  | rejected => none

def settled? : Checkpoint Env Value → Option (Settled Env Value)
  | inputNeeded env => some (.needsInput env)
  | shifting _ => none
  | aboutToReduce _ => none
  | handlingError env => some (.failed (.handlingError env))
  | accepted value => some (.accepted value)
  | rejected => some (.failed .rejected)

theorem settled?_eq_none_iff (c : Checkpoint Env Value) :
    c.settled? = none ↔ c.isInternal = true := by
  cases c <;> simp [settled?, isInternal, status]

end Checkpoint

structure Automaton (Env Value : Type) where
  /-- the checkpoint from which a goal is recognised, at an offset of the source -/
  start : Goal → Offset → Checkpoint Env Value
  /-- hands a token to an environment that waits for input -/
  offer : Env → Token → Checkpoint Env Value
  /-- takes one step without new input -/
  resume : Checkpoint Env Value → Checkpoint Env Value
  /-- a bound on the number of internal steps still to be taken -/
  rank : Checkpoint Env Value → Nat
  rank_resume_lt : ∀ c, c.isInternal = true → rank (resume c) < rank c

namespace Automaton

variable {Env Value : Type}

/-- Resumes while the checkpoint is internal, given a bound on the steps that this takes. -/
def settleWithin
    (A : Automaton Env Value) :
    (n : Nat) → (c : Checkpoint Env Value) → A.rank c ≤ n → Settled Env Value
  | 0, c, h => c.settled?.get (by
      have := A.rank_resume_lt c
      rw [Option.isSome_iff_ne_none, ne_eq, c.settled?_eq_none_iff]
      intro hc
      have := this hc
      omega)
  | n + 1, c, h =>
    match hc : c.settled? with
    | some s => s
    | none => A.settleWithin n (A.resume c) (by
        have := A.rank_resume_lt c (c.settled?_eq_none_iff.mp hc)
        omega)

def settle (A : Automaton Env Value) (c : Checkpoint Env Value) : Settled Env Value :=
  A.settleWithin (A.rank c) c (Nat.le_refl _)

def offerSettled (A : Automaton Env Value) (env : Env) (t : Token) : Settled Env Value :=
  A.settle (A.offer env t)

/-- Offers tokens in order, each of which has to leave the automaton waiting for more. -/
def offerAll (A : Automaton Env Value) (env : Env) : List Token → Option Env
  | [] => some env
  | t :: ts =>
    match A.offerSettled env t with
    | .needsInput next => A.offerAll next ts
    | _ => none

/-! ## The equations of `settle` -/

theorem settleWithin_of_settled?
    (A : Automaton Env Value)
    (n : Nat)
    (c : Checkpoint Env Value)
    (hn : A.rank c ≤ n)
    (s : Settled Env Value)
    (hs : c.settled? = some s) :
    A.settleWithin n c hn = s := by
  cases n with
  | zero => simp only [settleWithin, hs, Option.get_some]
  | succ n =>
    rw [settleWithin]
    split
    · next s' hs' => rw [hs] at hs'; cases hs'; rfl
    · next hs' => rw [hs] at hs'; cases hs'

theorem settleWithin_succ
    (A : Automaton Env Value)
    (n : Nat)
    (c : Checkpoint Env Value)
    (hn : A.rank c ≤ n + 1)
    (hc : c.isInternal = true)
    (hresume : A.rank (A.resume c) ≤ n) :
    A.settleWithin (n + 1) c hn = A.settleWithin n (A.resume c) hresume := by
  rw [settleWithin]
  split
  · next s hs =>
    have := c.settled?_eq_none_iff.mpr hc
    rw [hs] at this
    cases this
  · rfl

theorem settleWithin_eq
    (A : Automaton Env Value)
    (n m : Nat)
    (c : Checkpoint Env Value)
    (hn : A.rank c ≤ n)
    (hm : A.rank c ≤ m) :
    A.settleWithin n c hn = A.settleWithin m c hm := by
  induction n generalizing m c with
  | zero =>
    have hc : c.settled? ≠ none := by
      intro h
      have := A.rank_resume_lt c (c.settled?_eq_none_iff.mp h)
      omega
    obtain ⟨s, hs⟩ := Option.ne_none_iff_exists'.mp hc
    rw [A.settleWithin_of_settled? _ _ _ s hs, A.settleWithin_of_settled? _ _ _ s hs]
  | succ n ih =>
    cases hs : c.settled? with
    | some s => rw [A.settleWithin_of_settled? _ _ _ s hs, A.settleWithin_of_settled? _ _ _ s hs]
    | none =>
      have hc := c.settled?_eq_none_iff.mp hs
      have hlt := A.rank_resume_lt c hc
      cases m with
      | zero => omega
      | succ m =>
        rw [A.settleWithin_succ n c hn hc (by omega), A.settleWithin_succ m c hm hc (by omega)]
        exact ih m (A.resume c) _ _

theorem settle_of_settled?
    (A : Automaton Env Value)
    (c : Checkpoint Env Value)
    (s : Settled Env Value)
    (hs : c.settled? = some s) :
    A.settle c = s :=
  A.settleWithin_of_settled? _ c _ s hs

theorem settle_of_isInternal
    (A : Automaton Env Value)
    (c : Checkpoint Env Value)
    (hc : c.isInternal = true) :
    A.settle c = A.settle (A.resume c) := by
  have hlt := A.rank_resume_lt c hc
  unfold settle
  rw [A.settleWithin_eq (A.rank c) (A.rank c - 1 + 1) c (Nat.le_refl _) (by omega),
    A.settleWithin_succ _ c _ hc (by omega)]
  exact A.settleWithin_eq _ _ (A.resume c) _ _

end Automaton

end TolerantParser
