import TolerantParser.Automaton
import TolerantParser.Mini.Reduction

/-! # The miniature automaton

A shift/reduce automaton that recognises every goal of the miniature grammar.  A token that cannot
be taken up is refused with the stack as far as it was reduced.  `rank` bounds the internal steps,
by three for each symbol on the stack and three more (`rank_le`). -/

set_option autoImplicit false

namespace TolerantParser.Mini

def consult (goal : Goal) (stack : Stack) (t : Token) : Checkpoint Env Tree :=
  match nextAction goal t.tag stack.marks with
  | .shift => .shifting ⟨goal, stack, some t⟩
  | .reduce _ => .aboutToReduce ⟨goal, stack, some t⟩
  | .accept =>
    match acceptedValue? goal stack with
    | some value => .accepted value
    | none => .handlingError ⟨goal, stack, some t⟩
  | .error => .handlingError ⟨goal, stack, some t⟩

def reduced? (goal : Goal) (stack : Stack) (la : Tag) : Option Stack :=
  match nextAction goal la stack.marks with
  | .reduce r => r.apply stack
  | _ => none

def startStack : Goal → Stack
  | .implementation => [.items [] true]
  | .interface => [.items [] true]
  | .useFile => [.items [] true]
  | .expression => []
  | .coreType => []
  | .toplevelPhrase => []

def start (goal : Goal) (_ : Offset) : Checkpoint Env Tree :=
  .inputNeeded ⟨goal, startStack goal, none⟩

def offer (env : Env) (t : Token) : Checkpoint Env Tree := consult env.goal env.stack t

def resume : Checkpoint Env Tree → Checkpoint Env Tree
  | .shifting ⟨goal, stack, some t⟩ => .inputNeeded ⟨goal, .token t :: stack, none⟩
  | .shifting ⟨_, _, none⟩ => .rejected
  | .aboutToReduce ⟨goal, stack, some t⟩ =>
    match reduced? goal stack t.tag with
    | some stack => consult goal stack t
    | none => .rejected
  | .aboutToReduce ⟨_, _, none⟩ => .rejected
  | .handlingError _ => .rejected
  | c => c

def rank : Checkpoint Env Tree → Nat
  | .shifting _ => 1
  | .aboutToReduce env => env.stack.energy + 1
  | _ => 0

theorem rank_consult_le
    (goal : Goal)
    (stack : Stack)
    (t : Token) :
    rank (consult goal stack t) ≤ stack.energy + 1 := by
  unfold consult
  split
  · simp [rank]
  · simp [rank]
  · split <;> simp [rank]
  · simp [rank]

theorem energy_reduced?_lt
    (goal : Goal)
    (stack stack' : Stack)
    (la : Tag)
    (h : reduced? goal stack la = some stack') :
    stack'.energy < stack.energy := by
  unfold reduced? at h
  split at h
  · next r hr => exact energy_apply_lt goal la stack stack' r hr h
  · cases h

theorem rank_resume_lt
    (c : Checkpoint Env Tree)
    (hc : c.isInternal = true) :
    rank (resume c) < rank c := by
  cases c with
  | shifting env =>
    obtain ⟨goal, stack, _ | t⟩ := env <;> simp [resume, rank]
  | aboutToReduce env =>
    obtain ⟨goal, stack, _ | t⟩ := env
    · simp [resume, rank]
    · simp only [resume]
      split
      · next stack' h =>
        have hle := rank_consult_le goal stack' t
        have hlt := energy_reduced?_lt goal stack stack' t.tag h
        simp only [rank] at hle ⊢
        omega
      · simp [rank]
  | inputNeeded | handlingError | accepted | rejected => cases hc

def automaton : Automaton Env Tree where
  start := start
  offer := offer
  resume := resume
  rank := rank
  rank_resume_lt := rank_resume_lt

/-- Three internal steps for each symbol on the stack, and three more, are always enough. -/
theorem rank_le
    (c : Checkpoint Env Tree)
    (env : Env)
    (henv : c.env? = some env) :
    rank c ≤ 3 * env.depth + 3 := by
  have henergy : env.stack.energy ≤ 3 * env.depth + 2 := by
    unfold Env.depth
    cases env.stack with
    | nil => simp [Stack.energy]
    | cons top below =>
      have hle := Stack.energy_cons_le top below
      have hweight : top.weight ≤ 2 := by cases top <;> simp [Symbol.weight]
      simp only [List.length_cons]
      omega
  cases c <;> simp only [Checkpoint.env?, Option.some.injEq, reduceCtorEq] at henv
    <;> subst henv <;> simp only [rank] <;> omega

end TolerantParser.Mini
