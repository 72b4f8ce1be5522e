import TolerantParser.Mini.Decision

/-! # Reductions of the miniature automaton

A reduction replaces symbols at the top of the stack by the phrase that they form, and has no
result where the stack does not hold such symbols.  Symbols that a reduction drops without looking
at them may be missing at the bottom of the stack.

`energy` bounds the reductions that can follow each other before a token is taken up.  The main
fact, `energy_apply_lt`, says that a reduction on which the automaton has decided uses some of it
up: it makes the stack shorter, or turns its top symbol into one that is closer to a phrase, or
opens a call, above which nothing is reduced. -/

set_option autoImplicit false

namespace TolerantParser.Mini

def Tree.ofAtom? : Kind → Option Tree
  | .text .int s => some (.int s)
  | .text .lowerIdent s => some (.var s)
  | .text .upperIdent s => some (.constr s)
  | _ => none

/-- Adds an argument to the open call, from which a comma may part it. -/
def appendArg (arg : Tree) : Stack → Option Stack
  | .args as :: s => some (.args (as ++ [arg]) :: s)
  | .token comma :: .args as :: s =>
    if comma.tag = .reserved .comma then some (.args (as ++ [arg]) :: s) else none
  | _ => none

/-- Adds a value with the label that stands before it; with a question mark in between, the label
is optional. -/
def appendLabeled (value : Tree) : Stack → Option Stack
  | .token mark :: s =>
    if mark.tag = .reserved .question then
      match s with
      | _ :: .token label :: s =>
        label.kind.text?.bind fun l => appendArg (.labeled l true (some value)) (s.drop 1)
      | _ => none
    else plain s
  | _ :: s => plain s
  | [] => none
where
  plain : Stack → Option Stack
    | .token label :: s =>
      label.kind.text?.bind fun l => appendArg (.labeled l false (some value)) (s.drop 1)
    | _ => none

namespace Reduction

def apply (r : Reduction) (stack : Stack) : Option Stack :=
  match r with
  | atom =>
    match stack with
    | .token t :: s => (Tree.ofAtom? t.kind).map fun e => .expr e :: s
    | _ => none
  | group =>
    match stack with
    | _ :: .expr e :: s => some (.expr e :: s.drop 1)
    | _ => none
  | openCall => some (.args [] :: stack)
  | closeCall =>
    match stack with
    | _ :: .args as :: _ :: .token callee :: s =>
      callee.kind.text?.map fun f => .expr (.call f as) :: s
    | _ => none
  | argument =>
    match stack with
    | .expr e :: s => appendArg e s
    | _ => none
  | punnedLabel =>
    match stack with
    | .token label :: s =>
      label.kind.text?.bind fun l => appendArg (.labeled l false none) (s.drop 1)
    | _ => none
  | labeledArgument =>
    match stack with
    | .expr e :: s => appendLabeled e s
    | _ => none
  | unaryOp =>
    match stack with
    | .expr e :: .token op :: s => some (.expr (.unary op.kind.wording e) :: s)
    | _ => none
  | postfixOp =>
    match stack with
    | .token op :: .expr e :: s => some (.expr (e.applyPostfix op.kind.wording) :: s)
    | _ => none
  | binaryOp =>
    match stack with
    | .expr b :: .token op :: .expr a :: s => some (.expr (.binary op.kind.wording a b) :: s)
    | _ => none
  | typeName =>
    match stack with
    | .token t :: s => t.kind.text?.map fun n => .type (.typeCon n) :: s
    | _ => none
  | typeApplication =>
    match stack with
    | .token t :: .type arg :: s => t.kind.text?.map fun n => .type (.typeApp arg n) :: s
    | _ => none
  | exprItem =>
    match stack with
    | .expr e :: s => some (.item e :: s)
    | _ => none
  | letItem =>
    match stack with
    | .expr e :: _ :: .token name :: s =>
      name.kind.text?.map fun n => .item (.letItem n e) :: s.drop 1
    | _ => none
  | valItem =>
    match stack with
    | .type t :: _ :: .token name :: s =>
      name.kind.text?.map fun n => .item (.valItem n t) :: s.drop 1
    | _ => none
  | openItem =>
    match stack with
    | .token name :: s => name.kind.text?.map fun n => .item (.openItem n) :: s.drop 1
    | _ => none
  | docItem =>
    match stack with
    | .item i :: .token doc :: s => doc.kind.text?.map fun d => .item (.documented d i) :: s
    | _ => none
  | appendItem =>
    match stack with
    | .item i :: .items is _ :: s => some (.items (is ++ [i]) false :: s)
    | _ => none
  | closeItem =>
    match stack with
    | _ :: .items is _ :: s => some (.items is true :: s)
    | _ => none

end Reduction

/-- The value of a stack that holds nothing but the phrase of the goal. -/
def acceptedValue? : Goal → Stack → Option Tree
  | .implementation, [.items is _] => some (.implementation is)
  | .interface, [.items is _] => some (.signature is)
  | .useFile, [.items is _] => some (.phrases is)
  | .expression, [.expr e] => some e
  | .coreType, [.type t] => some t
  | .toplevelPhrase, [.item i] => some i
  | _, _ => none

/-! ## Reductions run out -/

/-- How often a symbol can be replaced where it stands. -/
def Symbol.weight : Symbol → Nat
  | token _ => 2
  | expr _ => 1
  | type _ => 1
  | _ => 0

def Stack.energy : Stack → Nat
  | [] => 0
  | .args _ :: _ => 0
  | top :: below => 3 * (below.length + 1) + top.weight

theorem Stack.energy_cons_le
    (top : Symbol)
    (below : Stack) :
    Stack.energy (top :: below) ≤ 3 * (below.length + 1) + top.weight := by
  cases top <;> simp [Stack.energy]

/-- Nothing is reduced on an empty stack or above an open call, and elsewhere the energy is what
the formula says. -/
theorem energy_of_nextAction_eq_reduce
    (goal : Goal)
    (la : Tag)
    (s : Stack)
    (r : Reduction)
    (hnext : nextAction goal la s.marks = .reduce r) :
    ∃ top below, s = top :: below ∧ s.energy = 3 * (below.length + 1) + top.weight := by
  cases s with
  | nil =>
    simp only [Stack.marks, List.map_nil, nextAction, onEmpty, Action.shiftIf] at hnext
    split at hnext <;> (try split at hnext) <;> cases hnext
  | cons top below =>
    refine ⟨top, below, rfl, ?_⟩
    cases top with
    | args as =>
      simp only [Stack.marks, List.map_cons, Symbol.mark, nextAction, onArgs, Action.shiftIf]
        at hnext
      split at hnext <;> (try split at hnext) <;> cases hnext
    | token | expr | type | item | items => rfl

theorem energy_appendArg
    (arg : Tree)
    (s s' : Stack)
    (h : appendArg arg s = some s') :
    s'.energy = 0 := by
  unfold appendArg at h
  split at h
  · cases h; rfl
  · split at h
    · cases h; rfl
    · cases h
  · cases h

theorem energy_appendLabeled
    (value : Tree)
    (s s' : Stack)
    (h : appendLabeled value s = some s') :
    s'.energy = 0 := by
  have hplain : ∀ s, appendLabeled.plain value s = some s' → s'.energy = 0 := by
    intro s h
    unfold appendLabeled.plain at h
    split at h
    · obtain ⟨l, _, h⟩ := Option.bind_eq_some_iff.mp h
      exact energy_appendArg _ _ _ h
    · cases h
  unfold appendLabeled at h
  split at h
  · split at h
    · split at h
      · obtain ⟨l, _, h⟩ := Option.bind_eq_some_iff.mp h
        exact energy_appendArg _ _ _ h
      · cases h
    · exact hplain _ h
  · exact hplain _ h
  · cases h

theorem energy_apply_lt
    (goal : Goal)
    (la : Tag)
    (s s' : Stack)
    (r : Reduction)
    (hnext : nextAction goal la s.marks = .reduce r)
    (happly : r.apply s = some s') :
    s'.energy < s.energy := by
  obtain ⟨top, below, rfl, henergy⟩ := energy_of_nextAction_eq_reduce goal la s r hnext
  rw [henergy]
  have hzero : s'.energy = 0 → s'.energy < 3 * (below.length + 1) + top.weight := by omega
  have hcons : ∀ x t, s' = x :: t → 3 * (t.length + 1) + x.weight
      < 3 * (below.length + 1) + top.weight → s'.energy < 3 * (below.length + 1) + top.weight := by
    rintro x t rfl h
    exact Nat.lt_of_le_of_lt (Stack.energy_cons_le x t) h
  cases r <;> simp only [Reduction.apply] at happly
  case openCall =>
    cases happly
    exact hzero rfl
  case argument =>
    split at happly
    · exact hzero (energy_appendArg _ _ _ happly)
    · cases happly
  case labeledArgument =>
    split at happly
    · exact hzero (energy_appendLabeled _ _ _ happly)
    · cases happly
  case punnedLabel =>
    split at happly
    · obtain ⟨l, _, happly⟩ := Option.bind_eq_some_iff.mp happly
      exact hzero (energy_appendArg _ _ _ happly)
    · cases happly
  all_goals
    split at happly
    · rename_i heq
      cases heq
      first
        | (cases happly
           refine hcons _ _ rfl ?_)
        | (obtain ⟨e, _, happly⟩ := Option.map_eq_some_iff.mp happly
           refine hcons _ _ happly.symm ?_)
      simp only [Symbol.weight, List.length_cons, List.length_drop]
      omega
    · cases happly

end TolerantParser.Mini
