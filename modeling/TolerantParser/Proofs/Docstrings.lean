import Mathlib.Data.List.Forall2
import TolerantParser.Diagnostic

/-! # Collections of doc comments as plain lists

Collections of doc comments are made from each other and share their older parts.  A program makes
some, each from any that it has made before, and compares them.  It runs on every type that has the
`Operations`: with `linked` it makes the collections that parser states hold, with `plain` the lists
of what was pushed.  The two runs are one through `toList`, instruction by instruction
(`view_step`), and nothing that is made is changed later on.  So what a collection answers is what
the plain list answers (`run_represents`). -/

set_option autoImplicit false

namespace TolerantParser.Docstrings

/-- What a program can do next.  The collections made so far are numbered in their order, and an
instruction about a number that there is no collection for does nothing. -/
inductive Instruction
  | new
  | push (i : Nat) (d : Docstring)
  | collect (ds : List Docstring)
  | copy (i : Nat)
  | compare (i j : Nat)

structure Operations (α : Type) where
  empty : α
  push : α → Docstring → α
  ofList : List Docstring → α
  same : α → α → Bool

/-- The collections that a program has made, and what its comparisons came to. -/
structure Store (α : Type) where
  made : List α
  answers : List Bool

def linked : Operations Docstrings := ⟨.empty, .push, .ofList, same⟩

def plain : Operations (List Docstring) := ⟨[], fun l d => l ++ [d], id, (· == ·)⟩

namespace Operations

variable {α : Type}

def step (ops : Operations α) (s : Store α) : Instruction → Store α
  | .new => { s with made := s.made ++ [ops.empty] }
  | .push i d => { s with made := s.made ++ (s.made[i]?.map (ops.push · d)).toList }
  | .collect ds => { s with made := s.made ++ [ops.ofList ds] }
  | .copy i => { s with made := s.made ++ s.made[i]?.toList }
  | .compare i j =>
    match s.made[i]?, s.made[j]? with
    | some a, some b => { s with answers := s.answers ++ [ops.same a b] }
    | _, _ => s

def run (ops : Operations α) (program : List Instruction) : Store α :=
  program.foldl ops.step ⟨[], []⟩

/-! ## What is made stays -/

theorem made_prefix_step
    (ops : Operations α)
    (s : Store α)
    (i : Instruction) :
    s.made <+: (ops.step s i).made := by
  cases i with
  | new | push | collect | copy => exact List.prefix_append _ _
  | compare i j =>
    simp only [step]
    split
    · exact List.prefix_rfl
    · exact List.prefix_rfl

theorem made_prefix_run
    (ops : Operations α)
    (program rest : List Instruction) :
    (ops.run program).made <+: (ops.run (program ++ rest)).made := by
  have later : ∀ s : Store α, s.made <+: (rest.foldl ops.step s).made := by
    induction rest with
    | nil => exact fun s => List.prefix_rfl
    | cons i rest ih => exact fun s => (ops.made_prefix_step s i).trans (ih (ops.step s i))
  rw [run, run, List.foldl_append]
  exact later _

end Operations

/-! ## The two runs -/

def Store.view (s : Store Docstrings) : Store (List Docstring) := ⟨s.made.map toList, s.answers⟩

theorem same_eq_beq_toList (ds es : Docstrings) : ds.same es = (ds.toList == es.toList) := by
  rw [Bool.eq_iff_iff, same_iff, beq_iff_eq]
  exact ⟨congrArg toList, ext_toList ds es⟩

theorem view_step
    (s : Store Docstrings)
    (i : Instruction) :
    (linked.step s i).view = plain.step s.view i := by
  cases i with
  | new => simp [Operations.step, Store.view, linked, plain]
  | push i d =>
    simp only [Operations.step, Store.view, linked, plain, List.map_append, List.getElem?_map]
    cases s.made[i]? <;> simp
  | collect ds => simp [Operations.step, Store.view, linked, plain]
  | copy i =>
    simp only [Operations.step, Store.view, List.map_append, List.getElem?_map]
    cases s.made[i]? <;> simp
  | compare i j =>
    simp only [Operations.step, Store.view, List.getElem?_map]
    cases s.made[i]? with
    | none => rfl
    | some ds =>
      cases s.made[j]? with
      | none => rfl
      | some es => simp only [Option.map_some, linked, plain, same_eq_beq_toList]

theorem view_run (program : List Instruction) : (linked.run program).view = plain.run program := by
  have through : ∀ s : Store Docstrings,
      (program.foldl linked.step s).view = program.foldl plain.step s.view := by
    induction program with
    | nil => exact fun s => rfl
    | cons i rest ih =>
      intro s
      rw [List.foldl_cons, List.foldl_cons, ih, view_step]
  exact through ⟨[], []⟩

/-- Whatever is asked of the collection, its answer is that of the list. -/
structure Represents (ds : Docstrings) (l : List Docstring) : Prop where
  forwards : ds.toList = l
  backwards : ds.newestFirst = l.reverse
  size : ds.size = l.length
  isEmpty : ds.isEmpty = true ↔ l = []
  warnings : List.Forall₂ (fun w d => w.cause = .detachedDocComment ∧ w.span = d.span) ds.warnings l

theorem represents_toList (ds : Docstrings) : ds.Represents ds.toList where
  forwards := rfl
  backwards := by rw [toList, List.reverse_reverse]
  size := ds.size_eq
  isEmpty := by rw [isEmpty, beq_iff_eq, size_eq, List.length_eq_zero_iff]
  warnings := by
    rw [Docstrings.warnings, List.forall₂_map_left_iff, List.forall₂_same]
    exact fun _ _ => ⟨rfl, rfl⟩

/-- After every program, each collection that was made represents the list of the doc comments that
were pushed to it, in their order; comparisons come to what comparing the lists comes to, and two
collections are equal exactly if their entries are.  What the program goes on with leaves all of
them as they are. -/
theorem run_represents (program : List Instruction) :
    List.Forall₂ Represents (linked.run program).made (plain.run program).made
      ∧ (linked.run program).answers = (plain.run program).answers
      ∧ (∀ ds es : Docstrings, ds.same es = true ↔ ds.toList = es.toList)
      ∧ ∀ rest, (linked.run program).made <+: (linked.run (program ++ rest)).made := by
  have viewed := view_run program
  refine ⟨?_, congrArg Store.answers viewed, ?_, linked.made_prefix_run program⟩
  · rw [← viewed, Store.view, List.forall₂_map_right_iff, List.forall₂_same]
    exact fun ds _ => ds.represents_toList
  · intro ds es
    rw [same_eq_beq_toList, beq_iff_eq]

end TolerantParser.Docstrings
