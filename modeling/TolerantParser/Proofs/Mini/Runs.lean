import TolerantParser.Proofs.Mini.Words

/-! # The runs of a text

A run of a text is a stretch of it without a blank that cannot be made any longer.  The words of a
text are its runs, all of them (`Word.mem_split_iff`), in order and apart (`Word.pairwise_split`).
The words of runs that are set one space apart are these runs, each at its place
(`Word.split_intercalate`). -/

set_option autoImplicit false

namespace TolerantParser.Mini

def Opens (before : List Char) : Prop := ∀ c ∈ before.getLast?, Text.isBlank c = true

/-- The word stands between the two parts of a text that starts at byte `pos`, and could not be any
longer. -/
structure Word.Between (before after : List Char) (pos : Nat) (w : Word) : Prop where
  isWord : IsWord w.chars
  start : w.start = pos + Text.byteWidth before
  opens : Opens before
  breaks : Breaks after

/-- The word is a run of a text that starts at byte `pos`. -/
def Word.IsRun (cs : List Char) (pos : Nat) (w : Word) : Prop :=
  ∃ before after, cs = before ++ (w.chars ++ after) ∧ w.Between before after pos

/-! ## The ends of a run -/

theorem opens_nil : Opens [] := by
  intro c isLast
  cases isLast

theorem opens_cons_iff
    (c : Char)
    (before : List Char)
    (blank : Text.isBlank c = true) :
    Opens (c :: before) ↔ Opens before := by
  unfold Opens
  rw [List.getLast?_cons]
  cases before.getLast? <;> simp [blank]

theorem opens_append_iff
    (us before : List Char)
    (nonempty : before ≠ []) :
    Opens (us ++ before) ↔ Opens before := by
  obtain ⟨c, isLast⟩ := Option.ne_none_iff_exists'.mp (mt List.getLast?_eq_none_iff.mp nonempty)
  simp only [Opens, List.getLast?_append, isLast, Option.some_or]

theorem not_opens_of_unbroken
    (before : List Char)
    (nonempty : before ≠ [])
    (unbroken : ∀ c ∈ before, Text.isBlank c = false) :
    ¬ Opens before := by
  intro opens
  obtain ⟨c, isLast⟩ := Option.ne_none_iff_exists'.mp (mt List.getLast?_eq_none_iff.mp nonempty)
  have inside := unbroken c (List.mem_of_getLast? isLast)
  rw [opens c isLast] at inside
  cases inside

theorem IsWord.not_breaks
    (run after : List Char)
    (isWord : IsWord run) :
    ¬ Breaks (run ++ after) := by
  intro breaks
  obtain ⟨c, cs, rfl⟩ := List.exists_cons_of_ne_nil isWord.nonempty
  have inside := isWord.unbroken c List.mem_cons_self
  rw [breaks c rfl] at inside
  cases inside

theorem IsWord.takeWhile_append
    (run rest : List Char)
    (isWord : IsWord run)
    (breaks : Breaks rest) :
    (run ++ rest).takeWhile (!Text.isBlank ·) = run := by
  rw [List.takeWhile_append_of_pos fun c member => by simp [isWord.unbroken c member]]
  cases rest with
  | nil => simp
  | cons c cs => simp [breaks c rfl]

namespace Word

/-! ## The words are the runs -/

theorem isRun_blank_iff
    (c : Char)
    (cs : List Char)
    (pos : Nat)
    (w : Word)
    (blank : Text.isBlank c = true) :
    w.IsRun (c :: cs) pos ↔ w.IsRun cs (pos + c.utf8Size) := by
  constructor
  · rintro ⟨before, after, whole, isWord, start, opens, breaks⟩
    cases before with
    | nil =>
      -- the run itself would begin with the blank
      have begun : Breaks (w.chars ++ after) := by
        rw [List.nil_append] at whole
        rw [← whole]
        rintro d ⟨⟩
        exact blank
      exact absurd begun (isWord.not_breaks w.chars after)
    | cons d before =>
      obtain ⟨rfl, behind⟩ := List.cons.inj whole
      refine ⟨before, after, behind, isWord, ?_, (opens_cons_iff c before blank).mp opens, breaks⟩
      rw [start, Text.byteWidth, Nat.add_assoc]
  · rintro ⟨before, after, rfl, isWord, start, opens, breaks⟩
    refine ⟨c :: before, after, rfl, isWord, ?_, (opens_cons_iff c before blank).mpr opens, breaks⟩
    rw [start, Text.byteWidth, Nat.add_assoc]

theorem isRun_run_iff
    (run rest : List Char)
    (pos : Nat)
    (w : Word)
    (isWord : IsWord run)
    (breaks : Breaks rest) :
    w.IsRun (run ++ rest) pos
      ↔ w = ⟨run, pos⟩ ∨ w.IsRun rest (pos + Text.byteWidth run) := by
  constructor
  · rintro ⟨before, after, whole, isWord', start, opens, breaks'⟩
    by_cases atStart : before = []
    · left
      subst atStart
      rw [List.nil_append] at whole
      have same : run = w.chars := by
        rw [← isWord.takeWhile_append run rest breaks, whole, isWord'.takeWhile_append _ _ breaks']
      obtain ⟨chars, first⟩ := w
      simp only [Text.byteWidth, Nat.add_zero] at start
      rw [same, start]
    · right
      rcases List.append_eq_append_iff.mp whole with ⟨gap, rfl, behind⟩ | ⟨end', rfl, _⟩
      · have further : gap ≠ [] := by
          rintro rfl
          rw [List.append_nil] at opens
          exact not_opens_of_unbroken run isWord.nonempty isWord.unbroken opens
        refine ⟨gap, after, behind, isWord', ?_, (opens_append_iff run gap further).mp opens,
          breaks'⟩
        rw [start, Text.byteWidth_append, Nat.add_assoc]
      · -- the word would begin inside the run
        have unbroken : ∀ c ∈ before, Text.isBlank c = false := fun c member =>
          isWord.unbroken c (List.mem_append_left end' member)
        exact absurd opens (not_opens_of_unbroken before atStart unbroken)
  · rintro (rfl | ⟨before, after, rfl, isWord', start, opens, breaks'⟩)
    · exact ⟨[], rest, rfl, isWord, rfl, opens_nil, breaks⟩
    · have further : before ≠ [] := by
        rintro rfl
        exact isWord'.not_breaks w.chars after breaks
      refine ⟨run ++ before, after, (List.append_assoc ..).symm, isWord', ?_,
        (opens_append_iff run before further).mpr opens, breaks'⟩
      rw [start, Text.byteWidth_append, Nat.add_assoc]

theorem mem_split_iff
    (cs : List Char)
    (pos : Nat)
    (w : Word) :
    w ∈ split cs pos ↔ w.IsRun cs pos := by
  induction cs using runs_induction generalizing pos with
  | nil =>
    constructor
    · intro member
      cases member
    · rintro ⟨before, after, whole, isWord, _⟩
      have empty := List.append_eq_nil_iff.mp (List.append_eq_nil_iff.mp whole.symm).2
      exact absurd empty.1 isWord.nonempty
  | blank c cs isBlank ih => rw [split_blank c cs pos isBlank, isRun_blank_iff c cs pos w isBlank, ih]
  | run run rest isWord breaks ih =>
    rw [split_run run rest pos isWord breaks, isRun_run_iff run rest pos w isWord breaks,
      List.mem_cons, ih]

theorem pairwise_split
    (cs : List Char)
    (pos : Nat) :
    (split cs pos).Pairwise fun v w => v.start + v.width < w.start := by
  induction cs using runs_induction generalizing pos with
  | nil => exact .nil
  | blank c cs isBlank ih =>
    rw [split_blank c cs pos isBlank]
    exact ih _
  | run run rest isWord breaks ih =>
    rw [split_run run rest pos isWord breaks]
    exact .cons (fun w => lt_start_of_breaks rest _ w breaks) (ih _)

/-! ## Words one space apart -/

/-- The words that the runs are if they are set one space apart from byte `pos` on: each starts
behind the bytes of the ones in front of it and one more for each space. -/
def spaced (pos : Nat) : List (List Char) → List Word
  | [] => []
  | run :: runs => ⟨run, pos⟩ :: spaced (pos + Text.byteWidth run + 1) runs

theorem map_chars_spaced
    (runs : List (List Char))
    (pos : Nat) :
    (spaced pos runs).map chars = runs := by
  induction runs generalizing pos with
  | nil => rfl
  | cons run runs ih => rw [spaced, List.map_cons, ih]

theorem split_intercalate
    (runs : List (List Char))
    (pos : Nat)
    (areWords : ∀ run ∈ runs, IsWord run) :
    split ([' '].intercalate runs) pos = spaced pos runs := by
  induction runs generalizing pos with
  | nil => rfl
  | cons run runs ih =>
    have isWord := areWords run List.mem_cons_self
    have later : ∀ run ∈ runs, IsWord run := fun run member =>
      areWords run (List.mem_cons_of_mem _ member)
    cases runs with
    | nil =>
      rw [List.intercalate_singleton, ← List.append_nil run, split_run run [] pos isWord breaks_nil,
        List.append_nil]
      rfl
    | cons next runs =>
      have breaks : Breaks ([' '] ++ [' '].intercalate (next :: runs)) := by
        rintro c ⟨⟩
        rfl
      rw [List.intercalate_cons_cons, List.append_assoc, split_run run _ pos isWord breaks,
        List.singleton_append, split_blank ' ' _ _ rfl, ih _ later]
      rfl

end Word

end TolerantParser.Mini
