import Mathlib.Data.List.TakeWhile
import TolerantParser.Mini.Lexer

/-! # Words and their places

A text is empty, or begins with a blank, or is a run without a blank in front of another text
(`runs_induction`), and its words follow it case by case: a blank adds none, and a run in front is
the first one (`Word.split_run`).  So the words are the longest runs of characters that are not
blank (`map_chars_split`), and they do not depend on how the text is laid out.  Every token of a
text lies within the text (`span_of_mem_lex`). -/

set_option autoImplicit false

namespace TolerantParser.Mini

structure IsWord (run : List Char) : Prop where
  nonempty : run ≠ []
  unbroken : ∀ c ∈ run, Text.isBlank c = false

instance (run : List Char) : Decidable (IsWord run) :=
  decidable_of_iff (run ≠ [] ∧ run.all (!Text.isBlank ·) = true)
    ⟨fun ⟨nonempty, unbroken⟩ => ⟨nonempty, by simpa using unbroken⟩,
      fun ⟨nonempty, unbroken⟩ => ⟨nonempty, by simpa using unbroken⟩⟩

def Breaks (after : List Char) : Prop := ∀ c ∈ after.head?, Text.isBlank c = true

theorem breaks_nil : Breaks [] := by
  intro c isFirst
  cases isFirst

/-- What holds of the empty text, and of a text with a blank or a run in front of it if it does of
the text itself, holds of every text. -/
theorem runs_induction
    (P : List Char → Prop)
    (nil : P [])
    (blank : ∀ c cs, Text.isBlank c = true → P cs → P (c :: cs))
    (run : ∀ run rest, IsWord run → Breaks rest → P rest → P (run ++ rest))
    (cs : List Char) :
    P cs := by
  induction length : cs.length using Nat.strongRecOn generalizing cs with
  | ind n ih =>
    cases cs with
    | nil => exact nil
    | cons c cs =>
      cases isBlank : Text.isBlank c with
      | true => exact blank c cs isBlank (ih cs.length (by simp [← length]) cs rfl)
      | false =>
        let p : Char → Bool := fun c => !Text.isBlank c
        have first : (c :: cs).takeWhile p = c :: cs.takeWhile p :=
          List.takeWhile_cons_of_pos (by simp [p, isBlank])
        have behind : (c :: cs).dropWhile p = cs.dropWhile p :=
          List.dropWhile_cons_of_pos (by simp [p, isBlank])
        have isWord : IsWord (c :: cs.takeWhile p) := by
          refine ⟨List.cons_ne_nil c _, fun d member => ?_⟩
          rw [← first] at member
          simpa [p] using List.mem_takeWhile_imp member
        have breaks : Breaks (cs.dropWhile p) := by
          intro d head
          have stops := List.head?_dropWhile_not p cs
          rw [Option.mem_def.mp head] at stops
          simpa [p] using stops
        have shorter := (List.dropWhile_sublist p (l := cs)).length_le
        rw [← List.takeWhile_append_dropWhile (p := p) (l := c :: cs), first, behind]
        exact run _ _ isWord breaks (ih _ (by simp only [← length, List.length_cons]; omega) _ rfl)

namespace Word

theorem bounds_of_mem_split
    (cs : List Char)
    (pos : Nat)
    (w : Word)
    (member : w ∈ split cs pos) :
    pos ≤ w.start ∧ w.start + w.width ≤ pos + Text.byteWidth cs := by
  induction cs generalizing pos w with
  | nil => cases member
  | cons c cs ih =>
    have later : ∀ w ∈ split cs (pos + c.utf8Size),
        pos ≤ w.start ∧ w.start + w.width ≤ pos + Text.byteWidth (c :: cs) := by
      intro w member
      obtain ⟨lower, upper⟩ := ih _ w member
      rw [Text.byteWidth]
      omega
    have alone : pos + Word.width ⟨[c], pos⟩ ≤ pos + Text.byteWidth (c :: cs) := by
      simp only [width, Text.byteWidth]
      omega
    rw [split] at member
    split at member
    · exact later w member
    · unfold attach at member
      split at member
      · next first ws same =>
        rw [same] at later
        split at member
        · next adjacent =>
          rcases List.mem_cons.mp member with rfl | member
          · have bound := (later first (List.mem_cons_self ..)).2
            simp only [width, Text.byteWidth] at bound ⊢
            omega
          · exact later w (List.mem_cons_of_mem first member)
        · rcases List.mem_cons.mp member with rfl | member
          · exact ⟨Nat.le_refl _, alone⟩
          · exact later w member
      · rw [List.mem_singleton] at member
        subst member
        exact ⟨Nat.le_refl _, alone⟩

theorem split_blank
    (c : Char)
    (cs : List Char)
    (pos : Nat)
    (blank : Text.isBlank c = true) :
    split (c :: cs) pos = split cs (pos + c.utf8Size) := by
  rw [split, if_pos blank]

theorem lt_start_of_breaks
    (rest : List Char)
    (pos : Nat)
    (w : Word)
    (breaks : Breaks rest)
    (member : w ∈ split rest pos) :
    pos < w.start := by
  cases rest with
  | nil => cases member
  | cons c cs =>
    rw [split_blank c cs pos (breaks c rfl)] at member
    have lower := (bounds_of_mem_split cs _ w member).1
    have wide := c.utf8Size_pos
    omega

theorem attach_apart
    (c : Char)
    (pos : Nat)
    (ws : List Word)
    (apart : ∀ w ∈ ws, pos + c.utf8Size < w.start) :
    attach c pos ws = ⟨[c], pos⟩ :: ws := by
  cases ws with
  | nil => rfl
  | cons w ws =>
    have later := apart w List.mem_cons_self
    rw [attach, if_neg (by omega)]

theorem split_run
    (run rest : List Char)
    (pos : Nat)
    (isWord : IsWord run)
    (breaks : Breaks rest) :
    split (run ++ rest) pos = ⟨run, pos⟩ :: split rest (pos + Text.byteWidth run) := by
  obtain ⟨nonempty, unbroken⟩ := isWord
  induction run generalizing pos with
  | nil => exact absurd rfl nonempty
  | cons c run ih =>
    have inside : Text.isBlank c = false := unbroken c List.mem_cons_self
    rw [List.cons_append, split, inside, if_neg Bool.false_ne_true, Text.byteWidth,
      ← Nat.add_assoc]
    by_cases alone : run = []
    · subst alone
      exact attach_apart c pos _ fun w => lt_start_of_breaks rest _ w breaks
    · rw [ih (pos + c.utf8Size) alone fun d member => unbroken d (List.mem_cons_of_mem c member),
        attach, if_pos rfl]

theorem map_chars_split_eq
    (cs : List Char)
    (pos : Nat) :
    (split cs pos).map chars = (cs.splitOnP Text.isBlank).filter (!·.isEmpty) := by
  induction cs using runs_induction generalizing pos with
  | nil => rfl
  | blank c cs isBlank ih =>
    rw [split_blank c cs pos isBlank, List.splitOnP_cons_eq_if_modifyHead, if_pos isBlank, ih]
    rfl
  | run run rest isWord breaks ih =>
    have taken : ∀ runs : List (List Char),
        (run :: runs).filter (!·.isEmpty) = run :: runs.filter (!·.isEmpty) := fun runs =>
      List.filter_cons_of_pos (by simp [isWord.nonempty])
    rw [split_run run rest pos isWord breaks, List.map_cons, ih]
    cases rest with
    | nil =>
      rw [List.append_nil, List.splitOnP_eq_singleton isWord.unbroken, taken]
      rfl
    | cons c cs =>
      have isBlank : Text.isBlank c = true := breaks c rfl
      rw [List.splitOnP_append_cons run cs isBlank, List.splitOnP_eq_singleton isWord.unbroken,
        List.singleton_append, taken, List.splitOnP_cons_eq_if_modifyHead, if_pos isBlank]
      rfl

end Word

def wordsOf (source : String) : List (List Char) :=
  (source.toList.splitOnP Text.isBlank).filter (!·.isEmpty)

theorem map_chars_split (source : String) :
    (Word.split source.toList 0).map Word.chars = wordsOf source :=
  Word.map_chars_split_eq source.toList 0

theorem map_kind_lexWords (source : String) :
    (lexWords source).map Token.kind = (wordsOf source).map classify := by
  rw [← map_chars_split, lexWords, List.map_map, List.map_map]
  rfl

theorem span_of_mem_lex
    (source : String)
    (t : Token)
    (member : t ∈ lex source) :
    t.span.start.toNat ≤ t.span.stop.toNat ∧ t.span.stop.toNat ≤ source.utf8ByteSize := by
  rcases List.mem_append.mp member with inside | last
  · obtain ⟨w, isWord, rfl⟩ := List.mem_map.mp inside
    have bounds := (Word.bounds_of_mem_split source.toList 0 w isWord).2
    rw [Text.byteWidth_toList] at bounds
    simp only [Word.token, Word.span, Offset.toNat_clamp]
    omega
  · rw [List.mem_singleton] at last
    subst last
    simp only [Span.start_point, Span.stop_point, Offset.toNat_clamp]
    omega

end TolerantParser.Mini
