import TolerantParser.Proofs.Mini.Items.Documented
import TolerantParser.Proofs.Mini.Items.Phrases

/-! # The language of the file goals

A file is accepted if each of its phrases derives an item, whatever separators stand between them:
the automaton shifts a separator even where the items are open for the next one.  So it accepts all
that the documentation derives, and beyond that the files in which an item is missing before a
separator (`accepts_file_iff`). -/

set_option autoImplicit false

namespace TolerantParser.Mini

/-- Without heuristics, offering the tokens ends in success on the last of them. -/
def Accepts (goal : Goal) (o : Offset) (ts : List Token) : Prop :=
  ∃ p, ((driver .empty).initial goal o).map (fun s => (driver .empty).offerMany s ts)
    = .ok ⟨.success p, ts.length⟩

theorem accepts_iff_run
    (goal : Goal)
    (o : Offset)
    (ts : List Token) :
    Accepts goal o ts
      ↔ ∃ v, automaton.run ⟨goal, startStack goal, none⟩ ts = some (.accepted v) := by
  have offered := Driver.offerMany_of_empty_eq_success_iff automaton ⟨goal, startStack goal, none⟩
    .empty ts
  simp only [Accepts, initial_driver, Except.map, Except.ok.injEq]
  constructor
  · rintro ⟨p, fed⟩
    exact ⟨p.value, ((offered p).mp fed).1⟩
  · rintro ⟨v, run⟩
    exact ⟨⟨v, .empty⟩, (offered ⟨v, .empty⟩).mpr ⟨run, rfl⟩⟩

theorem exists_items_iff
    (goal : Goal)
    (groups : List (List Token)) :
    (∃ is, List.Forall₂ (ItemYields goal) is groups)
      ↔ ∀ group ∈ groups, ∃ i, ItemYields goal i group := by
  induction groups with
  | nil => exact ⟨fun _ => nofun, fun _ => ⟨[], .nil⟩⟩
  | cons group groups ih =>
    rw [List.forall_mem_cons, ← ih]
    constructor
    · rintro ⟨is, items⟩
      obtain ⟨i, is', first, others, _⟩ := List.forall₂_cons_right_iff.mp items
      exact ⟨⟨i, first⟩, ⟨is', others⟩⟩
    · rintro ⟨⟨i, first⟩, ⟨is, others⟩⟩
      exact ⟨i :: is, .cons first others⟩

section Files
variable (goal : Goal) (isFile : goal.isFile = true) (o : Offset) (ts : List Token) (span : Span)
include isFile

theorem accepts_file_iff_phrases :
    Accepts goal o (ts ++ [⟨.eof, span⟩]) ↔ ∀ phrase ∈ phrases ts, Derives goal .item phrase := by
  simp only [accepts_iff_run, run_file_iff ts ⟨.eof, span⟩ rfl goal isFile, derives_item_iff]
  rw [← exists_items_iff]
  constructor
  · rintro ⟨_, is, items, _⟩
    exact ⟨is, items⟩
  · rintro ⟨is, items⟩
    obtain ⟨v, complete⟩ := exists_acceptedValue?_items goal is true isFile
    exact ⟨v, is, items, complete⟩

/-- A file goal accepts the tokens before the end of the file exactly if each phrase of theirs
derives an item, and the documented lists of items are those of them in which no item is missing. -/
theorem accepts_file_iff :
    (Accepts goal o (ts ++ [⟨.eof, span⟩]) ↔ ∀ phrase ∈ phrases ts, Derives goal .item phrase)
      ∧ (Derives goal .items ts ↔ Accepts goal o (ts ++ [⟨.eof, span⟩]) ∧ NoneMissing ts) := by
  have phrasewise := accepts_file_iff_phrases goal isFile o ts span
  refine ⟨phrasewise, ?_⟩
  rw [phrasewise]
  exact derives_items_iff goal ts

end Files

/-- A file with doc comments and a separator at its end, and one that repeats a separator. -/
theorem accepts_file_iff_at_separators :
    let closed := lexWords "/**d*/ open M ; f ( ~ a = ? - 1 , ! b @ c ) ;"
    let repeated := lexWords "x ; ; y"
    Derives .useFile .items closed
      ∧ (∀ phrase ∈ phrases repeated, Derives .useFile .item phrase) := by
  intro closed repeated
  have accepted : Accepts .useFile .zero (closed ++ [⟨.eof, .point .zero⟩]) := ⟨_, rfl⟩
  have accepted' : Accepts .useFile .zero (repeated ++ [⟨.eof, .point .zero⟩]) := ⟨_, rfl⟩
  have noneMissing : NoneMissing closed := .inr (by decide)
  exact ⟨(accepts_file_iff .useFile rfl .zero closed _).2.mpr ⟨accepted, noneMissing⟩,
    (accepts_file_iff .useFile rfl .zero repeated _).1.mp accepted'⟩

/-- A file that repeats a separator is accepted, but the documentation does not derive it. -/
theorem accepts_file_with_item_missing :
    Accepts .implementation .zero (lexWords "x ; ; y" ++ [⟨.eof, .point (.clamp 7)⟩])
      ∧ ¬ Derives .implementation .items (lexWords "x ; ; y") := by
  refine ⟨⟨_, rfl⟩, fun derives => ?_⟩
  rcases ((derives_items_iff .implementation _).mp derives).2 with ⟨semi, single, _⟩ | nonempty
  · have short : (lexWords "x ; ; y").length = 1 := congrArg List.length single
    exact absurd short (by decide)
  · exact nonempty [] (by decide) rfl

end TolerantParser.Mini
