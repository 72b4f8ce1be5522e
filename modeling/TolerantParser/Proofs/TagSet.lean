import Mathlib.Data.Finset.Card
import Mathlib.Data.Finset.Image
import TolerantParser.Token.TagSet

/-! # Words as finite sets of tags

A `Construction` says how a set of tags is built, and can be carried out on words and on finite sets
alike.  The word `Denotes` the finite set all along: its bits are those at the indices of the tags,
and no bit is left over for which there is no tag.  So the word answers every question as the set
does, and building the set in another way gives the same word (`word_agrees_with_added`). -/

set_option autoImplicit false

namespace TolerantParser.TagSet

inductive Construction
  | new
  | add (c : Construction) (t : Tag)
  | union (c d : Construction)

namespace Construction

def word : Construction → TagSet
  | new => .empty
  | add c t => c.word.insert t
  | union c d => c.word.union d.word

def added : Construction → Finset Tag
  | new => ∅
  | add c t => c.added ∪ {t}
  | union c d => c.added ∪ d.added

end Construction

/-- The bits that are set in the word are those at the indices of the tags. -/
def Denotes (s : TagSet) (tags : Finset Tag) : Prop :=
  ∀ i, s.bits.getLsbD i = true ↔ ∃ t ∈ tags, t.index.val = i

/-! ## Building -/

theorem denotes_empty : empty.Denotes ∅ := by
  intro i
  simp [empty]

theorem Denotes.union
    (s u : TagSet)
    (tags tags' : Finset Tag)
    (denotes : s.Denotes tags)
    (denotes' : u.Denotes tags') :
    (s.union u).Denotes (tags ∪ tags') := by
  intro i
  simp only [TagSet.union, BitVec.getLsbD_or, Bool.or_eq_true, denotes i, denotes' i,
    Finset.mem_union, or_and_right, exists_or]

theorem denotes_bit (t : Tag) : (TagSet.mk t.bit).Denotes {t} := by
  intro i
  simp [Tag.bit, BitVec.getLsbD_twoPow, index_lt_width t]

theorem Denotes.insert
    (s : TagSet)
    (tags : Finset Tag)
    (t : Tag)
    (denotes : s.Denotes tags) :
    (s.insert t).Denotes (tags ∪ {t}) :=
  denotes.union s ⟨t.bit⟩ tags {t} (denotes_bit t)

theorem Construction.denotes (c : Construction) : c.word.Denotes c.added := by
  induction c with
  | new => exact denotes_empty
  | add c t ih => exact ih.insert c.word c.added t
  | union c d ih ih' => exact ih.union c.word d.word c.added d.added ih'

/-! ## Asking -/

theorem cpopNatRec_eq_card
    (w : BitVec 64)
    (n : Nat) :
    w.cpopNatRec n 0 = ((Finset.range n).filter fun i => w.getLsbD i = true).card := by
  induction n with
  | zero => rfl
  | succ n ih =>
    rw [BitVec.cpopNatRec_succ, BitVec.cpopNatRec_eq, ih, Finset.range_add_one,
      Finset.filter_insert]
    cases isSet : w.getLsbD n with
    | false => simp
    | true => simp

section Denotes
variable (s : TagSet) (tags : Finset Tag) (denotes : s.Denotes tags)
include denotes

theorem Denotes.contains_iff (t : Tag) : s.contains t = true ↔ t ∈ tags := by
  rw [contains_eq_getLsbD, denotes t.index]
  constructor
  · rintro ⟨u, member, index⟩
    rwa [← Tag.index_injective u t (Fin.ext index)]
  · intro member
    exact ⟨t, member, rfl⟩

theorem Denotes.size_eq_card : s.size = tags.card := by
  have bits : (Finset.range 64).filter (fun i => s.bits.getLsbD i = true)
      = tags.image fun t => t.index.val := by
    ext i
    simp only [Finset.mem_filter, Finset.mem_range, denotes i, Finset.mem_image]
    constructor
    · exact And.right
    · rintro ⟨t, member, rfl⟩
      exact ⟨index_lt_width t, t, member, rfl⟩
  have apart : Function.Injective fun t : Tag => t.index.val := by
    intro t u same
    exact Tag.index_injective t u (Fin.ext same)
  rw [size, BitVec.toNat_cpop, cpopNatRec_eq_card, bits, Finset.card_image_of_injective tags apart]

/-- No bit is left over by which two words of one set could differ. -/
theorem Denotes.eq_iff
    (u : TagSet)
    (tags' : Finset Tag)
    (denotes' : u.Denotes tags') :
    s = u ↔ tags = tags' := by
  constructor
  · rintro rfl
    ext t
    rw [← denotes.contains_iff s tags t, denotes'.contains_iff s tags' t]
  · rintro rfl
    obtain ⟨b⟩ := s
    obtain ⟨c⟩ := u
    congr 1
    apply BitVec.eq_of_getLsbD_eq
    intro i _
    rw [Bool.eq_iff_iff, denotes i, denotes' i]

theorem Denotes.isEmpty_iff : s.isEmpty = true ↔ tags = ∅ := by
  rw [← denotes.eq_iff s tags empty ∅ denotes_empty, isEmpty, beq_iff_eq]
  constructor
  · intro unset
    obtain ⟨b⟩ := s
    exact congrArg TagSet.mk unset
  · rintro rfl
    rfl

end Denotes

/-- However a set of tags is built, by adding tags in any order and any number of times and by
uniting sets that were built so: its word contains the tags that were added and no others, whatever
the text of the token that is asked for; its size is the number of different ones; it is empty if
there are none; and it is equal to the word of another set if the same tags were added there. -/
theorem word_agrees_with_added (c : Construction) :
    (∀ k : Kind, c.word.contains k.tag = true ↔ k.tag ∈ c.added)
      ∧ c.word.size = c.added.card
      ∧ (c.word.isEmpty = true ↔ c.added = ∅)
      ∧ ∀ d : Construction, (c.word == d.word) = true ↔ c.added = d.added := by
  have denotes := c.denotes
  refine ⟨fun k => denotes.contains_iff _ _ k.tag, denotes.size_eq_card, denotes.isEmpty_iff, ?_⟩
  intro d
  rw [beq_iff_eq]
  exact denotes.eq_iff c.word c.added d.word d.added d.denotes

end TolerantParser.TagSet
