import TolerantParser.Token.Kind

/-! # Sets of tags

A set of tags is a word of 64 bits, in which the bit at the index of a tag says whether the tag is a
member; there are more bits than tags.  Adding a tag and uniting two sets are one operation on the
words, and asking for a tag is reading its bit (`TagSet.contains_eq_getLsbD`). -/

set_option autoImplicit false

namespace TolerantParser

structure TagSet where
  bits : BitVec 64
deriving DecidableEq

def Tag.bit (t : Tag) : BitVec 64 := BitVec.twoPow 64 t.index

namespace TagSet

def empty : TagSet := ⟨0#64⟩

def insert (s : TagSet) (t : Tag) : TagSet := ⟨s.bits ||| t.bit⟩

def union (s u : TagSet) : TagSet := ⟨s.bits ||| u.bits⟩

def contains (s : TagSet) (t : Tag) : Bool := s.bits &&& t.bit != 0#64

def ofList (ts : List Tag) : TagSet := ts.foldl insert empty

def members (s : TagSet) : List Tag := Tag.all.filter s.contains

def size (s : TagSet) : Nat := s.bits.cpop.toNat

def isEmpty (s : TagSet) : Bool := s.bits == 0#64

theorem index_lt_width (t : Tag) : t.index.val < 64 := Nat.lt_trans t.index.isLt (by decide)

theorem contains_eq_getLsbD
    (s : TagSet)
    (t : Tag) :
    s.contains t = s.bits.getLsbD t.index := by
  have isSet : BitVec.twoPow 64 t.index ≠ 0#64 := by
    intro unset
    have bit := BitVec.getLsbD_twoPow (w := 64) t.index t.index
    rw [unset] at bit
    simp [index_lt_width t] at bit
  rw [contains, Tag.bit, BitVec.and_twoPow]
  cases s.bits.getLsbD t.index
  · rfl
  · simpa using isSet

end TagSet

end TolerantParser
