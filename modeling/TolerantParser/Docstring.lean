import TolerantParser.Span
import TolerantParser.Text.Inspect
import TolerantParser.Text.Quoted

/-! # Detached doc comments

Doc comments that the grammar has no place for are collected on the side.  The collection grows
at its newest end and is never edited, so every parser state holds one of its own and shares the
older part with the states before it.  It counts its entries as it grows.  `toList` is its view,
oldest entry first: `toList_push` says that a push appends, and two collections are equal exactly
when their views are, which is what `same` compares. -/

set_option autoImplicit false

namespace TolerantParser

structure Docstring where
  text : String
  span : Span
deriving DecidableEq

def Docstring.inspect (d : Docstring) : String :=
  Text.record "InvalidDocstring" [("text", Text.quoted d.text), ("span", d.span.render)]

/-- Detached doc comments, newest first, and how many they are. -/
structure Docstrings where
  newestFirst : List Docstring
  size : Nat
  size_eq_length : size = newestFirst.length

namespace Docstrings

def empty : Docstrings := ⟨[], 0, rfl⟩

def push (ds : Docstrings) (d : Docstring) : Docstrings :=
  ⟨d :: ds.newestFirst, ds.size + 1, congrArg (· + 1) ds.size_eq_length⟩

def toList (ds : Docstrings) : List Docstring := ds.newestFirst.reverse

def ofList (l : List Docstring) : Docstrings := l.foldl push empty

def isEmpty (ds : Docstrings) : Bool := ds.size == 0

/-- Whether two collections have the same entries in the same order.  Those of different sizes have
not. -/
def same (ds es : Docstrings) : Bool := ds.size == es.size && ds.toList == es.toList

def inspect (ds : Docstrings) : String := Text.bracketed (ds.toList.map Docstring.inspect)

@[simp] theorem toList_empty : empty.toList = [] := rfl

@[simp] theorem toList_push
    (ds : Docstrings)
    (d : Docstring) :
    (ds.push d).toList = ds.toList ++ [d] := by
  simp [toList, push]

theorem toList_foldl_push
    (ds : Docstrings)
    (l : List Docstring) :
    (l.foldl push ds).toList = ds.toList ++ l := by
  induction l generalizing ds with
  | nil => simp
  | cons d l ih => simp [ih]

@[simp] theorem toList_ofList (l : List Docstring) : (ofList l).toList = l := by
  simp [ofList, toList_foldl_push]

theorem ext_toList
    (ds es : Docstrings)
    (h : ds.toList = es.toList) :
    ds = es := by
  obtain ⟨l, n, hn⟩ := ds
  obtain ⟨m, k, hk⟩ := es
  simp only [toList, List.reverse_inj] at h
  subst h hn hk
  rfl

@[simp] theorem size_eq (ds : Docstrings) : ds.size = ds.toList.length := by
  rw [toList, List.length_reverse, ds.size_eq_length]

theorem same_iff
    (ds es : Docstrings) :
    ds.same es = true ↔ ds = es := by
  constructor
  · intro h
    simp only [same, Bool.and_eq_true, beq_iff_eq] at h
    exact ext_toList ds es h.2
  · rintro rfl
    simp [same]

instance : DecidableEq Docstrings := fun ds es => decidable_of_iff _ (same_iff ds es)

end Docstrings

end TolerantParser
