import TolerantParser.Token.Basic

/-! # Fused label operators

In `~x=-1` a lexer reads `=-` as one infix operator, where the grammar wants `=` and then a prefix
operator; `=?-` hides a question mark too.  `splitFusedLabel` takes such a token apart. -/

set_option autoImplicit false

namespace TolerantParser

inductive LabelOperator
  | minus
  | minusDot
  | plus
  | plusDot
  | bang
deriving DecidableEq

namespace LabelOperator

def all : List LabelOperator := [.minus, .minusDot, .plus, .plusDot, .bang]

def reserved : LabelOperator → Reserved
  | minus => .minus
  | minusDot => .minusDot
  | plus => .plus
  | plusDot => .plusDot
  | bang => .bang

def kind (op : LabelOperator) : Kind := .reserved op.reserved

def spelling (op : LabelOperator) : String := op.reserved.spelling

def ofSpelling? (s : String) : Option LabelOperator := all.find? fun op => op.spelling == s

theorem spelling_of_ofSpelling?
    (s : String)
    (op : LabelOperator)
    (h : ofSpelling? s = some op) :
    op.spelling = s := by
  have := List.find?_some h
  simpa using this

end LabelOperator

/-- The parts of a fused label operator: whether a question mark stands in it, and its end. -/
structure FusedLabel where
  isOptional : Bool
  operator : LabelOperator
deriving DecidableEq

namespace FusedLabel

def ofChars? : List Char → Option FusedLabel
  | '=' :: '?' :: rest => (LabelOperator.ofSpelling? (String.ofList rest)).map (⟨true, ·⟩)
  | '=' :: rest => (LabelOperator.ofSpelling? (String.ofList rest)).map (⟨false, ·⟩)
  | _ => none

def spelling (f : FusedLabel) : String :=
  (if f.isOptional then "=?" else "=") ++ f.operator.spelling

/-- The tokens of the parts: the marks are one byte each and the operator has the rest. -/
def tokens (f : FusedLabel) (span : Span) : List Token :=
  if f.isOptional then
    [⟨.reserved .equal, span.slice 0 (some 1)⟩, ⟨.reserved .question, span.slice 1 (some 2)⟩,
     ⟨f.operator.kind, span.slice 2 none⟩]
  else
    [⟨.reserved .equal, span.slice 0 (some 1)⟩, ⟨f.operator.kind, span.slice 1 none⟩]

theorem ofChars?_eq_some_iff
    (text : String)
    (f : FusedLabel) :
    ofChars? text.toList = some f ↔ f.spelling = text := by
  constructor
  · intro fused
    rw [← String.ofList_toList (s := text)]
    generalize text.toList = cs at fused
    unfold ofChars? at fused
    split at fused
    · next rest =>
      obtain ⟨op, spelled, rfl⟩ := Option.map_eq_some_iff.mp fused
      rw [spelling, if_pos rfl, LabelOperator.spelling_of_ofSpelling? _ op spelled]
      exact (@String.ofList_append ['=', '?'] _).symm
    · next rest =>
      obtain ⟨op, spelled, rfl⟩ := Option.map_eq_some_iff.mp fused
      rw [spelling, if_neg nofun, LabelOperator.spelling_of_ofSpelling? _ op spelled]
      exact (@String.ofList_append ['='] _).symm
    · cases fused
  · rintro rfl
    obtain ⟨isOptional, operator⟩ := f
    cases isOptional <;> cases operator <;> rfl

end FusedLabel

def splitFusedLabel (text : String) (span : Span) : Option (List Token) :=
  (FusedLabel.ofChars? text.toList).map (·.tokens span)

end TolerantParser
