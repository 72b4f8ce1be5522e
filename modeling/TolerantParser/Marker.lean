import TolerantParser.Token.Basic

/-! # Marker runs

A lexer reads `^^` as one infix operator, but its author may have meant the postfix operator `^`
twice.  A token made of markers alone can be read either way; `markerTokens` spells out the second
reading, one token of one byte for each marker. -/

set_option autoImplicit false

namespace TolerantParser

/-- The character that is a postfix operator by itself. -/
def marker : Char := '^'

/-- The number of markers, if the kind is an infix operator made of nothing else.  The run has at
least one marker and no more than there are offsets to place them at. -/
def Kind.markerCount : Kind → Option Nat
  | .text .infixOp1 s =>
    if s.toList.all (· == marker) && 1 ≤ s.length && s.length ≤ Offset.limit then some s.length
    else none
  | _ => none

def markerToken (o : Offset) (i : Nat) : Token :=
  ⟨.text .postfixOp marker.toString, .ofWidth (o.advance i) 1⟩

def markerTokens (n : Nat) (o : Offset) : List Token := (List.range n).map (markerToken o)

@[simp] theorem length_markerTokens (n : Nat) (o : Offset) : (markerTokens n o).length = n := by
  simp [markerTokens]

theorem Kind.markerCount_eq_some_iff
    (k : Kind)
    (n : Nat) :
    k.markerCount = some n ↔
      k = .text .infixOp1 (String.ofList (List.replicate n marker)) ∧ 1 ≤ n ∧ n ≤ Offset.limit := by
  constructor
  · intro h
    unfold markerCount at h
    split at h
    · next s =>
      split at h
      · next hrun =>
        simp only [Bool.and_eq_true, decide_eq_true_eq, List.all_eq_true, beq_iff_eq] at hrun
        obtain ⟨⟨hall, hpos⟩, hlimit⟩ := hrun
        injection h with h
        subst h
        refine ⟨?_, hpos, hlimit⟩
        have hs : s.toList = List.replicate s.length marker :=
          List.eq_replicate_iff.mpr ⟨String.length_toList, hall⟩
        rw [← hs, String.ofList_toList]
      · cases h
    · cases h
  · rintro ⟨rfl, hpos, hlimit⟩
    simp [markerCount, hpos, hlimit]

end TolerantParser
