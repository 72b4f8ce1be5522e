/-! # Heuristics

The four liberties a driver may take with a token stream.  Replaying a marker operator as postfix
operators is a second reading of what was written; the other three are recoveries from a token
that was refused.  As a number each has one bit. -/

set_option autoImplicit false

namespace TolerantParser

@[ext] structure Heuristics where
  /-- read a run of markers as postfix operators if it cannot be an infix operator -/
  postfixReplay : Bool
  /-- set a refused doc comment aside -/
  docstrings : Bool
  /-- put the missing separator before a token that starts a statement -/
  semicolon : Bool
  /-- split a fused label operator into its parts -/
  labelSplit : Bool
deriving DecidableEq

namespace Heuristics

def empty : Heuristics := ⟨false, false, false, false⟩

def all : Heuristics := ⟨true, true, true, true⟩

def recovery : Heuristics := { all with postfixReplay := false }

def bits (h : Heuristics) : Nat :=
  h.postfixReplay.toNat + 2 * h.docstrings.toNat + 4 * h.semicolon.toNat + 8 * h.labelSplit.toNat

/-- The heuristics whose bits are set in `n`; bits that stand for none are dropped. -/
def ofBits (n : Nat) : Heuristics :=
  ⟨n.testBit 0, n.testBit 1, n.testBit 2, n.testBit 3⟩

def ofBits? (n : Nat) : Option Heuristics := if n < 16 then some (ofBits n) else none

def union (h g : Heuristics) : Heuristics :=
  ⟨h.postfixReplay || g.postfixReplay, h.docstrings || g.docstrings, h.semicolon || g.semicolon,
   h.labelSplit || g.labelSplit⟩

def minus (h g : Heuristics) : Heuristics :=
  ⟨h.postfixReplay && !g.postfixReplay, h.docstrings && !g.docstrings,
   h.semicolon && !g.semicolon, h.labelSplit && !g.labelSplit⟩

def contains (h g : Heuristics) : Bool := h.union g == h

end Heuristics

end TolerantParser
