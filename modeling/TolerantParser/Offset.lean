/-! # Byte offsets

An offset is a position in a source text, counted in UTF-8 bytes in 32 bits.  A number past the
last offset is clamped to it, and moving an offset forward stops there.  The facts below give the
value of each operation in `Nat`, where `omega` finishes. -/

set_option autoImplicit false

namespace TolerantParser

def Offset.limit : Nat := 4294967295

@[ext] structure Offset where
  toNat : Nat
  le_limit : toNat ≤ Offset.limit
deriving DecidableEq

namespace Offset

def zero : Offset := ⟨0, Nat.zero_le _⟩

def clamp (n : Nat) : Offset := ⟨min n limit, Nat.min_le_right ..⟩

def ofNat? (n : Nat) : Option Offset :=
  if h : n ≤ limit then some ⟨n, h⟩ else none

def advance (o : Offset) (n : Nat) : Offset := clamp (o.toNat + n)

@[simp] theorem toNat_clamp (n : Nat) : (clamp n).toNat = min n limit := rfl

@[simp] theorem toNat_zero : zero.toNat = 0 := rfl

theorem toNat_advance
    (o : Offset)
    (n : Nat) :
    (o.advance n).toNat = min (o.toNat + n) limit := rfl

@[simp] theorem clamp_toNat (o : Offset) : clamp o.toNat = o := by
  ext
  simp only [toNat_clamp]
  exact Nat.min_eq_left o.le_limit

end Offset

end TolerantParser
