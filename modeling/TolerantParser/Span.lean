import TolerantParser.Offset

/-! # Spans

A span is a pair of byte offsets, the half-open range from `start` to `stop`.  Nothing forbids
`start` past `stop`: such a span is kept as it came.  `slice` cuts a piece out of a span, clamped
to it, so that a piece of a token never reaches outside the token. -/

set_option autoImplicit false

namespace TolerantParser

/-- The bytes from `start` up to, and without, `stop`. -/
@[ext] structure Span where
  start : Offset
  stop : Offset
deriving DecidableEq

namespace Span

def point (o : Offset) : Span := ⟨o, o⟩

def ofWidth (o : Offset) (n : Nat) : Span := ⟨o, o.advance n⟩

def width (s : Span) : Nat := s.stop.toNat - s.start.toNat

/-- The piece from `lo` to `hi`, both counted from the start of the span and clamped to its end;
without `hi` the piece runs to the end.  A piece that would end before it starts is empty. -/
def slice (s : Span) (lo : Nat) (hi : Option Nat) : Span :=
  let start := min (s.start.toNat + lo) s.stop.toNat
  let stop := match hi with
    | some n => min (s.start.toNat + n) s.stop.toNat
    | none => s.stop.toNat
  ⟨.clamp start, .clamp (max stop start)⟩

def render (s : Span) : String := toString s.start.toNat ++ ".." ++ toString s.stop.toNat

@[simp] theorem start_point (o : Offset) : (point o).start = o := rfl

@[simp] theorem stop_point (o : Offset) : (point o).stop = o := rfl

theorem start_slice
    (s : Span)
    (lo : Nat)
    (hi : Option Nat) :
    (s.slice lo hi).start.toNat = min (s.start.toNat + lo) s.stop.toNat := by
  have := s.stop.le_limit
  simp only [slice, Offset.toNat_clamp]
  omega

theorem stop_slice_some
    (s : Span)
    (lo hi : Nat) :
    (s.slice lo (some hi)).stop.toNat
      = min (s.start.toNat + max lo hi) s.stop.toNat := by
  have := s.stop.le_limit
  simp only [slice, Offset.toNat_clamp]
  omega

theorem stop_slice_none
    (s : Span)
    (lo : Nat) :
    (s.slice lo none).stop = s.stop := by
  ext
  have := s.stop.le_limit
  simp only [slice, Offset.toNat_clamp]
  omega

end Span

end TolerantParser
