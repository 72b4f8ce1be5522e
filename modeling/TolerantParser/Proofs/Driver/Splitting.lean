import TolerantParser.Proofs.Driver.SourceOrder

/-! # Splitting a fused label operator

Splitting undoes fusing (`split_undoes_fusing`).  The texts that split are those of a small table,
and the parts spell the text that was split.  Pieces of a span that runs forward never leave it, so
the parts share its bytes out among them: if it is as wide as the text, each gets as many bytes as
it has in the text, and otherwise the parts still tile it. -/

set_option autoImplicit false

namespace TolerantParser

/-! ## Texts -/

namespace FusedLabel

/-- The texts of fused label operators are the ways to put marks in front of an operator. -/
theorem exists_spelling_iff (text : String) :
    (∃ f : FusedLabel, f.spelling = text)
      ↔ ∃ marks ∈ ["=", "=?"], ∃ op ∈ ["-", "-.", "+", "+.", "!"], text = marks ++ op := by
  constructor
  · rintro ⟨⟨isOptional, op⟩, rfl⟩
    refine ⟨if isOptional then "=?" else "=", ?_, op.spelling, ?_, rfl⟩
    · cases isOptional <;> decide
    · cases op <;> decide
  · rintro ⟨marks, marked, op, operator, rfl⟩
    have operator : ∃ label : LabelOperator, label.spelling = op := by
      simp only [List.mem_cons, List.not_mem_nil, or_false] at operator
      rcases operator with rfl | rfl | rfl | rfl | rfl
      exacts [⟨.minus, rfl⟩, ⟨.minusDot, rfl⟩, ⟨.plus, rfl⟩, ⟨.plusDot, rfl⟩, ⟨.bang, rfl⟩]
    obtain ⟨label, rfl⟩ := operator
    simp only [List.mem_cons, List.not_mem_nil, or_false] at marked
    rcases marked with rfl | rfl
    · exact ⟨⟨false, label⟩, rfl⟩
    · exact ⟨⟨true, label⟩, rfl⟩

theorem join_wording_tokens
    (f : FusedLabel)
    (span : Span) :
    String.join ((f.tokens span).map fun part => part.kind.wording) = f.spelling := by
  obtain ⟨isOptional, op⟩ := f
  cases isOptional <;> cases op <;> rfl

theorem reserved_of_mem_tokens
    (f : FusedLabel)
    (span : Span)
    (part : Token)
    (member : part ∈ f.tokens span) :
    ∃ r, part.kind = .reserved r := by
  obtain ⟨isOptional, op⟩ := f
  cases isOptional <;> simp only [tokens, if_true, Bool.false_eq_true, if_false, List.mem_cons,
    List.not_mem_nil, or_false] at member
  · rcases member with rfl | rfl
    exacts [⟨_, rfl⟩, ⟨_, rfl⟩]
  · rcases member with rfl | rfl | rfl
    exacts [⟨_, rfl⟩, ⟨_, rfl⟩, ⟨_, rfl⟩]

end FusedLabel

/-! ## Places -/

section Span
variable (span : Span)

theorem Span.slice_inside
    (lo : Nat)
    (hi : Option Nat)
    (forward : span.start.toNat ≤ span.stop.toNat) :
    (span.slice lo hi).Inside span := by
  refine ⟨?_, ?_⟩
  · rw [Span.start_slice]
    omega
  · cases hi with
    | none => rw [Span.stop_slice_none]
    | some n =>
      rw [Span.stop_slice_some]
      omega

theorem Span.width_slice_some
    (lo hi : Nat)
    (room : hi ≤ span.width) :
    (span.slice lo (some hi)).width = hi - lo := by
  unfold Span.width at *
  rw [Span.start_slice, Span.stop_slice_some]
  omega

theorem Span.width_slice_none (lo : Nat) : (span.slice lo none).width = span.width - lo := by
  unfold Span.width
  rw [Span.start_slice, Span.stop_slice_none]
  omega

end Span

theorem FusedLabel.width_of_mem_tokens
    (f : FusedLabel)
    (span : Span)
    (part : Token)
    (wide : span.width = f.spelling.utf8ByteSize)
    (member : part ∈ f.tokens span) :
    part.span.width = part.kind.wording.utf8ByteSize := by
  obtain ⟨isOptional, op⟩ := f
  rw [spelling, String.utf8ByteSize_append] at wide
  have operator : op.kind.wording = op.spelling := rfl
  cases isOptional
  · have wide : span.width = 1 + op.spelling.utf8ByteSize := wide
    simp only [tokens, Bool.false_eq_true, if_false, List.mem_cons, List.not_mem_nil,
      or_false] at member
    rcases member with rfl | rfl
    · exact span.width_slice_some 0 1 (by omega)
    · rw [span.width_slice_none 1, operator]
      omega
  · have wide : span.width = 2 + op.spelling.utf8ByteSize := wide
    simp only [tokens, if_true, List.mem_cons, List.not_mem_nil, or_false] at member
    rcases member with rfl | rfl | rfl
    · exact span.width_slice_some 0 1 (by omega)
    · exact span.width_slice_some 1 2 (by omega)
    · rw [span.width_slice_none 2, operator]
      omega

/-! ## The split -/

theorem isSome_splitFusedLabel
    (text : String)
    (span : Span) :
    (splitFusedLabel text span).isSome = true ↔ ∃ f : FusedLabel, f.spelling = text := by
  simp only [splitFusedLabel, Option.isSome_map, Option.isSome_iff_exists,
    FusedLabel.ofChars?_eq_some_iff]

theorem exists_of_splitFusedLabel
    (text : String)
    (span : Span)
    (parts : List Token)
    (split : splitFusedLabel text span = some parts) :
    ∃ f : FusedLabel, f.spelling = text ∧ f.tokens span = parts := by
  obtain ⟨f, fused, tokens⟩ := Option.map_eq_some_iff.mp split
  exact ⟨f, (FusedLabel.ofChars?_eq_some_iff text f).mp fused, tokens⟩

/-- A text splits exactly if it is an equals sign, perhaps a question mark, and then a prefix
operator; the parts are reserved tokens whose texts together are the text.  They tile every span
that runs forward, however short it is and however close to the last offset, and if the span is as
wide as the text, each part is as wide as its own text.  Pieces of such a span stay inside it and
run forward. -/
theorem split_undoes_fusing
    (text : String)
    (span : Span) :
    ((splitFusedLabel text span).isSome = true
        ↔ ∃ marks ∈ ["=", "=?"], ∃ op ∈ ["-", "-.", "+", "+.", "!"], text = marks ++ op)
      ∧ (∀ parts, splitFusedLabel text span = some parts →
        String.join (parts.map fun part => part.kind.wording) = text
          ∧ (∀ part ∈ parts, ∃ r, part.kind = .reserved r)
          ∧ (span.start.toNat ≤ span.stop.toNat →
            Tiles span.start parts span.stop
              ∧ (span.width = text.utf8ByteSize →
                ∀ part ∈ parts, part.span.width = part.kind.wording.utf8ByteSize)))
      ∧ (span.start.toNat ≤ span.stop.toNat →
        ∀ lo hi, (span.slice lo hi).Inside span
          ∧ (span.slice lo hi).start.toNat ≤ (span.slice lo hi).stop.toNat) := by
  refine ⟨(isSome_splitFusedLabel text span).trans (FusedLabel.exists_spelling_iff text), ?_, ?_⟩
  · intro parts split
    obtain ⟨f, rfl, rfl⟩ := exists_of_splitFusedLabel text span parts split
    refine ⟨f.join_wording_tokens span, f.reserved_of_mem_tokens span, ?_⟩
    intro forward
    exact ⟨f.tiles_tokens span forward, fun wide part => f.width_of_mem_tokens span part wide⟩
  · intro forward lo hi
    exact ⟨span.slice_inside lo hi forward, span.slice_forward lo hi⟩

/-- At the end of the last four bytes the operator is the last part. -/
theorem split_undoes_fusing_at_the_limit :
    let span : Span := ⟨.clamp (Offset.limit - 4), .clamp Offset.limit⟩
    ∃ parts, splitFusedLabel "=?-." span = some parts
      ∧ String.join (parts.map fun part => part.kind.wording) = "=?-."
      ∧ Tiles span.start parts span.stop
      ∧ (∀ part ∈ parts, part.span.width = part.kind.wording.utf8ByteSize)
      ∧ (span.slice 7 (some 3)).Inside span := by
  intro span
  have forward : span.start.toNat ≤ span.stop.toNat := by decide
  have wide : span.width = "=?-.".utf8ByteSize := by decide
  obtain ⟨splits, of_split, pieces⟩ := split_undoes_fusing "=?-." span
  obtain ⟨parts, split⟩ := Option.isSome_iff_exists.mp
    (splits.mpr ⟨"=?", by decide, "-.", by decide, rfl⟩)
  obtain ⟨joined, _, placed⟩ := of_split parts split
  obtain ⟨tiles, widths⟩ := placed forward
  exact ⟨parts, split, joined, tiles, widths wide, (pieces forward 7 (some 3)).1⟩

end TolerantParser
