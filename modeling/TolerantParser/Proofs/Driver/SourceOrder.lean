import Mathlib.Data.List.Chain
import TolerantParser.Proofs.Driver.Edits

/-! # Places of synthetic tokens

The tokens that a driver puts in the place of a token stay in that token's place.  `Within` places
tokens one after the other between two offsets, `Tiles` without gaps.  Every edit of a token stays
within its span (`Edit.within`), a replayed marker run and a split label operator tile it
(`tiles_markerTokens`, `tiles_labelParts`), and so the tokens that a run offers are as much in order
as the stream was (`within_flatMap_offered`).

A `Rendition` is a token with what was offered for it, and `Renders` says that renditions are behind
a state.  `renditions_in_order` finds such renditions for every state that a stream leads to, and
places the tokens of any of them. -/

set_option autoImplicit false

namespace TolerantParser

/-! ## Tokens between two offsets -/

/-- Every span runs forward, and the next one starts no earlier than it stops. -/
structure InOrder (ts : List Token) : Prop where
  forward : ∀ t ∈ ts, t.span.start.toNat ≤ t.span.stop.toNat
  apart : ts.IsChain fun t u => t.span.stop.toNat ≤ u.span.start.toNat

/-- The tokens stand one after the other from `lo` on and up to `hi`. -/
def Within (lo : Nat) : List Token → Nat → Prop
  | [], hi => lo ≤ hi
  | t :: ts, hi =>
    lo ≤ t.span.start.toNat ∧ t.span.start.toNat ≤ t.span.stop.toNat
      ∧ Within t.span.stop.toNat ts hi

def Tiles (lo : Offset) : List Token → Offset → Prop
  | [], hi => lo = hi
  | t :: ts, hi => t.span.start = lo ∧ lo.toNat ≤ t.span.stop.toNat ∧ Tiles t.span.stop ts hi

def Span.Inside (inner outer : Span) : Prop :=
  outer.start.toNat ≤ inner.start.toNat ∧ inner.stop.toNat ≤ outer.stop.toNat

theorem Within.le
    (lo hi : Nat)
    (ts : List Token)
    (within : Within lo ts hi) :
    lo ≤ hi := by
  induction ts generalizing lo with
  | nil => exact within
  | cons t ts ih =>
    obtain ⟨after, forward, rest⟩ := within
    exact Nat.le_trans after (Nat.le_trans forward (ih _ rest))

theorem Within.of_le
    (lo lo' hi : Nat)
    (ts : List Token)
    (earlier : lo' ≤ lo)
    (within : Within lo ts hi) :
    Within lo' ts hi := by
  cases ts with
  | nil => exact Nat.le_trans earlier within
  | cons t ts => exact ⟨Nat.le_trans earlier within.1, within.2⟩

theorem Within.append
    (lo mid hi : Nat)
    (ts us : List Token)
    (first : Within lo ts mid)
    (second : Within mid us hi) :
    Within lo (ts ++ us) hi := by
  induction ts generalizing lo with
  | nil => exact second.of_le mid lo hi us first
  | cons t ts ih => exact ⟨first.1, first.2.1, ih _ first.2.2⟩

theorem Within.bounds
    (lo hi : Nat)
    (ts : List Token)
    (t : Token)
    (within : Within lo ts hi)
    (member : t ∈ ts) :
    lo ≤ t.span.start.toNat ∧ t.span.stop.toNat ≤ hi := by
  induction ts generalizing lo with
  | nil => cases member
  | cons u ts ih =>
    obtain ⟨after, forward, rest⟩ := within
    rcases List.mem_cons.mp member with rfl | member
    · exact ⟨after, rest.le _ _ ts⟩
    · have later := ih _ rest member
      exact ⟨Nat.le_trans after (Nat.le_trans forward later.1), later.2⟩

theorem within_limit_iff
    (lo : Nat)
    (ts : List Token)
    (small : lo ≤ Offset.limit) :
    Within lo ts Offset.limit ↔ InOrder ts ∧ ∀ t ∈ ts.head?, lo ≤ t.span.start.toNat := by
  induction ts generalizing lo with
  | nil =>
    refine iff_of_true small ⟨⟨?_, .nil⟩, ?_⟩ <;> simp
  | cons t ts ih =>
    have rest := ih t.span.stop.toNat t.span.stop.le_limit
    constructor
    · rintro ⟨after, forward, within⟩
      obtain ⟨⟨forwards, apart⟩, next⟩ := rest.mp within
      refine ⟨⟨?_, List.isChain_cons.mpr ⟨next, apart⟩⟩, by simpa using after⟩
      intro u member
      rcases List.mem_cons.mp member with rfl | member
      · exact forward
      · exact forwards u member
    · rintro ⟨⟨forwards, apart⟩, after⟩
      obtain ⟨next, apart⟩ := List.isChain_cons.mp apart
      refine ⟨by simpa using after, forwards t List.mem_cons_self, rest.mpr ⟨⟨?_, apart⟩, next⟩⟩
      exact fun u member => forwards u (List.mem_cons_of_mem t member)

theorem Tiles.within
    (lo hi : Offset)
    (ts : List Token)
    (tiles : Tiles lo ts hi) :
    Within lo.toNat ts hi.toNat := by
  induction ts generalizing lo with
  | nil =>
    cases tiles
    exact Nat.le_refl _
  | cons t ts ih =>
    obtain ⟨rfl, forward, rest⟩ := tiles
    exact ⟨Nat.le_refl _, forward, ih _ rest⟩

/-! ## The places of single edits -/

theorem Offset.advance_zero (o : Offset) : o.advance 0 = o := o.clamp_toNat

theorem Offset.advance_advance
    (o : Offset)
    (m n : Nat) :
    (o.advance m).advance n = o.advance (m + n) := by
  ext
  simp only [Offset.toNat_advance]
  omega

theorem Offset.le_advance
    (o : Offset)
    (n : Nat) :
    o.toNat ≤ (o.advance n).toNat := by
  have := o.le_limit
  simp only [Offset.toNat_advance]
  omega

theorem markerTokens_succ
    (n : Nat)
    (o : Offset) :
    markerTokens (n + 1) o = markerToken o 0 :: markerTokens n (o.advance 1) := by
  simp only [markerTokens, List.range_succ_eq_map, List.map_cons, List.map_map,
    List.cons.injEq, true_and]
  refine List.map_congr_left fun i _ => ?_
  simp only [markerToken, Function.comp_apply, Offset.advance_advance, Nat.add_comm 1]

/-- Markers read one by one follow each other, at the last offset as well, where they have no
room. -/
theorem tiles_markerTokens
    (n : Nat)
    (o : Offset) :
    Tiles o (markerTokens n o) (o.advance n) := by
  induction n generalizing o with
  | zero => exact o.advance_zero.symm
  | succ n ih =>
    have next := ih (o.advance 1)
    rw [Offset.advance_advance, Nat.add_comm] at next
    rw [markerTokens_succ]
    simp only [Tiles, markerToken, Span.ofWidth, Offset.advance_zero]
    exact ⟨trivial, o.le_advance 1, next⟩

theorem Span.start_slice_zero
    (span : Span)
    (hi : Option Nat)
    (forward : span.start.toNat ≤ span.stop.toNat) :
    (span.slice 0 hi).start = span.start := by
  ext
  rw [Span.start_slice]
  omega

theorem Span.start_slice_eq_stop
    (span : Span)
    (lo mid : Nat)
    (hi : Option Nat)
    (after : lo ≤ mid) :
    (span.slice mid hi).start = (span.slice lo (some mid)).stop := by
  ext
  rw [Span.start_slice, Span.stop_slice_some, Nat.max_eq_right after]

theorem Span.slice_forward
    (span : Span)
    (lo : Nat)
    (hi : Option Nat) :
    (span.slice lo hi).start.toNat ≤ (span.slice lo hi).stop.toNat := by
  cases hi with
  | none =>
    rw [Span.start_slice, Span.stop_slice_none]
    omega
  | some n =>
    rw [Span.start_slice, Span.stop_slice_some]
    omega

/-- The marks take a byte each as far as the span goes, and the operator has what is left. -/
theorem FusedLabel.tiles_tokens
    (f : FusedLabel)
    (span : Span)
    (forward : span.start.toNat ≤ span.stop.toNat) :
    Tiles span.start (f.tokens span) span.stop := by
  have equal : (span.slice 0 (some 1)).start = span.start := span.start_slice_zero _ forward
  have next (hi : Option Nat) : (span.slice 1 hi).start = (span.slice 0 (some 1)).stop :=
    span.start_slice_eq_stop 0 1 hi (by decide)
  have last : (span.slice 2 none).start = (span.slice 1 (some 2)).stop :=
    span.start_slice_eq_stop 1 2 none (by decide)
  unfold tokens
  split
  · refine ⟨equal, ?_, next _, ?_, last, ?_, span.stop_slice_none 2⟩
    · exact equal ▸ span.slice_forward 0 (some 1)
    · exact next _ ▸ span.slice_forward 1 (some 2)
    · exact last ▸ span.slice_forward 2 none
  · refine ⟨equal, ?_, next _, ?_, span.stop_slice_none 1⟩
    · exact equal ▸ span.slice_forward 0 (some 1)
    · exact next _ ▸ span.slice_forward 1 none

theorem tiles_labelParts
    (t : Token)
    (parts : List Token)
    (fused : t.labelParts? = some parts)
    (forward : t.span.start.toNat ≤ t.span.stop.toNat) :
    Tiles t.span.start parts t.span.stop := by
  obtain ⟨kind, span⟩ := t
  unfold Token.labelParts? at fused
  split at fused
  · obtain ⟨f, _, rfl⟩ := Option.map_eq_some_iff.mp fused
    exact f.tiles_tokens span forward
  · cases fused

theorem utf8ByteSize_of_markerCount
    (k : Kind)
    (n : Nat)
    (marked : k.markerCount = some n) :
    k.wording.utf8ByteSize = n := by
  rw [((k.markerCount_eq_some_iff n).mp marked).1, Kind.wording_text, Text.utf8ByteSize_ofList]
  clear marked
  induction n with
  | zero => rfl
  | succ n ih =>
    rw [List.replicate_succ, Text.byteWidth, ih]
    exact Nat.add_comm _ _

theorem tiles_replay
    (t : Token)
    (n : Nat)
    (marked : t.kind.markerCount = some n)
    (forward : t.span.start.toNat ≤ t.span.stop.toNat)
    (wide : t.span.width = t.kind.wording.utf8ByteSize) :
    Tiles t.span.start (markerTokens n t.span.start) t.span.stop := by
  have tiles := tiles_markerTokens n t.span.start
  have stop : t.span.start.advance n = t.span.stop := by
    have := t.span.stop.le_limit
    rw [utf8ByteSize_of_markerCount t.kind n marked, Span.width] at wide
    ext
    rw [Offset.toNat_advance]
    omega
  rwa [stop] at tiles

theorem Edit.within
    (h : Heuristics)
    (t : Token)
    (us : List Token)
    (ds : List Docstring)
    (edit : Edit h t us ds)
    (forward : t.span.start.toNat ≤ t.span.stop.toNat)
    (wide : t.kind.markerCount.isSome → t.span.width = t.kind.wording.utf8ByteSize) :
    Within t.span.start.toNat us t.span.stop.toNat := by
  cases edit with
  | keep => exact ⟨Nat.le_refl _, forward, Nat.le_refl _⟩
  | setAside doc enabled documents => exact forward
  | separate enabled starts =>
    exact ⟨Nat.le_refl _, Nat.le_refl _, Nat.le_refl _, forward, Nat.le_refl _⟩
  | split parts enabled fused => exact (tiles_labelParts t _ fused forward).within
  | replay n enabled marked =>
    exact (tiles_replay t n marked forward (wide (by rw [marked]; rfl))).within

/-! ## Renditions -/

/-- A token with the tokens that were offered in its place and the doc comments set aside. -/
structure Rendition (h : Heuristics) where
  token : Token
  offered : List Token
  setAside : List Docstring
  edit : Edit h token offered setAside

theorem Edits.exists_renditions
    (h : Heuristics)
    (ts us : List Token)
    (ds : List Docstring)
    (edits : Edits h ts us ds) :
    ∃ rs : List (Rendition h), rs.map (·.token) = ts ∧ rs.flatMap (·.offered) = us
      ∧ rs.flatMap (·.setAside) = ds := by
  induction edits with
  | nil => exact ⟨[], rfl, rfl, rfl⟩
  | snoc before last ih =>
    obtain ⟨rs, rfl, rfl, rfl⟩ := ih
    exact ⟨rs ++ [⟨_, _, _, last⟩], by simp, by simp, by simp⟩

theorem within_flatMap_offered
    (h : Heuristics)
    (rs : List (Rendition h))
    (lo hi : Nat)
    (within : Within lo (rs.map (·.token)) hi)
    (wide : ∀ r ∈ rs, r.token.kind.markerCount.isSome →
      r.token.span.width = r.token.kind.wording.utf8ByteSize) :
    Within lo (rs.flatMap (·.offered)) hi := by
  induction rs generalizing lo with
  | nil => exact within
  | cons r rs ih =>
    obtain ⟨after, forward, within⟩ := within
    have first := r.edit.within h _ _ _ forward (wide r List.mem_cons_self)
    have rest := ih _ within fun r member => wide r (List.mem_cons_of_mem _ member)
    exact (first.append _ _ _ _ _ rest).of_le _ lo hi _ after

namespace Driver

variable {Env Value : Type}

/-- The renditions `rs` of the tokens `ts` are behind the state `s`: offering what they say leads
the automaton from `env₀` to the environment of `s`, and they set aside the doc comments of `s`. -/
structure Renders
    (d : Driver Env Value)
    (env₀ : Env)
    (ts : List Token)
    (s : State Env)
    (rs : List (Rendition d.heuristics)) : Prop where
  tokens : rs.map (·.token) = ts
  setAside : rs.flatMap (·.setAside) = s.docstrings.toList
  run : d.automaton.run env₀ (rs.flatMap (·.offered)) = some (.needsInput s.env)

/-- Every state that a stream leads to has renditions behind it.  If the stream is in order and its
marker runs are as wide as their texts, then what any such renditions offered is in order too, each
of them stays within the span of its token, and a marker run or label operator that was taken apart
is tiled by its parts. -/
theorem renditions_in_order
    (d : Driver Env Value)
    (goal : Goal)
    (o : Offset)
    (s₀ s : State Env)
    (ts : List Token)
    (start : d.initial goal o = .ok s₀)
    (fed : (d.offerMany s₀ ts).outcome = .intermediate s)
    (ordered : InOrder ts)
    (wide : ∀ t ∈ ts, t.kind.markerCount.isSome → t.span.width = t.kind.wording.utf8ByteSize) :
    (∃ rs, d.Renders s₀.env ts s rs)
      ∧ ∀ rs, d.Renders s₀.env ts s rs →
          InOrder (rs.flatMap (·.offered))
            ∧ (∀ r ∈ rs, ∀ u ∈ r.offered, u.span.Inside r.token.span)
            ∧ (∀ r ∈ rs, ∀ n, r.token.kind.markerCount = some n →
                r.offered = markerTokens n r.token.span.start →
                Tiles r.token.span.start r.offered r.token.span.stop)
            ∧ (∀ r ∈ rs, r.token.labelParts? = some r.offered →
                Tiles r.token.span.start r.offered r.token.span.stop) := by
  obtain ⟨env, _, rfl⟩ := (d.initial_eq_ok_iff goal o s₀).mp start
  constructor
  · obtain ⟨us, history⟩ := (History.initial d env).exists_of_offerMany d env [] [] ts _ s fed
    obtain ⟨rs, tokens, rfl, setAside⟩ := history.edits.exists_renditions
    exact ⟨rs, tokens, setAside, history.run⟩
  · intro rs renders
    have forward : ∀ r ∈ rs, r.token.span.start.toNat ≤ r.token.span.stop.toNat := by
      intro r member
      exact ordered.forward _ (renders.tokens ▸ List.mem_map_of_mem member)
    have wide' : ∀ r ∈ rs, r.token.kind.markerCount.isSome →
        r.token.span.width = r.token.kind.wording.utf8ByteSize := by
      intro r member
      exact wide _ (renders.tokens ▸ List.mem_map_of_mem member)
    refine ⟨?_, ?_, ?_, ?_⟩
    · have placed : Within 0 (rs.map (·.token)) Offset.limit := by
        rw [renders.tokens]
        exact (within_limit_iff 0 ts (Nat.zero_le _)).mpr ⟨ordered, fun _ _ => Nat.zero_le _⟩
      have offered := within_flatMap_offered _ rs 0 _ placed wide'
      exact ((within_limit_iff 0 _ (Nat.zero_le _)).mp offered).1
    · intro r member u offered
      have within := r.edit.within _ _ _ _ (forward r member) (wide' r member)
      exact within.bounds _ _ _ u offered
    · intro r member n marked replayed
      rw [replayed]
      exact tiles_replay r.token n marked (forward r member)
        (wide' r member (by rw [marked]; rfl))
    · intro r member fused
      exact tiles_labelParts r.token _ fused (forward r member)

/-- A label operator that is split, a marker run that is replayed over a doc comment, and a
separator that was left out. -/
theorem renditions_of_split_and_replay :
    ∃ s rs, ((Mini.driver .all).offerMany (Mini.initialState .useFile)
        (Mini.lexWords "f ( ~ l =- 1 ) ^^ /**d*/ open")).outcome = .intermediate s
      ∧ (Mini.driver .all).Renders (Mini.initialState .useFile).env
          (Mini.lexWords "f ( ~ l =- 1 ) ^^ /**d*/ open") s rs
      ∧ InOrder (rs.flatMap (·.offered))
      ∧ (rs.flatMap (·.offered)).map (fun u => (u.span.start.toNat, u.span.stop.toNat))
          = [(0, 1), (2, 3), (4, 5), (6, 7), (8, 9), (9, 10), (11, 12), (13, 14), (15, 16),
              (16, 17), (25, 25), (25, 29)] := by
  have start : (Mini.driver .all).initial .useFile .zero = .ok (Mini.initialState .useFile) := rfl
  obtain ⟨s, rs, fed, renders, spans⟩ : ∃ s rs,
      ((Mini.driver .all).offerMany (Mini.initialState .useFile)
        (Mini.lexWords "f ( ~ l =- 1 ) ^^ /**d*/ open")).outcome = .intermediate s
      ∧ (Mini.driver .all).Renders (Mini.initialState .useFile).env
          (Mini.lexWords "f ( ~ l =- 1 ) ^^ /**d*/ open") s rs
      ∧ (rs.flatMap (·.offered)).map (fun u => (u.span.start.toNat, u.span.stop.toNat))
          = [(0, 1), (2, 3), (4, 5), (6, 7), (8, 9), (9, 10), (11, 12), (13, 14), (15, 16),
              (16, 17), (25, 25), (25, 29)] :=
    ⟨_, [⟨⟨.text .lowerIdent "f", ⟨.clamp 0, .clamp 1⟩⟩, _, _, .keep⟩,
        ⟨⟨.reserved .lparen, ⟨.clamp 2, .clamp 3⟩⟩, _, _, .keep⟩,
        ⟨⟨.reserved .tilde, ⟨.clamp 4, .clamp 5⟩⟩, _, _, .keep⟩,
        ⟨⟨.text .lowerIdent "l", ⟨.clamp 6, .clamp 7⟩⟩, _, _, .keep⟩,
        ⟨⟨.text .infixOp0 "=-", ⟨.clamp 8, .clamp 10⟩⟩, _, _, .split _ rfl rfl⟩,
        ⟨⟨.text .int "1", ⟨.clamp 11, .clamp 12⟩⟩, _, _, .keep⟩,
        ⟨⟨.reserved .rparen, ⟨.clamp 13, .clamp 14⟩⟩, _, _, .keep⟩,
        ⟨⟨.text .infixOp1 "^^", ⟨.clamp 15, .clamp 17⟩⟩, _, _, .replay 2 rfl rfl⟩,
        ⟨⟨.text .docString "d", ⟨.clamp 18, .clamp 24⟩⟩, _, _, .setAside _ rfl rfl⟩,
        ⟨⟨.reserved .kwOpen, ⟨.clamp 25, .clamp 29⟩⟩, _, _, .separate rfl rfl⟩],
      rfl, ⟨rfl, rfl, rfl⟩, rfl⟩
  have placed := (renditions_in_order (Mini.driver .all) .useFile .zero _ s _ start fed
    ⟨by decide, by decide⟩ (by decide)).2 rs renders
  exact ⟨s, rs, fed, renders, placed.1, spans⟩

end Driver

end TolerantParser
