import TolerantParser.Token.Basic

/-! # Stretches between separators

Separators cut the tokens of a file into stretches (`stretches_append`), and the stretches that are
not empty are its phrases.  `stretches_induction` is the induction that goes by the first separator
of the tokens. -/

set_option autoImplicit false

namespace TolerantParser.Mini

def stretches (ts : List Token) : List (List Token) := ts.splitOnP (·.tag == .reserved .semi)

theorem stretches_cons
    (t : Token)
    (ts rest : List Token)
    (others : List (List Token))
    (split : stretches ts = rest :: others) :
    stretches (t :: ts)
      = if t.tag = .reserved .semi then [] :: rest :: others else (t :: rest) :: others := by
  unfold stretches at split ⊢
  rw [List.splitOnP_cons_eq_if_modifyHead, split]
  simp only [beq_iff_eq, List.modifyHead_cons]

theorem exists_stretches (ts : List Token) : ∃ rest others, stretches ts = rest :: others := by
  induction ts with
  | nil => exact ⟨[], [], rfl⟩
  | cons t ts ih =>
    obtain ⟨rest, others, split⟩ := ih
    rw [stretches_cons t ts rest others split]
    split <;> exact ⟨_, _, rfl⟩

theorem stretches_append
    (us vs : List Token)
    (semi : Token)
    (parts : semi.tag = .reserved .semi) :
    stretches (us ++ semi :: vs) = stretches us ++ stretches vs :=
  List.splitOnP_append_cons us vs (by simp [parts])

theorem stretches_of_noSemi
    (ts : List Token)
    (noSemi : ∀ t ∈ ts, t.tag ≠ .reserved .semi) :
    stretches ts = [ts] := by
  induction ts with
  | nil => rfl
  | cons t ts ih =>
    rw [stretches_cons t ts ts [] (ih fun u member => noSemi u (List.mem_cons_of_mem t member)),
      if_neg (noSemi t (List.mem_cons_self ..))]

theorem first_separator (ts : List Token) :
    (∀ t ∈ ts, t.tag ≠ .reserved .semi)
      ∨ ∃ us semi vs, ts = us ++ semi :: vs ∧ semi.tag = .reserved .semi
        ∧ ∀ t ∈ us, t.tag ≠ .reserved .semi := by
  induction ts with
  | nil => exact .inl nofun
  | cons t ts ih =>
    by_cases parts : t.tag = .reserved .semi
    · exact .inr ⟨[], t, ts, rfl, parts, nofun⟩
    · rcases ih with noSemi | ⟨us, semi, vs, rfl, isSemi, noSemi⟩
      · exact .inl (List.forall_mem_cons.mpr ⟨parts, noSemi⟩)
      · exact .inr ⟨t :: us, semi, vs, rfl, isSemi, List.forall_mem_cons.mpr ⟨parts, noSemi⟩⟩

/-- Induction on the number of separators, from the first one on. -/
theorem stretches_induction
    (P : List Token → Prop)
    (single : ∀ ts, (∀ t ∈ ts, t.tag ≠ .reserved .semi) → P ts)
    (cut : ∀ us semi vs, (∀ t ∈ us, t.tag ≠ .reserved .semi) → semi.tag = .reserved .semi → P vs →
      P (us ++ semi :: vs))
    (ts : List Token) :
    P ts := by
  induction size : ts.length using Nat.strongRecOn generalizing ts with
  | ind n ih =>
    rcases first_separator ts with noSemi | ⟨us, semi, vs, rfl, isSemi, noSemi⟩
    · exact single ts noSemi
    · refine cut us semi vs noSemi isSemi (ih vs.length ?_ vs rfl)
      rw [← size, List.length_append, List.length_cons]
      omega

theorem exists_stretches_concat
    (us : List Token)
    (t : Token)
    (other : t.tag ≠ .reserved .semi) :
    ∃ others last, stretches us = others ++ [last]
      ∧ stretches (us ++ [t]) = others ++ [last ++ [t]] := by
  induction us using stretches_induction with
  | single us noSemi =>
    have noSemi' : ∀ u ∈ us ++ [t], u.tag ≠ .reserved .semi :=
      List.forall_mem_append.mpr ⟨noSemi, List.forall_mem_singleton.mpr other⟩
    exact ⟨[], us, stretches_of_noSemi us noSemi, stretches_of_noSemi _ noSemi'⟩
  | cut us semi vs noSemi parts ih =>
    obtain ⟨others, last, split, split'⟩ := ih
    refine ⟨stretches us ++ others, last, ?_, ?_⟩
    · rw [stretches_append us vs semi parts, split, List.append_assoc]
    · rw [List.append_assoc, List.cons_append, stretches_append us _ semi parts, split',
        List.append_assoc]

theorem mem_of_mem_stretches
    (ts stretch : List Token)
    (t : Token)
    (isStretch : stretch ∈ stretches ts)
    (member : t ∈ stretch) :
    t ∈ ts ∧ t.tag ≠ .reserved .semi := by
  induction ts using stretches_induction with
  | single ts noSemi =>
    rw [stretches_of_noSemi ts noSemi, List.mem_singleton] at isStretch
    subst isStretch
    exact ⟨member, noSemi t member⟩
  | cut us semi vs noSemi parts ih =>
    rw [stretches_append us vs semi parts, stretches_of_noSemi us noSemi] at isStretch
    rcases List.mem_cons.mp isStretch with rfl | later
    · exact ⟨List.mem_append_left _ member, noSemi t member⟩
    · obtain ⟨isToken, other⟩ := ih later
      exact ⟨List.mem_append_right _ (List.mem_cons_of_mem semi isToken), other⟩

/-! ## Phrases -/

def phrases (ts : List Token) : List (List Token) := (stretches ts).filter (!·.isEmpty)

theorem mem_phrases
    (ts phrase : List Token) :
    phrase ∈ phrases ts ↔ phrase ∈ stretches ts ∧ phrase ≠ [] := by
  simp [phrases]

@[simp] theorem phrases_nil : phrases [] = [] := rfl

theorem phrases_append
    (us vs : List Token)
    (semi : Token)
    (parts : semi.tag = .reserved .semi) :
    phrases (us ++ semi :: vs) = phrases us ++ phrases vs := by
  rw [phrases, stretches_append us vs semi parts, List.filter_append]
  rfl

theorem phrases_of_noSemi
    (ts : List Token)
    (noSemi : ∀ t ∈ ts, t.tag ≠ .reserved .semi)
    (nonempty : ts ≠ []) :
    phrases ts = [ts] := by
  simp [phrases, stretches_of_noSemi ts noSemi, nonempty]

end TolerantParser.Mini
