import Mathlib.Data.List.Forall2
import TolerantParser.Proofs.Mini.Runs

/-! # The lexer loses nothing

`respelled` takes a kind back to the word that it was made from, whatever rule of `classify` made
it (`respelled_classify`), so no two words have one kind.  With the words as the runs of the text,
each token stands for one run on exactly its bytes, and only the layout between them is lost
(`lex_lossless`). -/

set_option autoImplicit false

namespace TolerantParser.Mini

/-! ## Kinds and their words -/

/-- The word that a kind is made from: a doc comment gets its delimiters back. -/
def respelled : Kind → String
  | .text .docString body => "/**" ++ body ++ "*/"
  | k => k.wording

theorem docBody?_eq_some_iff (chars body : List Char) :
    docBody? chars = some body ↔ chars = '/' :: '*' :: '*' :: (body ++ ['*', '/']) := by
  constructor
  · intro isDoc
    unfold docBody? at isDoc
    split at isDoc
    · next rest =>
      split at isDoc
      · next reversed ends =>
        cases isDoc
        rw [List.reverse_eq_iff.mp ends]
        simp only [List.reverse_cons, List.append_assoc, List.singleton_append]
      · cases isDoc
    · cases isDoc
  · rintro rfl
    simp [docBody?]

/-- The first character does not make a doc comment, and nothing makes a postfix operator. -/
theorem classOf_ne (chars : List Char) :
    classOf chars ≠ .docString ∧ classOf chars ≠ .postfixOp := by
  fun_cases classOf chars <;> exact ⟨nofun, nofun⟩

theorem respelled_text
    (c : TextClass)
    (s : String)
    (plain : c ≠ .docString) :
    respelled (.text c s) = s := by
  cases c
  case docString => exact absurd rfl plain
  all_goals rfl

/-- The delimiters of a doc comment, or a reserved spelling, are part of the word again; any other
kind carries its word as it is. -/
theorem respelled_classify (chars : List Char) :
    respelled (classify chars) = String.ofList chars := by
  fun_cases classify chars with
  | case1 r isReserved => exact Reserved.spelling_of_ofSpelling? _ r isReserved
  | case2 _ body isDoc =>
    rw [(docBody?_eq_some_iff chars body).mp isDoc, ← String.toList_inj]
    simp [respelled]
  | case3 => exact respelled_text _ _ (classOf_ne chars).1

theorem classify_injective : Function.Injective classify := by
  intro chars others same
  rw [← String.ofList_inj, ← respelled_classify, same, respelled_classify]

theorem tag_classify (chars : List Char) :
    (classify chars).tag ≠ .text .postfixOp ∧ (classify chars).tag ≠ .eof := by
  fun_cases classify chars with
  | case1 | case2 => exact ⟨nofun, nofun⟩
  | case3 => exact ⟨by simpa using (classOf_ne chars).2, nofun⟩

/-! ## Tokens and their words -/

structure Word.Denotes (w : Word) (t : Token) : Prop where
  start : t.span.start.toNat = w.start
  stop : t.span.stop.toNat = w.start + w.width
  respelled : respelled t.kind = String.ofList w.chars
  notPostfix : t.tag ≠ .text .postfixOp
  notEof : t.tag ≠ .eof

theorem Word.denotes_token
    (w : Word)
    (fits : w.start + w.width ≤ Offset.limit) :
    w.Denotes w.token where
  start := Nat.min_eq_left (Nat.le_trans (Nat.le_add_right ..) fits)
  stop := Nat.min_eq_left fits
  respelled := respelled_classify w.chars
  notPostfix := (tag_classify w.chars).1
  notEof := (tag_classify w.chars).2

/-- The tokens of the text are these, and behind them the end of the file. -/
def LexesTo (source : String) (ts : List Token) : Prop :=
  ∃ o : Offset, o.toNat = source.utf8ByteSize ∧ lex source = ts ++ [⟨.eof, .point o⟩]

section Source
variable (source : String) (fits : source.utf8ByteSize ≤ Offset.limit)
include fits

theorem lexesTo_lexWords : LexesTo source (lexWords source) :=
  ⟨.clamp source.utf8ByteSize, Nat.min_eq_left fits, rfl⟩

theorem denotes_of_mem_split
    (w : Word)
    (member : w ∈ Word.split source.toList 0) :
    w.Denotes w.token := by
  have bounds := (Word.bounds_of_mem_split source.toList 0 w member).2
  rw [Text.byteWidth_toList, Nat.zero_add] at bounds
  exact w.denotes_token (Nat.le_trans bounds fits)

theorem denotes_lexWords :
    List.Forall₂ Word.Denotes (Word.split source.toList 0) (lexWords source) :=
  List.forall₂_map_right_iff.mpr (List.forall₂_same.mpr (denotes_of_mem_split source fits))

end Source

section Spaced
variable (words : List String) (areWords : ∀ word ∈ words, IsWord word.toList)
include areWords

theorem split_intercalate :
    Word.split (" ".intercalate words).toList 0 = Word.spaced 0 (words.map String.toList) := by
  have areRuns : ∀ run ∈ words.map String.toList, IsWord run := by
    intro run member
    obtain ⟨word, here, rfl⟩ := List.mem_map.mp member
    exact areWords word here
  rw [String.toList_intercalate]
  exact Word.split_intercalate _ 0 areRuns

theorem map_kind_lexWords_intercalate :
    (lexWords (" ".intercalate words)).map Token.kind
      = words.map fun word => classify word.toList := by
  rw [map_kind_lexWords, ← map_chars_split, split_intercalate words areWords,
    Word.map_chars_spaced, List.map_map]
  rfl

end Spaced

/-- The tokens of a text that offsets can count stand for the runs of its characters between
blanks, one for one, in order and each on the bytes of its run, and behind them there is only the
end of the file.  Words that are set one space apart are read as these words, at the bytes that are
in front of each, and no two words have one kind. -/
theorem lex_lossless :
    (∀ source : String, source.utf8ByteSize ≤ Offset.limit →
        ∃ runs ts, LexesTo source ts ∧ List.Forall₂ Word.Denotes runs ts
          ∧ (∀ w, w ∈ runs ↔ w.IsRun source.toList 0)
          ∧ runs.Pairwise fun v w => v.start + v.width < w.start)
      ∧ (∀ words : List String, (∀ word ∈ words, IsWord word.toList) →
          (" ".intercalate words).utf8ByteSize ≤ Offset.limit →
          ∃ ts, LexesTo (" ".intercalate words) ts
            ∧ ts.map Token.kind = words.map (fun word => classify word.toList)
            ∧ List.Forall₂ Word.Denotes (Word.spaced 0 (words.map String.toList)) ts)
      ∧ ∀ v w : String, v ≠ w → classify v.toList ≠ classify w.toList := by
  refine ⟨fun source fits => ?_, fun words areWords fits => ?_, fun v w distinct same => ?_⟩
  · exact ⟨_, _, lexesTo_lexWords source fits, denotes_lexWords source fits,
      Word.mem_split_iff source.toList 0, Word.pairwise_split source.toList 0⟩
  · have denotes := denotes_lexWords _ fits
    rw [split_intercalate words areWords] at denotes
    exact ⟨_, lexesTo_lexWords _ fits, map_kind_lexWords_intercalate words areWords, denotes⟩
  · exact distinct (String.toList_inj.mp (classify_injective same))

/-- The shortest comment, something too short to be one, and a name of two bytes: behind a blank of
two bytes, and one space apart. -/
theorem lex_lossless_at_comments :
    let source := "\u00a0/***/ /**/ \u00e9"
    let words := ["/***/", "/**/", "\u00e9"]
    (source.utf8ByteSize ≤ Offset.limit
        ∧ ∃ runs ts, LexesTo source ts ∧ List.Forall₂ Word.Denotes runs ts
          ∧ (∀ w, w ∈ runs ↔ w.IsRun source.toList 0)
          ∧ runs.Pairwise fun v w => v.start + v.width < w.start)
      ∧ ((∀ word ∈ words, IsWord word.toList)
        ∧ (" ".intercalate words).utf8ByteSize ≤ Offset.limit
        ∧ ∃ ts, LexesTo (" ".intercalate words) ts
          ∧ ts.map Token.kind
            = [.text .docString "", .text .lowerIdent "/**/", .text .lowerIdent "\u00e9"]
          ∧ List.Forall₂ Word.Denotes
              [⟨"/***/".toList, 0⟩, ⟨"/**/".toList, 6⟩, ⟨['\u00e9'], 11⟩] ts)
      ∧ "/***/" ≠ "/**/" ∧ classify "/***/".toList ≠ classify "/**/".toList := by
  intro source words
  have areWords : ∀ word ∈ words, IsWord word.toList := by decide
  obtain ⟨reads, readsSpaced, distinct⟩ := lex_lossless
  have fits : source.utf8ByteSize ≤ Offset.limit := by decide
  have fitsSpaced : (" ".intercalate words).utf8ByteSize ≤ Offset.limit := by decide
  obtain ⟨ts, tokens, kinds, places⟩ := readsSpaced words areWords fitsSpaced
  exact ⟨⟨fits, reads source fits⟩, ⟨areWords, fitsSpaced, ts, tokens, kinds.trans rfl,
    places⟩, by decide, distinct _ _ (by decide)⟩

end TolerantParser.Mini
