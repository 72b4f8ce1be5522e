import TolerantParser.Proofs.Mini.DocComments.Offers
import TolerantParser.Proofs.Mini.Stretches

/-! # Doc comments in files

A file parses as it does without its doc comments, and every doc comment ends up on an item or set
aside, as long as there is something to document: no stretch between two separators may consist of
doc comments alone (`NoneAlone`).  A stretch that does is fatal, because the grammar has taken its
doc comments up before it finds that their item is missing.  `NoneAloneFrom` is the same condition
from inside a stretch; it is what an induction over the tokens goes by. -/

set_option autoImplicit false

namespace TolerantParser.Mini

/-! ## Stretches of doc comments -/

def NotOnlyDocs (stretch : List Token) : Prop :=
  stretch ≠ [] → ∃ t ∈ stretch, t.docstring? = none

/-- No stretch consists of doc comments alone. -/
def NoneAlone (ts : List Token) : Prop := ∀ stretch ∈ stretches ts, NotOnlyDocs stretch

instance (stretch : List Token) : Decidable (NotOnlyDocs stretch) :=
  inferInstanceAs (Decidable (stretch ≠ [] → ∃ t ∈ stretch, t.docstring? = none))

instance (ts : List Token) : Decidable (NoneAlone ts) :=
  inferInstanceAs (Decidable (∀ stretch ∈ stretches ts, NotOnlyDocs stretch))

def Mode.documented (m : Mode) : Mode := if m = .inside then .inside else .waiting

def NoneAloneFrom : Mode → List Token → Prop
  | m, [] => m ≠ .waiting
  | m, t :: ts =>
    if t.tag = .text .docString then NoneAloneFrom m.documented ts
    else (m = .waiting → t.tag ≠ .reserved .semi) ∧ NoneAloneFrom (.after t) ts

/-- A stretch of which `rest` is left does not consist of doc comments alone. -/
def Mode.NotOnlyDocs (m : Mode) (rest : List Token) : Prop :=
  m = .inside ∨ m = .fresh ∧ rest = [] ∨ ∃ t ∈ rest, t.docstring? = none

theorem Mode.notOnlyDocs_fresh (rest : List Token) :
    Mode.NotOnlyDocs .fresh rest ↔ Mini.NotOnlyDocs rest := by
  simp [NotOnlyDocs, Mini.NotOnlyDocs, Classical.or_iff_not_imp_left]

theorem noneAloneFrom_iff
    (m : Mode)
    (ts rest : List Token)
    (others : List (List Token))
    (split : stretches ts = rest :: others) :
    NoneAloneFrom m ts ↔ m.NotOnlyDocs rest ∧ ∀ stretch ∈ others, NotOnlyDocs stretch := by
  induction ts generalizing m rest others with
  | nil =>
    cases split
    cases m <;> simp [NoneAloneFrom, Mode.NotOnlyDocs]
  | cons t ts ih =>
    obtain ⟨rest', others', split'⟩ := exists_stretches ts
    rw [stretches_cons t ts rest' others' split'] at split
    have onwards := fun m => ih m rest' others' split'
    by_cases parts : t.tag = .reserved .semi
    · rw [if_pos parts] at split
      cases split
      -- what was begun ends here, and the next stretch is begun afresh
      simp only [NoneAloneFrom, parts, onwards, List.forall_mem_cons, Mode.after,
        ← Mode.notOnlyDocs_fresh]
      cases m <;> simp [Mode.NotOnlyDocs]
    · rw [if_neg parts] at split
      cases split
      by_cases documents : t.tag = .text .docString
      · have isDoc : t.docstring? ≠ none := by
          rw [← Option.isSome_iff_ne_none, docstring?_isSome_iff, documents]
        simp only [NoneAloneFrom, documents, onwards]
        cases m <;> simp_all [Mode.NotOnlyDocs, Mode.documented]
      · simp [NoneAloneFrom, documents, onwards, Mode.after, parts, Mode.NotOnlyDocs,
          docstring?_eq_none t documents]

theorem noneAlone_iff (ts : List Token) : NoneAlone ts ↔ NoneAloneFrom .fresh ts := by
  obtain ⟨rest, others, split⟩ := exists_stretches ts
  rw [noneAloneFrom_iff .fresh ts rest others split, Mode.notOnlyDocs_fresh, NoneAlone, split,
    List.forall_mem_cons]

/-! ## Parses -/

/-- `p'` is `p` but for its doc comments: of `docs`, it has the `attached` ones on its items, behind
the ones with the texts `before`, and the other ones set aside. -/
structure Documents (before : List String) (docs attached : List Docstring) (p p' : Parsed Tree) :
    Prop where
  erased : p'.value.eraseDocs = p.value
  onItems : p'.value.comments = before ++ attached.map Docstring.text
  together : docs.Perm (attached ++ p'.docstrings.toList)

theorem Documents.of_attached
    (before : List String)
    (ds docs attached : List Docstring)
    (doc : Docstring)
    (p p' : Parsed Tree)
    (documents : Documents (before ++ [doc.text]) (ds ++ docs) attached p p') :
    Documents before (ds ++ doc :: docs) (doc :: attached) p p' where
  erased := documents.erased
  onItems := by simpa using documents.onItems
  together := List.perm_middle.trans (documents.together.cons doc)

structure Verdict (before : List String) (docs : List Docstring) (fine : Prop) (p : Parsed Tree)
    (result : Except ParseError (Parsed Tree)) : Prop where
  ok : fine → ∃ p' attached, result = .ok p' ∧ Documents before docs attached p p'
  error : ¬ fine → ∃ e, result = .error e

theorem abreast_initialState
    (goal : Goal)
    (isFile : goal.isFile = true) :
    Abreast goal [] (initialState goal) (initialState goal)
      ∧ (initialState goal).env.stack.mode = .fresh := by
  simp only [initialState, startStack_of_isFile goal isFile]
  refine ⟨⟨⟨rfl, rfl, .items [] true isFile, ?_, rfl, fun t => rfl⟩, .none, ?_⟩, rfl⟩
  · simp [Stack.IsBare, Symbol.IsBare]
  · exact fun pending => absurd rfl pending

section Parses
variable (h : Heuristics) (goal : Goal) (isFile : goal.isFile = true)
  (diverts : h.docstrings = true)
include isFile

/-- The end of the file ends both parses, unless a doc comment waits. -/
theorem Abreast.parseFrom_eof
    (comments : List String)
    (s s' : State Env)
    (reached reached' : Offset)
    (span : Span)
    (p : Parsed Tree)
    (abreast : Abreast goal comments s s')
    (parsed : (driver h).parseFrom s reached [⟨.eof, span⟩] = .ok p) :
    Verdict comments s'.docstrings.toList (s'.env.stack.mode ≠ .waiting) p
      ((driver h).parseFrom s' reached' [⟨.eof, span⟩]) := by
  rw [Driver.parseFrom] at parsed ⊢
  by_cases waiting : s'.env.stack.mode = .waiting
  · obtain ⟨f, refused⟩ := abreast.offer_of_waiting h goal comments s s' ⟨.eof, span⟩ waiting rfl
    rw [refused]
    exact ⟨fun mode => absurd waiting mode, fun _ => ⟨f.toParseError, rfl⟩⟩
  · have agree :=
      abreast.offer_of_ne_waiting h goal comments isFile s s' ⟨.eof, span⟩ nofun waiting
    refine ⟨fun _ => ?_, fun fatal => absurd waiting fatal⟩
    generalize (driver h).offer s _ = o, (driver h).offer s' _ = o' at agree parsed
    cases agree with
    | intermediate next next' abreast mode kept => cases parsed
    | error f f' => cases parsed
    | success p₀ p' erased attached kept ends =>
      cases parsed
      exact ⟨p', [], rfl, erased, by simp [attached], by simp [kept]⟩

theorem Abreast.parseFrom_cons
    (comments : List String)
    (s s' : State Env)
    (reached reached' : Offset)
    (t : Token)
    (ts us : List Token)
    (docs : List Docstring)
    (fine : Prop)
    (p : Parsed Tree)
    (abreast : Abreast goal comments s s')
    (other : t.tag ≠ .text .docString)
    (notEof : t.tag ≠ .eof)
    (parsed : (driver h).parseFrom s reached (t :: ts) = .ok p)
    (onwards : ∀ next next', Abreast goal comments next next' →
      next'.env.stack.mode = .after t → next'.docstrings = s'.docstrings →
      (driver h).parseFrom next t.span.stop ts = .ok p →
      Verdict comments docs fine p ((driver h).parseFrom next' t.span.stop us)) :
    Verdict comments docs ((s'.env.stack.mode = .waiting → t.tag ≠ .reserved .semi) ∧ fine) p
      ((driver h).parseFrom s' reached' (t :: us)) := by
  rw [Driver.parseFrom] at parsed ⊢
  by_cases fatal : s'.env.stack.mode = .waiting ∧ t.tag = .reserved .semi
  · obtain ⟨f, refused⟩ :=
      abreast.offer_of_waiting h goal comments s s' t fatal.1 (by rw [fatal.2]; rfl)
    rw [refused]
    exact ⟨fun continues => absurd fatal.2 (continues.1 fatal.1), fun _ => ⟨f.toParseError, rfl⟩⟩
  · have continues : s'.env.stack.mode = .waiting → t.tag ≠ .reserved .semi :=
      fun waiting parts => fatal ⟨waiting, parts⟩
    have agree := abreast.offer h goal comments isFile s s' t other ?_ ?_
    · generalize (driver h).offer s t = o, (driver h).offer s' t = o' at agree parsed
      cases agree with
      | intermediate next next' abreast mode kept =>
        obtain ⟨ok, error⟩ := onwards next next' abreast mode kept parsed
        exact ⟨fun both => ok both.2, fun neither => error fun only => neither ⟨continues, only⟩⟩
      | success p₀ p' erased attached kept ends => exact absurd ends notEof
      | error f f' => cases parsed
    · intro waiting
      have noSemi := continues waiting
      unfold endsItem
      split <;> simp_all
    · cases offered : (driver h).offer s t with
      | intermediate | success => rfl
      | error f => simp [offered] at parsed

include diverts

theorem Abreast.parseFrom
    (comments : List String)
    (s s' : State Env)
    (reached reached' : Offset)
    (ts : List Token)
    (span : Span)
    (p : Parsed Tree)
    (abreast : Abreast goal comments s s')
    (noEof : ∀ t ∈ ts, t.tag ≠ .eof)
    (parsed : (driver h).parseFrom s reached
      (ts.filter (·.docstring?.isNone) ++ [⟨.eof, span⟩]) = .ok p) :
    Verdict comments (s'.docstrings.toList ++ ts.filterMap Token.docstring?)
      (NoneAloneFrom s'.env.stack.mode ts) p
      ((driver h).parseFrom s' reached' (ts ++ [⟨.eof, span⟩])) := by
  induction ts generalizing comments s s' reached reached' with
  | nil =>
    simpa [NoneAloneFrom] using
      abreast.parseFrom_eof h goal isFile comments s s' reached reached' span p parsed
  | cons t ts ih =>
    have noEof' : ∀ u ∈ ts, u.tag ≠ .eof := fun u member => noEof u (List.mem_cons_of_mem t member)
    cases documents : t.docstring? with
    | some doc =>
      have isDoc := tag_of_docstring? t doc documents
      rw [List.filter_cons_of_neg (by simp [documents])] at parsed
      rw [List.filterMap_cons_some documents, List.cons_append, Driver.parseFrom, NoneAloneFrom,
        if_pos isDoc]
      -- the plain parse stands still
      by_cases inside : s'.env.stack.mode = .inside
      · rw [abreast.offer_docString_of_inside h goal comments t doc documents s s' isFile diverts
          inside]
        have rest := ih comments s (s'.addDocstring doc) reached t.span.stop
          ⟨abreast.env, abreast.pending, abreast.inside⟩ noEof' parsed
        simpa [Mode.documented, inside] using rest
      · obtain ⟨next', offered, abreast', waiting, kept⟩ :=
          abreast.offer_docString_of_begins h goal comments t doc documents s s' inside
        rw [offered]
        have rest := ih (comments ++ [doc.text]) s next' reached t.span.stop abreast' noEof' parsed
        rw [waiting, kept] at rest
        rw [Mode.documented, if_neg inside]
        refine ⟨fun fine => ?_, rest.error⟩
        obtain ⟨p', attached, parsed', documents⟩ := rest.ok fine
        exact ⟨p', doc :: attached, parsed', documents.of_attached _ _ _ _ _ _ _⟩
    | none =>
      have other : t.tag ≠ .text .docString := by
        rw [ne_eq, ← docstring?_isSome_iff, documents]
        nofun
      rw [List.filter_cons_of_pos (by simp [documents]), List.cons_append] at parsed
      rw [List.filterMap_cons_none documents, List.cons_append, NoneAloneFrom, if_neg other]
      refine abreast.parseFrom_cons h goal isFile comments s s' reached reached' t _ _ _ _ p other
        (noEof t (List.mem_cons_self ..)) parsed ?_
      intro next next' abreast' mode kept parsed'
      have rest := ih comments next next' t.span.stop t.span.stop abreast' noEof' parsed'
      rwa [mode, kept] at rest

/-- A file in which no stretch consists of doc comments alone parses to what it parses to without
its doc comments, and each of these is either on an item or set aside.  Any other file is refused
for its doc comments. -/
theorem parse_file_with_docs
    (o : Offset)
    (ts : List Token)
    (span : Span)
    (p : Parsed Tree)
    (noEof : ∀ t ∈ ts, t.tag ≠ .eof)
    (parsed : (driver h).parse goal o (ts.filter (·.docstring?.isNone) ++ [⟨.eof, span⟩])
      = .ok (.ok p)) :
    (NoneAlone ts → ∃ p' attached,
        (driver h).parse goal o (ts ++ [⟨.eof, span⟩]) = .ok (.ok p')
          ∧ Documents [] (ts.filterMap Token.docstring?) attached p p')
      ∧ (¬ NoneAlone ts → ∃ e,
        (driver h).parse goal o (ts ++ [⟨.eof, span⟩]) = .ok (.error e)) := by
  obtain ⟨start, fresh⟩ := abreast_initialState goal isFile
  simp only [Driver.parse, initial_driver, Except.map, Except.ok.injEq] at parsed ⊢
  have verdict := start.parseFrom h goal isFile diverts [] _ _ o o ts span p noEof parsed
  rw [fresh, ← noneAlone_iff] at verdict
  exact ⟨verdict.ok, verdict.error⟩

end Parses

/-- Doc comments before an item, inside one and behind a marker run, and one with no item at all. -/
theorem parse_file_with_docs_at_items :
    let eof : Token := ⟨.eof, .point (.clamp 50)⟩
    let ts := lexWords "/**a*/ /**b*/ let x = /**c*/ 1 ^^ /**d*/ ; open M"
    let lone := lexWords "open M ; /**a*/ ; x"
    (∃ p' attached, (driver .all).parse .useFile .zero (ts ++ [eof]) = .ok (.ok p')
        ∧ Documents [] (ts.filterMap Token.docstring?) attached
          ⟨.phrases [.letItem "x" (.postfixed (.int "1") ["^", "^"]), .openItem "M"], .empty⟩ p')
      ∧ ∃ e, (driver .all).parse .useFile .zero (lone ++ [eof]) = .ok (.error e) := by
  intro eof ts lone
  have hosted := parse_file_with_docs .all .useFile rfl rfl .zero ts eof.span _
    (by decide) (show (driver .all).parse .useFile .zero _ = .ok (.ok ⟨_, .empty⟩) from rfl)
  have alone := parse_file_with_docs .all .useFile rfl rfl .zero lone eof.span
    ⟨.phrases [.openItem "M", .var "x"], .empty⟩ (by decide) rfl
  exact ⟨hosted.1 (by decide), alone.2 (by decide)⟩

/-- A doc comment that is all there is in a file is fatal. -/
theorem parse_lone_docString :
    (lex "/**d*/").filter (·.docstring?.isNone) = [⟨.eof, .point (.clamp 6)⟩]
      ∧ (driver .all).parse .implementation .zero [⟨.eof, .point (.clamp 6)⟩]
        = .ok (.ok ⟨.implementation [], .empty⟩)
      ∧ (driver .all).parse .implementation .zero (lex "/**d*/")
        = .ok (.error (.syntaxRejected .eof (.point (.clamp 6)) [])) :=
  ⟨rfl, rfl, rfl⟩

end TolerantParser.Mini
