import TolerantParser.Proofs.Driver.Conservative
import TolerantParser.Proofs.Mini.EndOfFile
import TolerantParser.Proofs.Mini.Items.Completeness
import TolerantParser.Proofs.Mini.Items.Soundness

/-! # A file is the sequence of its phrases

Without heuristics a file parses to the items that its phrases derive (`run_file_iff`), and a
toplevel phrase to the item that it derives (`run_toplevelPhrase_iff`).  So both come to the same
trees: where a phrase stands in its file makes no difference. -/

set_option autoImplicit false

namespace TolerantParser.Mini

section Runs
variable (ts : List Token) (e : Token) (ends : e.tag = .eof)
include ends

theorem run_file_iff
    (goal : Goal)
    (isFile : goal.isFile = true)
    (v : Tree) :
    automaton.run ⟨goal, startStack goal, none⟩ (ts ++ [e]) = some (.accepted v)
      ↔ ∃ is, List.Forall₂ (ItemYields goal) is (phrases ts)
        ∧ acceptedValue? goal [.items is true] = some v := by
  have sameValue : ∀ is isOpen,
      acceptedValue? goal [.items is isOpen] = acceptedValue? goal [.items is true] := by
    intro is isOpen
    cases goal <;> rfl
  constructor
  · intro run
    obtain ⟨is, isOpen, yields, complete⟩ := exists_fileYields_of_run goal isFile ts e v run
    exact ⟨is, yields.phrases goal is isOpen ts, sameValue is isOpen ▸ complete⟩
  · rintro ⟨is, items, complete⟩
    obtain ⟨isOpen, yields⟩ := (exists_fileYields_iff goal is ts).mpr items
    have accept : nextAction goal e.tag (Stack.marks [.items is isOpen]) = .accept := by
      rw [ends]
      rfl
    rw [run_of_fileYields goal e [] isFile is isOpen ts yields (fun _ => by rw [ends]; rfl),
      Automaton.run_singleton, offerSettled_eq]
    exact congrArg some
      (settled_of_accept goal _ e v accept ((sameValue is isOpen).trans complete))

theorem run_toplevelPhrase_iff
    (i : Tree) :
    automaton.run ⟨.toplevelPhrase, [], none⟩ (ts ++ [e]) = some (.accepted i)
      ↔ ItemYields .toplevelPhrase i ts := by
  constructor
  · exact itemYields_of_run ts e i
  · intro yields
    have accept : nextAction .toplevelPhrase e.tag (Stack.marks [.item i]) = .accept := by
      rw [ends]
      rfl
    rw [run_of_itemYields .toplevelPhrase e [] i ts [] (.toplevelPhrase rfl) (by rw [ends]; rfl)
      yields, Automaton.run_singleton, offerSettled_eq]
    exact congrArg some (settled_of_accept .toplevelPhrase [.item i] e i accept rfl)

end Runs

theorem parse_empty_iff_run
    (goal : Goal)
    (o : Offset)
    (ts : List Token)
    (e : Token)
    (p : Parsed Tree)
    (goesOn : ∀ t ∈ ts, ¬ Ends goal t.tag) :
    (driver .empty).parse goal o (ts ++ [e]) = .ok (.ok p)
      ↔ automaton.run ⟨goal, startStack goal, none⟩ (ts ++ [e]) = some (.accepted p.value)
        ∧ p.docstrings = .empty := by
  have succeeds := Driver.offerMany_of_empty_eq_success_iff automaton ⟨goal, startStack goal, none⟩
    .empty (ts ++ [e]) p
  rw [← succeeds, Driver.parse_eq_ok_iff]
  simp only [initial_driver, Except.ok.injEq, exists_eq_left', Driver.parseFrom_eq_ok_iff]
  constructor
  · intro fed
    obtain ⟨before, t, rest, last, split, arrived, ended⟩ :=
      (driver .empty).exists_end_of_offerMany (initialState goal) (ts ++ [e]) (by rw [fed]; rfl)
    rw [fed] at ended
    have isEnd := end_of_offer_success .empty goal last t p _
      (.offerMany [] before _ last .start arrived) ended
    have isLast : rest = [] := by
      rcases List.eq_nil_or_concat rest with empty | ⟨rest, u, rfl⟩
      · exact empty
      · have member : t ∈ ts := by
          have same : ts ++ [e] = (before ++ t :: rest) ++ [u] := by simpa using split
          rw [(List.append_inj' same rfl).1]
          simp
        exact absurd isEnd (goesOn t member)
    subst isLast
    have whole := (driver .empty).offerMany_of_end (initialState goal) last before [] t arrived
      (by rw [ended]; rfl)
    rw [← split, ended] at whole
    have size : (ts ++ [e]).length = before.length + 1 := by simp [split]
    rw [size]
    exact whole
  · intro fed
    exact congrArg Fed.outcome fed

def ParsesTo (goal : Goal) (o : Offset) (ts : List Token) (v : Tree) : Prop :=
  ∃ p, (driver .empty).parse goal o ts = .ok (.ok p) ∧ p.value = v

theorem parsesTo_iff_run
    (goal : Goal)
    (o : Offset)
    (ts : List Token)
    (e : Token)
    (v : Tree)
    (goesOn : ∀ t ∈ ts, ¬ Ends goal t.tag) :
    ParsesTo goal o (ts ++ [e]) v
      ↔ automaton.run ⟨goal, startStack goal, none⟩ (ts ++ [e]) = some (.accepted v) := by
  constructor
  · rintro ⟨p, parsed, rfl⟩
    exact ((parse_empty_iff_run goal o ts e p goesOn).mp parsed).1
  · intro run
    exact ⟨⟨v, .empty⟩, (parse_empty_iff_run goal o ts e _ goesOn).mpr ⟨run, rfl⟩, rfl⟩

section Files
variable (goal : Goal) (isFile : goal.isFile = true) (values : goal ≠ .interface)
  (o o' : Offset) (ts : List Token) (span span' : Span) (noEof : ∀ t ∈ ts, t.tag ≠ .eof)
include noEof

theorem parsesTo_phrase_iff
    (i : Tree)
    (phrase : List Token)
    (isPhrase : phrase ∈ phrases ts) :
    ParsesTo .toplevelPhrase o (phrase ++ [⟨.eof, span⟩]) i
      ↔ ItemYields .toplevelPhrase i phrase := by
  rw [parsesTo_iff_run .toplevelPhrase o phrase ⟨.eof, span⟩ i]
  · exact run_toplevelPhrase_iff phrase ⟨.eof, span⟩ rfl i
  · intro t member isEnd
    obtain ⟨isToken, notSemi⟩ :=
      mem_of_mem_stretches ts phrase t ((mem_phrases ts phrase).mp isPhrase).1 member
    rcases isEnd with isEof | ⟨_, isSemi⟩
    · exact noEof t isToken isEof
    · exact notSemi isSemi

include values in
theorem forall₂_parsesTo_iff
    (is : List Tree) :
    List.Forall₂ (fun i phrase => ParsesTo .toplevelPhrase o' (phrase ++ [⟨.eof, span'⟩]) i) is
        (phrases ts)
      ↔ List.Forall₂ (ItemYields goal) is (phrases ts) := by
  have alike : goal = .interface ↔ Goal.toplevelPhrase = .interface := iff_of_false values nofun
  rw [List.forall₂_iff_get, List.forall₂_iff_get]
  refine and_congr_right fun _ => forall_congr' fun n => forall₂_congr fun _ inside => ?_
  rw [parsesTo_phrase_iff o' ts span' noEof _ _ (List.get_mem _ ⟨n, inside⟩)]
  exact ⟨.of_goal .toplevelPhrase goal alike.symm _ _, .of_goal goal .toplevelPhrase alike _ _⟩

include isFile

theorem parsesTo_file_iff
    (v : Tree) :
    ParsesTo goal o (ts ++ [⟨.eof, span⟩]) v
      ↔ ∃ is, List.Forall₂ (ItemYields goal) is (phrases ts)
        ∧ acceptedValue? goal [.items is true] = some v := by
  rw [parsesTo_iff_run goal o ts ⟨.eof, span⟩ v, run_file_iff ts ⟨.eof, span⟩ rfl goal isFile v]
  rintro t member (isEof | ⟨rfl, _⟩)
  · exact noEof t member isEof
  · cases isFile

include values

/-- `wrap` makes a file of its items. -/
theorem parsesTo_file_iff_phrases
    (wrap : List Tree → Tree)
    (wraps : ∀ is isOpen, acceptedValue? goal [.items is isOpen] = some (wrap is))
    (injective : Function.Injective wrap)
    (is : List Tree) :
    ParsesTo goal o (ts ++ [⟨.eof, span⟩]) (wrap is)
      ↔ List.Forall₂ (fun i phrase => ParsesTo .toplevelPhrase o' (phrase ++ [⟨.eof, span'⟩]) i) is
        (phrases ts) := by
  rw [parsesTo_file_iff goal isFile o ts span noEof,
    forall₂_parsesTo_iff goal values o' ts span' noEof]
  constructor
  · rintro ⟨is', items, complete⟩
    rw [wraps, Option.some.injEq] at complete
    rwa [← injective complete]
  · intro items
    exact ⟨is, items, wraps is true⟩

theorem file_refused_of_phrase
    (phrase : List Token)
    (isPhrase : phrase ∈ phrases ts)
    (e : ParseError)
    (refused : (driver .empty).parse .toplevelPhrase o' (phrase ++ [⟨.eof, span'⟩])
      = .ok (.error e)) :
    ∃ e', (driver .empty).parse goal o (ts ++ [⟨.eof, span⟩]) = .ok (.error e') := by
  obtain ⟨result, parsed⟩ :
      ∃ result, (driver .empty).parse goal o (ts ++ [⟨.eof, span⟩]) = .ok result := ⟨_, rfl⟩
  cases result with
  | error e' => exact ⟨e', parsed⟩
  | ok p =>
    obtain ⟨is, items, _⟩ :=
      (parsesTo_file_iff goal isFile o ts span noEof p.value).mp ⟨p, parsed, rfl⟩
    rw [← forall₂_parsesTo_iff goal values o' ts span' noEof, List.forall₂_iff_get] at items
    obtain ⟨n, same⟩ := List.get_of_mem isPhrase
    obtain ⟨p', parsed', _⟩ := items.2 n (by rw [items.1]; exact n.isLt) n.isLt
    rw [same, refused] at parsed'
    cases parsed'

end Files

/-- Without heuristics a file parses to exactly the trees to which its phrases parse as toplevel
phrases, in order, and it is refused if one of them is. -/
theorem parse_file_iff_parse_phrases
    (o o' : Offset)
    (ts : List Token)
    (span span' : Span)
    (noEof : ∀ t ∈ ts, t.tag ≠ .eof) :
    (∀ is, ParsesTo .implementation o (ts ++ [⟨.eof, span⟩]) (.implementation is)
        ↔ List.Forall₂ (fun i phrase =>
          ParsesTo .toplevelPhrase o' (phrase ++ [⟨.eof, span'⟩]) i) is (phrases ts))
      ∧ (∀ is, ParsesTo .useFile o (ts ++ [⟨.eof, span⟩]) (.phrases is)
        ↔ List.Forall₂ (fun i phrase =>
          ParsesTo .toplevelPhrase o' (phrase ++ [⟨.eof, span'⟩]) i) is (phrases ts))
      ∧ ∀ goal ∈ [Goal.implementation, .useFile], ∀ phrase ∈ phrases ts, ∀ e,
          (driver .empty).parse .toplevelPhrase o' (phrase ++ [⟨.eof, span'⟩]) = .ok (.error e) →
          ∃ e', (driver .empty).parse goal o (ts ++ [⟨.eof, span⟩]) = .ok (.error e') := by
  refine ⟨?_, ?_, ?_⟩
  · exact parsesTo_file_iff_phrases .implementation rfl nofun o o' ts span span' noEof _
      (fun _ _ => rfl) fun _ _ => Tree.implementation.inj
  · exact parsesTo_file_iff_phrases .useFile rfl nofun o o' ts span span' noEof _
      (fun _ _ => rfl) fun _ _ => Tree.phrases.inj
  · intro goal member phrase isPhrase e refused
    simp only [List.mem_cons, List.not_mem_nil, or_false] at member
    rcases member with rfl | rfl
    · exact file_refused_of_phrase .implementation rfl nofun o o' ts span span' noEof phrase isPhrase
        e refused
    · exact file_refused_of_phrase .useFile rfl nofun o o' ts span span' noEof phrase isPhrase e
        refused

/-- Two phrases with empty stretches around them, and a phrase that breaks off. -/
theorem parse_file_iff_parse_phrases_at_stretches :
    let eof : Token := ⟨.eof, .point (.clamp 40)⟩
    let ts := lexWords "; f ( 1 ) ; ; /**d*/ let x = - y ;"
    let broken := lexWords "x ; open"
    List.Forall₂ (fun i phrase => ParsesTo .toplevelPhrase .zero (phrase ++ [eof]) i)
        [.call "f" [.int "1"], .documented "d" (.letItem "x" (.unary "-" (.var "y")))] (phrases ts)
      ∧ ParsesTo .useFile .zero (ts ++ [eof])
        (.phrases [.call "f" [.int "1"],
          .documented "d" (.letItem "x" (.unary "-" (.var "y")))])
      ∧ ∃ e, (driver .empty).parse .useFile .zero (broken ++ [eof]) = .ok (.error e) := by
  intro eof ts broken
  obtain ⟨implementation, useFile, _⟩ :=
    parse_file_iff_parse_phrases .zero .zero ts eof.span eof.span (by decide)
  obtain ⟨_, _, refused⟩ :=
    parse_file_iff_parse_phrases .zero .zero broken eof.span eof.span (by decide)
  have parsed : ParsesTo .implementation .zero (ts ++ [eof]) (.implementation _) :=
    ⟨⟨_, .empty⟩, rfl, rfl⟩
  have phrasesParse := (implementation _).mp parsed
  have breaksOff : (driver .empty).parse .toplevelPhrase .zero
      ([⟨.reserved .kwOpen, ⟨.clamp 4, .clamp 8⟩⟩] ++ [⟨.eof, .point (.clamp 40)⟩])
        = .ok (.error (.syntaxRejected .eof (.point (.clamp 40)) [])) := rfl
  refine ⟨phrasesParse, (useFile _).mpr phrasesParse, ?_⟩
  exact refused .useFile (by decide) _ (by decide) _ breaksOff

end TolerantParser.Mini
