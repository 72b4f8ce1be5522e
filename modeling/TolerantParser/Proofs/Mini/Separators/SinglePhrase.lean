import TolerantParser.Mini.Lexer
import TolerantParser.Proofs.Driver.Conservative
import TolerantParser.Proofs.Driver.Stream
import TolerantParser.Proofs.Mini.EndOfFile

/-! # A single phrase stays single

Missing separators are put into files only.  Where the goal is one phrase, no viable stack has room
for a separator (`isIntermediate_step_semi`): it is refused, or it ends the phrase in front of the
token that it was put there for, which is then left over.  So the remedy never succeeds, and a
driver that has it parses as one that does not (`parse_single_phrase`). -/

set_option autoImplicit false

namespace TolerantParser

namespace Heuristics

def withoutSeparators (h : Heuristics) : Heuristics := { h with semicolon := false }

theorem remedy?_withoutSeparators
    (h : Heuristics)
    (t : Token) :
    h.withoutSeparators.remedy? t = h.remedy? t
      ∨ h.withoutSeparators.remedy? t = none ∧ h.remedy? t = some (.retry t.separated) := by
  by_cases kept : h.docstrings = true → t.docstring? = none
  · by_cases starts : starters.contains t.tag = true
    · rw [remedy?_of_starter h t starts kept,
        remedy?_of_starter h.withoutSeparators t starts kept]
      cases h.semicolon
      · exact .inl rfl
      · exact .inr ⟨rfl, rfl⟩
    · left
      simp only [remedy?, starts, withoutSeparators]
      rfl
  · obtain ⟨enabled, documents⟩ := Classical.not_imp.mp kept
    obtain ⟨doc, documents⟩ := Option.ne_none_iff_exists'.mp documents
    left
    simp only [remedy?, withoutSeparators, enabled, documents]

end Heuristics

namespace Mini

section Offers
variable (h : Heuristics) (goal : Goal) (history : List Token) (s : State Env) (t : Token)
  (single : goal.isFile = false)
  (reachable : (driver h).Reachable (initialState goal) history s)
include single reachable

theorem isIntermediate_step_semi
    (isSemi : t.tag = .reserved .semi) :
    ((driver h).step s t).isIntermediate = false := by
  cases stepped : (driver h).step s t with
  | intermediate next =>
    obtain ⟨env, reading, same⟩ := (driver h).exists_reading_of_step s t (by rw [stepped]; rfl)
    rw [stepped] at same
    have arrived := (((driver h).read_eq_intermediate_iff env _ t next).mp same.symm).1
    have onCourse := OnCourse.of_reading h goal s env history reachable reading
    obtain ⟨_, viable⟩ := viable_of_offerSettled goal env t next.env onCourse arrived
    obtain ⟨below, standing⟩ := exists_top_of_offerSettled env next.env t arrived
    rw [standing] at viable
    have isFile := (viable.items_of_semi goal below t isSemi).1
    rw [single] at isFile
    cases isFile
  | success p => rfl
  | error f => rfl

theorem stepAll_separated :
    (driver h).stepAll s t.separated = none := by
  have ends := isIntermediate_step_semi h goal history s
    ⟨.reserved .semi, .point t.span.start⟩ single reachable rfl
  rw [Token.separated, Driver.stepAll]
  cases stepped : (driver h).step s ⟨.reserved .semi, .point t.span.start⟩ with
  | intermediate next =>
    rw [stepped] at ends
    cases ends
  | success p => rfl
  | error f => rfl

theorem offer_withoutSeparators :
    (driver h.withoutSeparators).offer s t = (driver h).offer s t := by
  have stepped : (driver h.withoutSeparators).step s t = (driver h).step s t :=
    Driver.step_congr automaton h h.withoutSeparators rfl s t
  have applied : (driver h.withoutSeparators).apply s = (driver h).apply s :=
    funext (Driver.apply_congr automaton h h.withoutSeparators rfl s)
  have helps : (h.withoutSeparators.remedy? t).bind ((driver h).apply s)
      = (h.remedy? t).bind ((driver h).apply s) := by
    rcases h.remedy?_withoutSeparators t with same | ⟨lost, retried⟩
    · rw [same]
    · rw [lost, retried, Option.bind_some, Driver.apply,
        stepAll_separated h goal history s t single reachable, Option.bind_none]
  unfold Driver.offer
  rw [stepped, applied]
  exact congrArg _ helps

theorem offerMany_withoutSeparators
    (ts : List Token) :
    (driver h.withoutSeparators).offerMany s ts = (driver h).offerMany s ts := by
  induction ts generalizing history s with
  | nil => rfl
  | cons t ts ih =>
    have same := offer_withoutSeparators h goal history s t single reachable
    cases offered : (driver h).offer s t with
    | intermediate next =>
      have after := ih _ next (.offer history s next t reachable offered)
      simp only [Driver.offerMany, same, offered, after]
    | success p => simp only [Driver.offerMany, same, offered]
    | error f => simp only [Driver.offerMany, same, offered]

end Offers

/-- Where the goal is an expression, a type or a toplevel phrase, a parse comes to the same with
missing separators as without them, value, doc comments and errors alike.  For in no state that
tokens lead to, behind a marker run or not, is a separator taken up: it is refused or it ends the
phrase. -/
theorem parse_single_phrase
    (h : Heuristics)
    (goal : Goal)
    (single : goal.isFile = false)
    (o : Offset) :
    (∀ ts, (driver h).parse goal o ts = (driver { h with semicolon := false }).parse goal o ts)
      ∧ ∃ s₀, (driver h).initial goal o = .ok s₀
        ∧ ∀ history s p, (driver h).Reachable s₀ history s →
            ((driver h).step s ⟨.reserved .semi, .point p⟩).isIntermediate = false := by
  refine ⟨fun ts => ?_, initialState goal, initial_driver h goal o, fun history s p reachable => ?_⟩
  · have fed := offerMany_withoutSeparators h goal [] (initialState goal) single .start ts
    simp only [Driver.parse, initial_driver, Except.map, Driver.parseFrom_eq]
    rw [← fed]
    rfl
  · exact isIntermediate_step_semi h goal history s _ single reachable rfl

/-- A keyword behind a phrase that ends in markers: a separator is accepted there, once these have
been read as postfix operators, and the keyword is refused all the same. -/
theorem parse_single_phrase_at_markers :
    let s : State Env :=
      ⟨⟨.toplevelPhrase,
          [.token ⟨.text .infixOp1 "^^", ⟨.clamp 2, .clamp 4⟩⟩, .expr (.var "x")], none⟩, .empty,
        some ⟨⟨.toplevelPhrase, [.token ⟨.text .lowerIdent "x", ⟨.clamp 0, .clamp 1⟩⟩], none⟩, 2,
          .clamp 2⟩⟩
    let semi : Token := ⟨.reserved .semi, .point (.clamp 5)⟩
    (Goal.isFile .toplevelPhrase = false
        ∧ (driver .all).parse .toplevelPhrase .zero (lex "x ^^ let y = 1")
          = (driver { Heuristics.all with semicolon := false }).parse .toplevelPhrase .zero
              (lex "x ^^ let y = 1"))
      ∧ ((driver .all).offerMany (initialState .toplevelPhrase) (lexWords "x ^^")).outcome
          = .intermediate s
      ∧ (driver .all).step s semi = .success ⟨.postfixed (.var "x") ["^", "^"], .empty⟩
      ∧ ((driver .all).step s semi).isIntermediate = false := by
  intro s semi
  obtain ⟨parses, s₀, start, ends⟩ := parse_single_phrase .all .toplevelPhrase rfl .zero
  cases start
  have fed : ((driver .all).offerMany (initialState .toplevelPhrase) (lexWords "x ^^")).outcome
      = .intermediate s := rfl
  exact ⟨⟨rfl, parses _⟩, fed, rfl, ends _ s _ (.offerMany [] _ _ s .start fed)⟩

end Mini

end TolerantParser
