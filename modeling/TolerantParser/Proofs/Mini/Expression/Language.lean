import TolerantParser.Proofs.Driver.Conservative
import TolerantParser.Proofs.Mini.Expression.Completeness
import TolerantParser.Proofs.Mini.Expression.Soundness

/-! # The language of the expression goal

A run of the automaton accepts an expression exactly if the tokens before the end of the file
derive it (`run_eq_accepted_iff_yields`).  A driver without heuristics does what its automaton
does, so the same holds of its parses. -/

set_option autoImplicit false

namespace TolerantParser.Mini

theorem opening_expression : Opening .expression (Stack.marks []) := .bottom (.inl rfl)

section Bottom
variable (la : Tag) (s : Stack) (us : List Token)

theorem Reached.reduce_of_expression
    (s' : Stack)
    (r : Reduction)
    (reached : Reached [] la s us)
    (next : nextAction .expression la s.marks = .reduce r)
    (applied : r.apply s = some s') :
    Reached [] la s' us := by
  rcases reached.reduce .expression [] la opening_expression s s' us r next applied with
    reached' | ⟨v, rfl, _⟩
  · exact reached'
  · have place : Place .expression (.operand .e1) [] := .opening _ opening_expression
    have above : nextAction .expression la [.expr] = .reduce r := next
    rw [place.nextAction_above .expression [] la] at above
    simp only [closeExpr, if_true] at above
    split at above
    · cases above
    · split at above <;> cases above

theorem Reached.shift_of_expression
    (t : Token)
    (reached : Reached [] t.tag s us)
    (next : nextAction .expression t.tag s.marks = .shift) :
    Reached [] la (.token t :: s) (us ++ [t]) := by
  rcases reached.shift .expression [] la opening_expression t s us next with
    reached' | ⟨rfl, _, noOperand⟩
  · exact reached'
  · have decided : nextAction .expression t.tag (Stack.marks []) = .shiftIf (startsOperand t.tag) :=
      rfl
    rw [next, noOperand] at decided
    cases decided

theorem Reached.yields_of_acceptedValue?
    (v : Tree)
    (reached : Reached [] la s us)
    (complete : acceptedValue? .expression s = some v) :
    Yields (.expr .e1 v) us := by
  have single : s = [.expr v] := by
    unfold acceptedValue? at complete
    split at complete <;> simp_all
  subst single
  cases reached with
  | awaiting slot _ us awaits => cases awaits with
    | plain _ _ outer => cases outer
  | expr k l v _ us vs outer fits ends yields => cases outer with
    | base => exact yields.loosen k .e1 v vs (Level.e1_le k)
    | plain _ _ outer => cases outer

end Bottom

theorem yields_of_run
    (ts : List Token)
    (e : Token)
    (v : Tree)
    (run : automaton.run ⟨.expression, [], none⟩ (ts ++ [e]) = some (.accepted v)) :
    Yields (.expr .e1 v) ts := by
  obtain ⟨s, reached, _, complete⟩ := exists_accept_of_run .expression (Reached [])
    (fun la s us r s' => Reached.reduce_of_expression la s us s' r)
    (fun la t s us => Reached.shift_of_expression la s us t)
    [] [] ts e v (fun la => .awaiting _ _ _ .base) run
  exact reached.yields_of_acceptedValue? e.tag s ts v complete

theorem run_of_yields
    (ts : List Token)
    (e : Token)
    (v : Tree)
    (ends : e.tag = .eof)
    (yields : Yields (.expr .e1 v) ts) :
    automaton.run ⟨.expression, [], none⟩ (ts ++ [e]) = some (.accepted v) := by
  have place : Place .expression (.operand .e1) (Stack.marks []) := .opening _ opening_expression
  have read := reads_of_yields .expression _ ts yields .e1 [] e [] place (Level.le_refl _)
    (by rw [ends]; decide) (by rw [ends]; decide)
  have accept : nextAction .expression e.tag (Stack.marks [.expr v]) = .accept := by
    rw [ends]
    rfl
  rw [read, Automaton.run_singleton, offerSettled_eq]
  exact congrArg some (settled_of_accept .expression [.expr v] e v accept rfl)

theorem run_eq_accepted_iff_yields
    (ts : List Token)
    (e : Token)
    (v : Tree)
    (ends : e.tag = .eof) :
    automaton.run ⟨.expression, [], none⟩ (ts ++ [e]) = some (.accepted v)
      ↔ Yields (.expr .e1 v) ts := by
  constructor
  · exact yields_of_run ts e v
  · intro yields
    exact run_of_yields ts e v ends yields

/-- Offering the tokens and then the end of the file, without heuristics, succeeds on the latter
exactly if the tokens derive the value as an expression.  No doc comments are set aside. -/
theorem offerMany_expression_iff_yields
    (o : Offset)
    (ts : List Token)
    (span : Span)
    (p : Parsed Tree) :
    ((driver .empty).initial .expression o).map
          (fun s => (driver .empty).offerMany s (ts ++ [⟨.eof, span⟩]))
        = .ok ⟨.success p, ts.length + 1⟩
      ↔ Yields (.expr .e1 p.value) ts ∧ p.docstrings = .empty := by
  have whole : (ts ++ [(⟨.eof, span⟩ : Token)]).length = ts.length + 1 := by simp
  have offered := Driver.offerMany_of_empty_eq_success_iff automaton ⟨.expression, [], none⟩ .empty
    (ts ++ [⟨.eof, span⟩]) p
  rw [whole, run_eq_accepted_iff_yields ts ⟨.eof, span⟩ p.value rfl] at offered
  rw [initial_driver, ← offered, Except.map, Except.ok.injEq]
  rfl

end TolerantParser.Mini
