import TolerantParser.Proofs.Driver.Lockstep
import TolerantParser.Proofs.Mini.Settling

/-! # Implementation files and use files

The automaton asks for its goal where an item may start, after a bound name, where a name may be a
type, and where an expression, a type or an item may be the whole of the input.  In none of these
places does it tell a use file from an implementation file (`nextAction_useFile`).  So it takes the
same way on both, and what it accepts differs in the root of the tree (`settlings_useFile`).  Hence
a driver parses both in lockstep, whatever its heuristics (`useFile_in_lockstep`). -/

set_option autoImplicit false

namespace TolerantParser.Mini

/-- Each test of the goal comes out the same, by which the two decisions unfold to one. -/
theorem nextAction_useFile
    (la : Tag)
    (ms : List Mark) :
    nextAction .useFile la ms = nextAction .implementation la ms := rfl

structure Env.SameFile (env env' : Env) : Prop where
  implementation : env.goal = .implementation
  useFile : env'.goal = .useFile
  stack : env'.stack = env.stack

def Tree.SameItems (v v' : Tree) : Prop := ∃ is, v = .implementation is ∧ v' = .phrases is

def sameFile : Likeness Env Env Tree Tree := .onSameTokens Env.SameFile Tree.SameItems

theorem acceptedValue?_useFile (s : Stack) :
    Option.Rel Tree.SameItems (acceptedValue? .implementation s) (acceptedValue? .useFile s) := by
  cases s with
  | nil => exact .none
  | cons top below =>
    cases below with
    | cons => cases top <;> exact .none
    | nil =>
      cases top with
      | items is => exact .some ⟨is, rfl, rfl⟩
      | token | expr | args | type | item => exact .none

theorem settlings_useFile
    (s : Stack)
    (t : Token) :
    sameFile.Settlings (settled .implementation s t) (settled .useFile s t) := by
  -- each reduction of one file is one of the other file, so that both go on from the same stack
  obtain ⟨s', sameUse, same, irreducible⟩ := exists_irreducible .implementation t
    (fun s' => settled .useFile s t = settled .useFile s' t)
    (fun s₁ r s₂ sameUse next applied =>
      sameUse.trans (settled_of_reduce .useFile s₁ s₂ t r ((nextAction_useFile _ _).trans next)
        applied))
    s rfl
  rw [same, sameUse]
  have sameNext := nextAction_useFile t.tag s'.marks
  cases next : nextAction .implementation t.tag s'.marks with
  | shift =>
    rw [settled_of_shift .implementation s' t next,
      settled_of_shift .useFile s' t (sameNext.trans next)]
    exact .needsInput _ _ ⟨rfl, rfl, rfl⟩
  | reduce r =>
    have impossible : r.apply s' = none := by simpa only [reduced?, next] using irreducible
    rw [settled_of_impossible_reduce .implementation s' t r next impossible,
      settled_of_impossible_reduce .useFile s' t r (sameNext.trans next) impossible]
    exact .failed _ _
  | accept =>
    have values := acceptedValue?_useFile s'
    generalize complete : acceptedValue? .implementation s' = x,
      complete' : acceptedValue? .useFile s' = x' at values
    cases values with
    | none =>
      rw [settled_of_incomplete_accept .implementation s' t next complete,
        settled_of_incomplete_accept .useFile s' t (sameNext.trans next) complete']
      exact .failed _ _
    | some both =>
      rw [settled_of_accept .implementation s' t _ next complete,
        settled_of_accept .useFile s' t _ (sameNext.trans next) complete']
      exact .accepted _ _ both
  | error =>
    rw [settled_of_error .implementation s' t next,
      settled_of_error .useFile s' t (sameNext.trans next)]
    exact .failed _ _

theorem kept_useFile (h : Heuristics) : sameFile.Kept (driver h) (driver h) := by
  refine Likeness.kept_onSameTokens _ _ automaton automaton h ?_
  rintro ⟨_, _, _⟩ ⟨_, s, _⟩ t ⟨rfl, rfl, rfl⟩
  exact settlings_useFile s t

theorem states_initialState_useFile :
    sameFile.States (initialState .implementation) (initialState .useFile) where
  env := ⟨rfl, rfl, rfl⟩
  docstrings := .nil
  pending := .none

theorem pending_eq_of_rel
    (x x' : Option (Pending Env))
    (pending : Option.Rel sameFile.Pendings x x') :
    x'.map (fun p => (p.count, p.position, p.fallback.stack))
      = x.map fun p => (p.count, p.position, p.fallback.stack) := by
  cases pending with
  | none => rfl
  | @some p p' both =>
    have position : p.position = p'.position := both.position
    rw [Option.map_some, Option.map_some, both.count, position, both.fallback.stack]

/-- A use file is parsed in lockstep with an implementation file.  Over every stream, and so after
each token of it, both have pulled equally many tokens and come equally far: to states with the same
stack, the same doc comments and the same open reading of a marker run; to a module and to phrases
with the same items; or to errors that blame the same token and have the same doc comments. -/
theorem useFile_in_lockstep
    (h : Heuristics)
    (o : Offset) :
    ∃ s₀ s₀', (driver h).initial .implementation o = .ok s₀
      ∧ (driver h).initial .useFile o = .ok s₀'
      ∧ ∀ ts,
        let fed := (driver h).offerMany s₀ ts
        let fed' := (driver h).offerMany s₀' ts
        fed'.pulled = fed.pulled
          ∧ ((∃ s s', fed.outcome = .intermediate s ∧ fed'.outcome = .intermediate s'
              ∧ s'.env.stack = s.env.stack ∧ s'.docstrings = s.docstrings
              ∧ s'.pending.map (fun p => (p.count, p.position, p.fallback.stack))
                = s.pending.map fun p => (p.count, p.position, p.fallback.stack))
            ∨ (∃ p p' items, fed.outcome = .success p ∧ fed'.outcome = .success p'
              ∧ p.value = .implementation items ∧ p'.value = .phrases items
              ∧ p'.docstrings = p.docstrings)
            ∨ ∃ e e', fed.outcome = .error e ∧ fed'.outcome = .error e'
              ∧ e'.token = e.token ∧ e'.docstrings = e.docstrings) := by
  refine ⟨_, _, initial_driver h .implementation o, initial_driver h .useFile o, ?_⟩
  intro ts fed fed'
  obtain ⟨pulled, outcomes⟩ := (kept_useFile h).offerMany sameFile _ _ _ _
    states_initialState_useFile ts ts (List.forall₂_same.mpr fun _ _ => rfl)
  have same (ds ds' : Docstrings) : sameFile.Docs ds ds' → ds' = ds :=
    (Likeness.docs_onSameTokens_iff _ _ ds ds').mp
  refine ⟨pulled, ?_⟩
  change sameFile.Outcomes fed.outcome fed'.outcome at outcomes
  generalize fed.outcome = x, fed'.outcome = x' at outcomes
  cases outcomes with
  | intermediate s s' states =>
    exact .inl ⟨s, s', rfl, rfl, states.env.stack, same _ _ states.docstrings,
      pending_eq_of_rel _ _ states.pending⟩
  | success p p' values docstrings =>
    obtain ⟨items, value, value'⟩ := values
    exact .inr (.inl ⟨p, p', items, rfl, rfl, value, value', same _ _ docstrings⟩)
  | error e e' tokens docstrings =>
    exact .inr (.inr ⟨e, e', rfl, rfl, Eq.symm tokens, same _ _ docstrings⟩)

end TolerantParser.Mini
