import Mathlib.Data.List.Forall2
import TolerantParser.Driver.Parse

/-! # Parses in lockstep

A `Likeness` says what corresponds to what in two parses: environments, values, tokens, doc comments
and positions.  It is `Kept` by two drivers if corresponding tokens are treated alike and their
automata, offered such tokens, settle kept.  Then it is kept over whole streams, through second
readings and remedies: both drivers pull equally many tokens and come to corresponding outcomes
(`Kept.offerMany`).  Where tokens, doc comments and positions are to be the same, only the automata
are left to compare (`kept_onSameTokens`). -/

set_option autoImplicit false

namespace TolerantParser

variable {Env Env' Value Value' : Type}

structure Likeness (Env Env' Value Value' : Type) where
  env : Env → Env' → Prop
  value : Value → Value' → Prop
  token : Token → Token → Prop
  docstring : Docstring → Docstring → Prop
  position : Offset → Offset → Prop

namespace Likeness

def onSameTokens (env : Env → Env' → Prop) (value : Value → Value' → Prop) :
    Likeness Env Env' Value Value' :=
  ⟨env, value, Eq, Eq, Eq⟩

variable (L : Likeness Env Env' Value Value')

def Docs (ds ds' : Docstrings) : Prop := List.Forall₂ L.docstring ds.toList ds'.toList

inductive Remedies : Remedy → Remedy → Prop
  | setAside (d d' : Docstring)
      (docs : L.docstring d d') :
      Remedies (.setAside d) (.setAside d')
  | retry (ts ts' : List Token)
      (tokens : List.Forall₂ L.token ts ts') :
      Remedies (.retry ts) (.retry ts')

/-- Where the automata fail is of no account. -/
inductive Settlings : Settled Env Value → Settled Env' Value' → Prop
  | needsInput (env : Env) (env' : Env')
      (envs : L.env env env') :
      Settlings (.needsInput env) (.needsInput env')
  | accepted (v : Value) (v' : Value')
      (values : L.value v v') :
      Settlings (.accepted v) (.accepted v')
  | failed (b : Breakdown Env) (b' : Breakdown Env') : Settlings (.failed b) (.failed b')

structure Pendings (p : Pending Env) (p' : Pending Env') : Prop where
  fallback : L.env p.fallback p'.fallback
  count : p'.count = p.count
  position : L.position p.position p'.position

structure States (s : State Env) (s' : State Env') : Prop where
  env : L.env s.env s'.env
  docstrings : L.Docs s.docstrings s'.docstrings
  pending : Option.Rel L.Pendings s.pending s'.pending

inductive Outcomes : Outcome Env Value → Outcome Env' Value' → Prop
  | intermediate (s : State Env) (s' : State Env')
      (states : L.States s s') :
      Outcomes (.intermediate s) (.intermediate s')
  | success (p : Parsed Value) (p' : Parsed Value')
      (values : L.value p.value p'.value)
      (docstrings : L.Docs p.docstrings p'.docstrings) :
      Outcomes (.success p) (.success p')
  | error (e : Failure Env) (e' : Failure Env')
      (tokens : L.token e.token e'.token)
      (docstrings : L.Docs e.docstrings e'.docstrings) :
      Outcomes (.error e) (.error e')

theorem docs_push
    (ds ds' : Docstrings)
    (d d' : Docstring)
    (before : L.Docs ds ds')
    (last : L.docstring d d') :
    L.Docs (ds.push d) (ds'.push d') := by
  unfold Docs
  rw [Docstrings.toList_push, Docstrings.toList_push]
  exact List.rel_append before (.cons last .nil)

section Outcomes
variable (o : Outcome Env Value) (o' : Outcome Env' Value') (outcomes : L.Outcomes o o')
include outcomes

theorem notError? : Option.Rel L.Outcomes o.notError? o'.notError? := by
  cases outcomes with
  | intermediate s s' states => exact .some (.intermediate s s' states)
  | success p p' values docstrings => exact .some (.success p p' values docstrings)
  | error => exact .none

theorem orElse
    (other : Option (Outcome Env Value))
    (other' : Option (Outcome Env' Value'))
    (others : Option.Rel L.Outcomes other other') :
    L.Outcomes (o.orElse other) (o'.orElse other') := by
  cases outcomes with
  | intermediate s s' states => exact .intermediate s s' states
  | success p p' values docstrings => exact .success p p' values docstrings
  | error e e' tokens docstrings =>
    cases others with
    | some both => exact both
    | none => exact .error e e' tokens docstrings

end Outcomes

/-- Corresponding tokens are marker runs alike and have corresponding remedies, and offered such
tokens, corresponding environments settle alike. -/
structure Kept
    (d : Driver Env Value)
    (d' : Driver Env' Value') :
    Prop where
  heuristics : d'.heuristics = d.heuristics
  markerCount : ∀ t t', L.token t t' → t'.kind.markerCount = t.kind.markerCount
  position : ∀ t t', L.token t t' → L.position t.span.start t'.span.start
  markers : ∀ n o o', L.position o o' →
    List.Forall₂ L.token (markerTokens n o) (markerTokens n o')
  remedy? : ∀ t t', L.token t t' →
    Option.Rel L.Remedies (d.heuristics.remedy? t) (d.heuristics.remedy? t')
  settled : ∀ env env' t t', L.env env env' → L.token t t' →
    L.Settlings (d.automaton.offerSettled env t) (d'.automaton.offerSettled env' t')

namespace Kept

variable (d : Driver Env Value) (d' : Driver Env' Value') (kept : L.Kept d d')
include kept

theorem pendingAfter
    (env : Env)
    (env' : Env')
    (t t' : Token)
    (envs : L.env env env')
    (tokens : L.token t t') :
    Option.Rel L.Pendings (d.pendingAfter env t) (d'.pendingAfter env' t') := by
  unfold Driver.pendingAfter
  rw [kept.heuristics, kept.markerCount t t' tokens]
  split
  · cases t.kind.markerCount with
    | none => exact .none
    | some n => exact .some ⟨envs, rfl, kept.position t t' tokens⟩
  · exact .none

theorem read
    (env : Env)
    (env' : Env')
    (ds ds' : Docstrings)
    (t t' : Token)
    (envs : L.env env env')
    (docstrings : L.Docs ds ds')
    (tokens : L.token t t') :
    L.Outcomes (d.read env ds t) (d'.read env' ds' t') := by
  have settled := kept.settled env env' t t' envs tokens
  have pending := kept.pendingAfter L d d' env env' t t' envs tokens
  unfold Driver.read
  generalize d.automaton.offerSettled env t = x, d'.automaton.offerSettled env' t' = x' at settled
  cases settled with
  | needsInput next next' envs => exact .intermediate _ _ ⟨envs, docstrings, pending⟩
  | accepted v v' values => exact .success _ _ values docstrings
  | failed b b' => exact .error _ _ tokens docstrings

theorem offerAll
    (env : Env)
    (env' : Env')
    (ts ts' : List Token)
    (envs : L.env env env')
    (tokens : List.Forall₂ L.token ts ts') :
    Option.Rel L.env (d.automaton.offerAll env ts) (d'.automaton.offerAll env' ts') := by
  induction tokens generalizing env env' with
  | nil => exact .some envs
  | @cons t t' ts ts' first _ ih =>
    have settled := kept.settled env env' t t' envs first
    unfold Automaton.offerAll
    generalize d.automaton.offerSettled env t = x, d'.automaton.offerSettled env' t' = x' at settled
    cases settled with
    | needsInput next next' envs => exact ih next next' envs
    | accepted => exact .none
    | failed => exact .none

theorem reread
    (p : Pending Env)
    (p' : Pending Env')
    (ds ds' : Docstrings)
    (t t' : Token)
    (pending : L.Pendings p p')
    (docstrings : L.Docs ds ds')
    (tokens : L.token t t') :
    Option.Rel L.Outcomes (d.reread p ds t) (d'.reread p' ds' t') := by
  have replayed := kept.offerAll L d d' p.fallback p'.fallback _ _ pending.fallback
    (kept.markers p.count p.position p'.position pending.position)
  unfold Driver.reread
  rw [pending.count]
  generalize d.automaton.offerAll p.fallback _ = x, d'.automaton.offerAll p'.fallback _ = x'
    at replayed
  cases replayed with
  | none => exact .none
  | some envs =>
    exact L.notError? _ _ (kept.read L d d' _ _ ds ds' t t' envs docstrings tokens)

section States
variable (s : State Env) (s' : State Env') (states : L.States s s')
include states

theorem step
    (t t' : Token)
    (tokens : L.token t t') :
    L.Outcomes (d.step s t) (d'.step s' t') := by
  have first := kept.read L d d' s.env s'.env s.docstrings s'.docstrings t t' states.env
    states.docstrings tokens
  refine L.orElse _ _ first _ _ ?_
  have pending := states.pending
  generalize s.pending = x, s'.pending = x' at pending
  cases pending with
  | none => exact .none
  | some pending => exact kept.reread L d d' _ _ _ _ t t' pending states.docstrings tokens

theorem stepAll
    (ts ts' : List Token)
    (tokens : List.Forall₂ L.token ts ts') :
    Option.Rel L.Outcomes (d.stepAll s ts) (d'.stepAll s' ts') := by
  induction tokens generalizing s s' with
  | nil => exact .some (.intermediate s s' states)
  | @cons t t' ts ts' first rest ih =>
    have stepped := kept.step L d d' s s' states t t' first
    unfold Driver.stepAll
    generalize d.step s t = o, d'.step s' t' = o' at stepped
    cases stepped with
    | intermediate next next' states => exact ih next next' states
    | success p p' values docstrings =>
      cases rest with
      | nil => exact .some (.success p p' values docstrings)
      | cons => exact .none
    | error => exact .none

theorem apply
    (r r' : Remedy)
    (remedies : L.Remedies r r') :
    Option.Rel L.Outcomes (d.apply s r) (d'.apply s' r') := by
  cases remedies with
  | setAside doc doc' docs =>
    have pushed := L.docs_push _ _ doc doc' states.docstrings docs
    exact .some (.intermediate _ _ ⟨states.env, pushed, states.pending⟩)
  | retry ts ts' tokens => exact kept.stepAll L d d' s s' states ts ts' tokens

theorem offer
    (t t' : Token)
    (tokens : L.token t t') :
    L.Outcomes (d.offer s t) (d'.offer s' t') := by
  refine L.orElse _ _ (kept.step L d d' s s' states t t' tokens) _ _ ?_
  have remedies := kept.remedy? t t' tokens
  rw [kept.heuristics]
  generalize d.heuristics.remedy? t = x, d.heuristics.remedy? t' = x' at remedies
  cases remedies with
  | none => exact .none
  | some remedies => exact kept.apply L d d' s s' states _ _ remedies

theorem offerMany
    (ts ts' : List Token)
    (tokens : List.Forall₂ L.token ts ts') :
    (d'.offerMany s' ts').pulled = (d.offerMany s ts).pulled
      ∧ L.Outcomes (d.offerMany s ts).outcome (d'.offerMany s' ts').outcome := by
  induction tokens generalizing s s' with
  | nil => exact ⟨rfl, .intermediate s s' states⟩
  | @cons t t' ts ts' first _ ih =>
    have offered := kept.offer L d d' s s' states t t' first
    unfold Driver.offerMany
    generalize d.offer s t = o, d'.offer s' t' = o' at offered
    cases offered with
    | intermediate next next' states =>
      obtain ⟨pulled, outcomes⟩ := ih next next' states
      exact ⟨congrArg (· + 1) pulled, outcomes⟩
    | success p p' values docstrings => exact ⟨rfl, .success p p' values docstrings⟩
    | error e e' tokens docstrings => exact ⟨rfl, .error e e' tokens docstrings⟩

end States

end Kept

end Likeness

/-! ## The same tokens -/

section SameTokens
variable (env : Env → Env' → Prop) (value : Value → Value' → Prop)

theorem Likeness.docs_onSameTokens_iff
    (ds ds' : Docstrings) :
    (onSameTokens env value).Docs ds ds' ↔ ds' = ds := by
  unfold Docs onSameTokens
  rw [List.forall₂_eq_eq_eq, eq_comm]
  exact ⟨ds'.ext_toList ds, congrArg Docstrings.toList⟩

theorem Likeness.kept_onSameTokens
    (A : Automaton Env Value)
    (A' : Automaton Env' Value')
    (h : Heuristics)
    (settled : ∀ e e' t, env e e' →
      (onSameTokens env value).Settlings (A.offerSettled e t) (A'.offerSettled e' t)) :
    (onSameTokens env value).Kept ⟨A, h⟩ ⟨A', h⟩ where
  heuristics := rfl
  markerCount := by
    rintro t _ rfl
    rfl
  position := by
    rintro t _ rfl
    exact rfl
  markers := by
    rintro n o _ rfl
    exact List.forall₂_eq_eq_eq ▸ rfl
  remedy? := by
    rintro t _ rfl
    cases h.remedy? t with
    | none => exact .none
    | some r =>
      cases r with
      | setAside d => exact .some (.setAside d d rfl)
      | retry ts => exact .some (.retry ts ts (List.forall₂_eq_eq_eq ▸ rfl))
  settled := by
    rintro e e' t _ envs rfl
    exact settled e e' t envs

end SameTokens

end TolerantParser
