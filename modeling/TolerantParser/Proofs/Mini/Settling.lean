import TolerantParser.Mini.Automaton
import TolerantParser.Proofs.Driver.PlainRun

/-! # How the miniature automaton settles

`settled` is where the automaton ends up when a token is offered on a stack.  It has one equation
for each action, and unfolding it is never needed beyond them.  What a reduction preserves holds of
the stack on which the token is at last taken up or accepted: `exists_shift_of_needsInput` and
`exists_accept_of_accepted`.  What shifts extend by the token holds where a run accepts
(`exists_accept_of_run`); where it waits, its last token is on top (`exists_top_of_run`). -/

set_option autoImplicit false

namespace TolerantParser.Mini

def driver (h : Heuristics) : Driver Env Tree := ⟨automaton, h⟩

def initialState (goal : Goal) : State Env := ⟨⟨goal, startStack goal, none⟩, .empty, none⟩

theorem initial_driver (h : Heuristics) (goal : Goal) (o : Offset) :
    (driver h).initial goal o = .ok (initialState goal) := rfl

def settled (goal : Goal) (s : Stack) (t : Token) : Settled Env Tree :=
  automaton.settle (consult goal s t)

theorem offerSettled_eq (env : Env) (t : Token) :
    automaton.offerSettled env t = settled env.goal env.stack t := rfl

theorem read_eq_error_of_settled
    (h : Heuristics)
    (t : Token)
    (env : Env)
    (docstrings : Docstrings)
    (b : Breakdown Env)
    (refused : settled env.goal env.stack t = .failed b) :
    (driver h).read env docstrings t = .error ⟨b, docstrings, t⟩ := by
  have offered : (driver h).automaton.offerSettled env t = .failed b := refused
  simp only [Driver.read, offered]

section Equations
variable (goal : Goal) (s s' : Stack) (t : Token)

theorem settled_of_shift
    (next : nextAction goal t.tag s.marks = .shift) :
    settled goal s t = .needsInput ⟨goal, .token t :: s, none⟩ := by
  have consulted : consult goal s t = .shifting ⟨goal, s, some t⟩ := by
    simp only [consult, next]
  rw [settled, consulted, automaton.settle_of_isInternal _ rfl]
  exact automaton.settle_of_settled? _ _ rfl

theorem settled_of_reduce
    (r : Reduction)
    (next : nextAction goal t.tag s.marks = .reduce r)
    (applied : r.apply s = some s') :
    settled goal s t = settled goal s' t := by
  have consulted : consult goal s t = .aboutToReduce ⟨goal, s, some t⟩ := by
    simp only [consult, next]
  have resumed : automaton.resume (.aboutToReduce ⟨goal, s, some t⟩) = consult goal s' t := by
    have reduced : reduced? goal s t.tag = some s' := by simp only [reduced?, next, applied]
    simp only [automaton, resume, reduced]
  rw [settled, consulted, automaton.settle_of_isInternal _ rfl, resumed, settled]

theorem settled_of_impossible_reduce
    (r : Reduction)
    (next : nextAction goal t.tag s.marks = .reduce r)
    (applied : r.apply s = none) :
    settled goal s t = .failed .rejected := by
  have consulted : consult goal s t = .aboutToReduce ⟨goal, s, some t⟩ := by
    simp only [consult, next]
  have resumed : automaton.resume (.aboutToReduce ⟨goal, s, some t⟩) = .rejected := by
    have reduced : reduced? goal s t.tag = none := by simp only [reduced?, next, applied]
    simp only [automaton, resume, reduced]
  rw [settled, consulted, automaton.settle_of_isInternal _ rfl, resumed]
  exact automaton.settle_of_settled? _ _ rfl

theorem settled_of_error
    (next : nextAction goal t.tag s.marks = .error) :
    settled goal s t = .failed (.handlingError ⟨goal, s, some t⟩) := by
  have consulted : consult goal s t = .handlingError ⟨goal, s, some t⟩ := by
    simp only [consult, next]
  rw [settled, consulted]
  exact automaton.settle_of_settled? _ _ rfl

theorem settled_of_accept
    (value : Tree)
    (next : nextAction goal t.tag s.marks = .accept)
    (complete : acceptedValue? goal s = some value) :
    settled goal s t = .accepted value := by
  have consulted : consult goal s t = .accepted value := by
    simp only [consult, next, complete]
  rw [settled, consulted]
  exact automaton.settle_of_settled? _ _ rfl

theorem settled_of_incomplete_accept
    (next : nextAction goal t.tag s.marks = .accept)
    (incomplete : acceptedValue? goal s = none) :
    settled goal s t = .failed (.handlingError ⟨goal, s, some t⟩) := by
  have consulted : consult goal s t = .handlingError ⟨goal, s, some t⟩ := by
    simp only [consult, next, incomplete]
  rw [settled, consulted]
  exact automaton.settle_of_settled? _ _ rfl

end Equations

/-! ## What reductions preserve -/

theorem reduced?_eq_some_iff
    (goal : Goal)
    (s s' : Stack)
    (la : Tag) :
    reduced? goal s la = some s' ↔
      ∃ r, nextAction goal la s.marks = .reduce r ∧ r.apply s = some s' := by
  unfold reduced?
  cases next : nextAction goal la s.marks <;> simp

/-- Reductions lead to a stack on which there are none, and whatever each of them preserves holds
there.  The induction is on the energy, which every reduction uses up. -/
theorem exists_irreducible
    (goal : Goal)
    (t : Token)
    (P : Stack → Prop)
    (preserved : ∀ s r s', P s → nextAction goal t.tag s.marks = .reduce r →
      r.apply s = some s' → P s')
    (s : Stack)
    (start : P s) :
    ∃ s', P s' ∧ settled goal s t = settled goal s' t ∧ reduced? goal s' t.tag = none := by
  induction energy : s.energy using Nat.strongRecOn generalizing s with
  | ind n ih =>
    cases reduced : reduced? goal s t.tag with
    | none => exact ⟨s, start, rfl, reduced⟩
    | some s' =>
      obtain ⟨r, next, applied⟩ := (reduced?_eq_some_iff goal s s' t.tag).mp reduced
      have less := energy_reduced?_lt goal s s' t.tag reduced
      obtain ⟨final, holds, same, irreducible⟩ :=
        ih s'.energy (by omega) s' (preserved s r s' start next applied) rfl
      refine ⟨final, holds, ?_, irreducible⟩
      rw [settled_of_reduce goal s s' t r next applied, same]

theorem shift_of_irreducible
    (goal : Goal)
    (s : Stack)
    (t : Token)
    (env : Env)
    (irreducible : reduced? goal s t.tag = none)
    (arrived : settled goal s t = .needsInput env) :
    nextAction goal t.tag s.marks = .shift ∧ env = ⟨goal, .token t :: s, none⟩ := by
  cases next : nextAction goal t.tag s.marks with
  | shift =>
    rw [settled_of_shift goal s t next] at arrived
    cases arrived
    exact ⟨rfl, rfl⟩
  | reduce r =>
    have impossible : r.apply s = none := by simpa only [reduced?, next] using irreducible
    rw [settled_of_impossible_reduce goal s t r next impossible] at arrived
    cases arrived
  | accept =>
    cases complete : acceptedValue? goal s with
    | some value =>
      rw [settled_of_accept goal s t value next complete] at arrived
      cases arrived
    | none =>
      rw [settled_of_incomplete_accept goal s t next complete] at arrived
      cases arrived
  | error =>
    rw [settled_of_error goal s t next] at arrived
    cases arrived

theorem accept_of_irreducible
    (goal : Goal)
    (s : Stack)
    (t : Token)
    (value : Tree)
    (irreducible : reduced? goal s t.tag = none)
    (arrived : settled goal s t = .accepted value) :
    nextAction goal t.tag s.marks = .accept ∧ acceptedValue? goal s = some value := by
  cases next : nextAction goal t.tag s.marks with
  | shift =>
    rw [settled_of_shift goal s t next] at arrived
    cases arrived
  | reduce r =>
    have impossible : r.apply s = none := by simpa only [reduced?, next] using irreducible
    rw [settled_of_impossible_reduce goal s t r next impossible] at arrived
    cases arrived
  | accept =>
    cases complete : acceptedValue? goal s with
    | some value' =>
      rw [settled_of_accept goal s t value' next complete] at arrived
      cases arrived
      exact ⟨rfl, rfl⟩
    | none =>
      rw [settled_of_incomplete_accept goal s t next complete] at arrived
      cases arrived
  | error =>
    rw [settled_of_error goal s t next] at arrived
    cases arrived

theorem exists_shift_of_needsInput
    (goal : Goal)
    (t : Token)
    (P : Stack → Prop)
    (preserved : ∀ s r s', P s → nextAction goal t.tag s.marks = .reduce r →
      r.apply s = some s' → P s')
    (s : Stack)
    (start : P s)
    (env : Env)
    (arrived : settled goal s t = .needsInput env) :
    ∃ s', P s' ∧ nextAction goal t.tag s'.marks = .shift
      ∧ env = ⟨goal, .token t :: s', none⟩ := by
  obtain ⟨s', holds, same, irreducible⟩ := exists_irreducible goal t P preserved s start
  exact ⟨s', holds, shift_of_irreducible goal s' t env irreducible (same ▸ arrived)⟩

theorem exists_accept_of_accepted
    (goal : Goal)
    (t : Token)
    (P : Stack → Prop)
    (preserved : ∀ s r s', P s → nextAction goal t.tag s.marks = .reduce r →
      r.apply s = some s' → P s')
    (s : Stack)
    (start : P s)
    (value : Tree)
    (arrived : settled goal s t = .accepted value) :
    ∃ s', P s' ∧ nextAction goal t.tag s'.marks = .accept
      ∧ acceptedValue? goal s' = some value := by
  obtain ⟨s', holds, same, irreducible⟩ := exists_irreducible goal t P preserved s start
  exact ⟨s', holds, accept_of_irreducible goal s' t value irreducible (same ▸ arrived)⟩

/-! ## Runs -/

/-- What reductions keep and shifts extend by their token holds on the stack that a run accepts, of
all its tokens but the last.  `P la s us` says it of the stack `s` before a token with the tag `la`,
with the tokens `us` that were taken up so far. -/
theorem exists_accept_of_run
    (goal : Goal)
    (P : Tag → Stack → List Token → Prop)
    (reduce : ∀ la s us r s', P la s us → nextAction goal la s.marks = .reduce r →
      r.apply s = some s' → P la s' us)
    (shift : ∀ la t s us, P t.tag s us → nextAction goal t.tag s.marks = .shift →
      P la (.token t :: s) (us ++ [t]))
    (s : Stack)
    (us ts : List Token)
    (e : Token)
    (value : Tree)
    (start : ∀ la, P la s us)
    (run : automaton.run ⟨goal, s, none⟩ (ts ++ [e]) = some (.accepted value)) :
    ∃ s', P e.tag s' (us ++ ts) ∧ nextAction goal e.tag s'.marks = .accept
      ∧ acceptedValue? goal s' = some value := by
  obtain ⟨before, t, last, split, read, ends⟩ := automaton.exists_last_of_run _ _ value run
  obtain ⟨rfl, lastToken⟩ := List.append_inj' split rfl
  cases lastToken
  obtain ⟨s', rfl, holds⟩ := automaton.history_of_run
    (fun us env => ∃ s, env = ⟨goal, s, none⟩ ∧ ∀ la, P la s us)
    (by
      rintro us _ t next ⟨s, rfl, holds⟩ offered
      obtain ⟨s', reached, action, rfl⟩ := exists_shift_of_needsInput goal t
        (fun s => P t.tag s us) (fun s r s' => reduce t.tag s us r s') s (holds t.tag) next offered
      exact ⟨_, rfl, fun la => shift la t s' us reached action⟩)
    ⟨goal, s, none⟩ last us ts ⟨s, rfl, start⟩ read
  exact exists_accept_of_accepted goal e (fun s => P e.tag s (us ++ ts))
    (fun s r s' => reduce e.tag s (us ++ ts) r s') s' (holds e.tag) value ends

theorem exists_top_of_offerSettled
    (env next : Env)
    (t : Token)
    (arrived : automaton.offerSettled env t = .needsInput next) :
    ∃ below, next = ⟨env.goal, .token t :: below, none⟩ := by
  obtain ⟨below, _, _, standing⟩ := exists_shift_of_needsInput env.goal t (fun _ => True)
    (fun _ _ _ _ _ _ => trivial) env.stack trivial next arrived
  exact ⟨below, standing⟩

theorem exists_top_of_run
    (env next : Env)
    (ts : List Token)
    (t : Token)
    (run : automaton.run env ts = some (.needsInput next))
    (isLast : ts.getLast? = some t) :
    ∃ below, next.stack = .token t :: below := by
  refine automaton.history_of_run
    (fun us env => ∀ t, us.getLast? = some t → ∃ below, env.stack = .token t :: below)
    ?_ env next [] ts nofun run t isLast
  intro us env u next _ arrived t isLast
  obtain ⟨below, rfl⟩ := exists_top_of_offerSettled env next u arrived
  obtain rfl : u = t := by simpa using isLast
  exact ⟨below, rfl⟩

end TolerantParser.Mini
