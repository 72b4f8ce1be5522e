import TolerantParser.Proofs.Driver.Reachable
import TolerantParser.Proofs.Mini.Settling
import TolerantParser.Proofs.Mini.Viable.Reduce

/-! # Decisions and actions agree

`Run` collects the checkpoints that a run of the automaton comes by, whatever tokens are offered.
All their stacks are viable (`Run.proper`), so that the automaton never decides on what it cannot
do and gives up nowhere (`decisions_agree_with_actions`). -/

set_option autoImplicit false

namespace TolerantParser.Mini

/-- What offers to waiting checkpoints and internal steps make of the start, and the token that was
offered last. -/
inductive Run (goal : Goal) (o : Offset) : Option Token → Checkpoint Env Tree → Prop
  | start : Run goal o none (automaton.start goal o)
  | offer (last : Option Token) (env : Env) (t : Token)
      (before : Run goal o last (.inputNeeded env)) :
      Run goal o (some t) (automaton.offer env t)
  | resume (last : Option Token) (c : Checkpoint Env Tree)
      (before : Run goal o last c)
      (internal : c.isInternal = true) :
      Run goal o last (automaton.resume c)

/-- A checkpoint on a viable stack that holds the token offered last until it is taken up. -/
inductive Proper (goal : Goal) : Option Token → Checkpoint Env Tree → Prop
  | waiting (last : Option Token) (s : Stack)
      (viable : Viable goal s) :
      Proper goal last (.inputNeeded ⟨goal, s, none⟩)
  | shifting (t : Token) (s : Stack)
      (viable : Viable goal s)
      (next : nextAction goal t.tag s.marks = .shift) :
      Proper goal (some t) (.shifting ⟨goal, s, some t⟩)
  | reducing (t : Token) (s : Stack) (r : Reduction)
      (viable : Viable goal s)
      (next : nextAction goal t.tag s.marks = .reduce r) :
      Proper goal (some t) (.aboutToReduce ⟨goal, s, some t⟩)
  | refusing (t : Token) (s : Stack)
      (viable : Viable goal s) :
      Proper goal (some t) (.handlingError ⟨goal, s, some t⟩)
  | accepted (last : Option Token) (v : Tree) :
      Proper goal last (.accepted v)

section Steps
variable (goal : Goal) (s : Stack) (t : Token)

theorem proper_consult
    (viable : Viable goal s) :
    Proper goal (some t) (consult goal s t) := by
  unfold consult
  cases next : nextAction goal t.tag s.marks with
  | shift => exact .shifting t s viable next
  | reduce r => exact .reducing t s r viable next
  | accept =>
    obtain ⟨v, complete⟩ := (viable.accept goal s t next).1
    simp only [complete]
    exact .accepted _ v
  | error => exact .refusing t s viable

theorem Proper.resume
    (last : Option Token)
    (c : Checkpoint Env Tree)
    (proper : Proper goal last c)
    (internal : c.isInternal = true) :
    Proper goal last (automaton.resume c) := by
  cases proper with
  | shifting t s viable next => exact .waiting _ _ (viable.shift goal s t next)
  | reducing t s r viable next =>
    obtain ⟨s', rewrites, viable'⟩ := viable.reduce goal s t r next
    have reduced : reduced? goal s t.tag = some s' :=
      (reduced?_eq_some_iff goal s s' t.tag).mpr ⟨r, next, rewrites.apply_eq r s s'⟩
    have resumed : automaton.resume (.aboutToReduce ⟨goal, s, some t⟩) = consult goal s' t := by
      simp only [automaton, Mini.resume, reduced]
    rw [resumed]
    exact proper_consult goal s' t viable'
  | waiting | refusing | accepted => cases internal

theorem Run.proper
    (o : Offset)
    (last : Option Token)
    (c : Checkpoint Env Tree)
    (run : Run goal o last c) :
    Proper goal last c := by
  induction run with
  | start => exact .waiting none _ (viable_startStack goal)
  | offer last env t _ ih =>
    cases ih with
    | waiting _ s viable => exact proper_consult goal s t viable
  | resume last c _ internal ih => exact ih.resume goal last c internal

theorem Viable.rewrites_of_apply
    (r : Reduction)
    (s' : Stack)
    (viable : Viable goal s)
    (next : nextAction goal t.tag s.marks = .reduce r)
    (applied : r.apply s = some s') :
    Rewrites r s s' ∧ Viable goal s' := by
  obtain ⟨s'', rewrites, viable'⟩ := viable.reduce goal s t r next
  rw [rewrites.apply_eq r s s''] at applied
  cases applied
  exact ⟨rewrites, viable'⟩

theorem Viable.ne_reduce_of_irreducible
    (r : Reduction)
    (viable : Viable goal s)
    (irreducible : reduced? goal s t.tag = none) :
    nextAction goal t.tag s.marks ≠ .reduce r := by
  intro next
  obtain ⟨s', rewrites, _⟩ := viable.reduce goal s t r next
  simp [reduced?, next, rewrites.apply_eq r s s'] at irreducible

theorem Viable.settled_cases
    (viable : Viable goal s) :
    (∃ s', Viable goal (.token t :: s')
        ∧ settled goal s t = .needsInput ⟨goal, .token t :: s', none⟩)
      ∨ (∃ v, settled goal s t = .accepted v)
      ∨ ∃ s', Viable goal s' ∧ nextAction goal t.tag s'.marks = .error
        ∧ settled goal s t = .failed (.handlingError ⟨goal, s', some t⟩) := by
  obtain ⟨s', viable', same, irreducible⟩ := exists_irreducible goal t (Viable goal)
    (fun s r s' viable next applied =>
      (viable.rewrites_of_apply goal s t r s' next applied).2) s viable
  cases next : nextAction goal t.tag s'.marks with
  | shift =>
    refine .inl ⟨s', viable'.shift goal s' t next, ?_⟩
    rw [same, settled_of_shift goal s' t next]
  | reduce r => exact absurd next (viable'.ne_reduce_of_irreducible goal s' t r irreducible)
  | accept =>
    obtain ⟨v, complete⟩ := (viable'.accept goal s' t next).1
    refine .inr (.inl ⟨v, ?_⟩)
    rw [same, settled_of_accept goal s' t v next complete]
  | error =>
    refine .inr (.inr ⟨s', viable', next, ?_⟩)
    rw [same, settled_of_error goal s' t next]

end Steps

theorem exists_token_of_tag (la : Tag) : ∃ t : Token, t.tag = la := by
  cases la with
  | text c => exact ⟨⟨.text c "", .point .zero⟩, rfl⟩
  | reserved r => exact ⟨⟨.reserved r, .point .zero⟩, rfl⟩
  | eof => exact ⟨⟨.eof, .point .zero⟩, rfl⟩

theorem viable_of_offerSettled
    (goal : Goal)
    (env : Env)
    (t : Token)
    (next : Env)
    (viable : env.goal = goal ∧ Viable goal env.stack)
    (arrived : automaton.offerSettled env t = .needsInput next) :
    next.goal = goal ∧ Viable goal next.stack := by
  obtain ⟨_, stack, la⟩ := env
  obtain ⟨rfl, viable⟩ := viable
  change settled _ stack t = _ at arrived
  rcases viable.settled_cases _ stack t with ⟨s', viable', ends⟩ | ⟨v, ends⟩ | ⟨s', _, _, ends⟩
  · rw [ends] at arrived
    cases arrived
    exact ⟨rfl, viable'⟩
  · rw [ends] at arrived
    cases arrived
  · rw [ends] at arrived
    cases arrived

theorem viable_of_reachable
    (h : Heuristics)
    (goal : Goal)
    (history : List Token)
    (s : State Env)
    (reachable : (driver h).Reachable (initialState goal) history s) :
    (s.env.goal = goal ∧ Viable goal s.env.stack)
      ∧ ∀ p, s.pending = some p → p.fallback.goal = goal ∧ Viable goal p.fallback.stack :=
  Driver.Reachable.invariant_env (driver h)
    (fun env => env.goal = goal ∧ Viable goal env.stack) (viable_of_offerSettled goal)
    (initialState goal) s history ⟨rfl, viable_startStack goal⟩ rfl reachable

/-- On every run from the start, whatever tokens are offered, the automaton never gives up; the
reduction on which it decides can be carried out and the stack that it accepts has a value; it
holds no token while it waits for one, and else the one that was offered last; and a token that is
taken up ends on top of the stack.  So whatever fails in a driver on this automaton has an
environment to show for it. -/
theorem decisions_agree_with_actions
    (goal : Goal)
    (o : Offset) :
    (∀ last c, Run goal o last c →
        c ≠ .rejected
          ∧ (∀ env, c.env? = some env → ∀ la r,
              nextAction env.goal la env.stack.marks = .reduce r →
              ∃ s, r.apply env.stack = some s)
          ∧ (∀ env, c.env? = some env → ∀ la,
              nextAction env.goal la env.stack.marks = .accept →
              ∃ v, acceptedValue? env.goal env.stack = some v)
          ∧ (∀ env, c = .inputNeeded env → env.lookahead = none)
          ∧ (∀ env, c.env? = some env → c ≠ .inputNeeded env →
              ∃ t, last = some t ∧ env.lookahead = some t)
          ∧ (∀ env t next, c = .inputNeeded env → automaton.offerSettled env t = .needsInput next →
              ∃ below, next.stack = .token t :: below))
      ∧ ∀ h history s ts f, (driver h).Reachable (initialState goal) history s →
          ((driver h).offerMany s ts).outcome = .error f →
          ∃ env, f.breakdown = .handlingError env := by
  constructor
  · intro last c run
    have proper := run.proper goal o last c
    have onViable : ∀ env, c.env? = some env → env.goal = goal ∧ Viable goal env.stack := by
      rintro env holds
      cases proper <;> cases holds <;> exact ⟨rfl, by assumption⟩
    refine ⟨?_, ?_, ?_, ?_, ?_, ?_⟩
    · rintro rfl
      cases proper
    · intro env holds la r next
      obtain ⟨t, rfl⟩ := exists_token_of_tag la
      obtain ⟨rfl, viable⟩ := onViable env holds
      obtain ⟨s, rewrites, _⟩ := viable.reduce _ env.stack t r next
      exact ⟨s, rewrites.apply_eq r env.stack s⟩
    · intro env holds la next
      obtain ⟨t, rfl⟩ := exists_token_of_tag la
      obtain ⟨rfl, viable⟩ := onViable env holds
      exact (viable.accept _ env.stack t next).1
    · rintro env rfl
      cases proper
      rfl
    · intro env holds busy
      cases proper with
      | waiting last s viable =>
        cases holds
        exact absurd rfl busy
      | shifting t s viable next =>
        cases holds
        exact ⟨t, rfl, rfl⟩
      | reducing t s r viable next =>
        cases holds
        exact ⟨t, rfl, rfl⟩
      | refusing t s viable =>
        cases holds
        exact ⟨t, rfl, rfl⟩
      | accepted last v => cases holds
    · rintro env t next rfl arrived
      obtain ⟨s', _, _, rfl⟩ := exists_shift_of_needsInput env.goal t (fun _ => True)
        (fun _ _ _ _ _ _ => trivial) env.stack trivial next arrived
      exact ⟨s', rfl⟩
  · intro h history s ts f reachable failed
    obtain ⟨history', s', t, reachable', offered⟩ :=
      Driver.Reachable.exists_offer_of_error (driver h) _ s history ts f reachable failed
    obtain ⟨⟨sameGoal, viable⟩, _⟩ := viable_of_reachable h goal history' s' reachable'
    have refused := (driver h).read_of_step_error s' t f
      ((driver h).step_of_offer_error s' t f offered)
    have arrived := (((driver h).read_eq_error_iff s'.env s'.docstrings t f).mp refused).1
    change settled s'.env.goal s'.env.stack t = _ at arrived
    rw [sameGoal] at arrived
    rcases viable.settled_cases goal s'.env.stack t with ⟨_, _, ends⟩ | ⟨_, ends⟩ | ⟨_, _, _, ends⟩
    · rw [ends] at arrived
      cases arrived
    · rw [ends] at arrived
      cases arrived
    · rw [ends] at arrived
      exact ⟨_, (Settled.failed.inj arrived).symm⟩

/-- A binding that is begun, and then broken off at the end of the file. -/
theorem decisions_agree_with_actions_at_let :
    let lets : Token := ⟨.reserved .kwLet, ⟨.clamp 0, .clamp 3⟩⟩
    automaton.resume (automaton.offer ⟨.useFile, startStack .useFile, none⟩ lets) ≠ .rejected
      ∧ ∃ f env, ((driver .all).offerMany (initialState .useFile) (lex "let")).outcome = .error f
        ∧ f.breakdown = .handlingError env := by
  intro lets
  have agree := decisions_agree_with_actions .useFile .zero
  have run := Run.resume _ _ (Run.offer none _ lets (.start : Run .useFile .zero none _)) rfl
  have failed : ((driver .all).offerMany (initialState .useFile) (lex "let")).outcome
      = .error ⟨.handlingError ⟨.useFile, [.token lets, .items [] true],
          some ⟨.eof, .point (.clamp 3)⟩⟩, .empty, ⟨.eof, .point (.clamp 3)⟩⟩ := rfl
  obtain ⟨env, same⟩ := agree.2 .all [] _ (lex "let") _ .start failed
  exact ⟨(agree.1 _ _ run).1, _, env, failed, same⟩

end TolerantParser.Mini
