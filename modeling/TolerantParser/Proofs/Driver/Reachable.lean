import TolerantParser.Proofs.Driver.SetAside

/-! # Reachable states

States can be kept and continued from in several ways: by tokens, by streams of tokens, by doc
comments from elsewhere.  `Reachable` closes a first state under all of them and remembers the
tokens that were offered on the way and not set aside.  `Reachable.invariant` reduces every fact
about reachable states to single tokens and doc comments, and `Reachable.invariant_env` those about
environments to the automaton, as `holds_of_offerMany_success` does for what streams succeed with.

The main fact is `pending_of_reachable`: a state is pending exactly behind a marker run, and what
it remembers of the run is what the run was. -/

set_option autoImplicit false

namespace TolerantParser

variable {Env Value : Type}

namespace Driver

variable (d : Driver Env Value)

/-- The tokens that are not set aside when the tokens are offered one after the other. -/
def retained (s : State Env) : List Token → List Token
  | [] => []
  | t :: ts =>
    match d.offer s t with
    | .intermediate next => (if (d.setAside? s t).isSome then [] else [t]) ++ retained next ts
    | _ => []

/-- Offering tokens one by one, offering streams and adding doc comments lead from `s₀` to `s`, and
`ts` are the tokens that were offered on the way and not set aside. -/
inductive Reachable (s₀ : State Env) : List Token → State Env → Prop
  | start : Reachable s₀ [] s₀
  | offer (ts : List Token) (s next : State Env) (t : Token)
      (before : Reachable s₀ ts s)
      (offered : d.offer s t = .intermediate next) :
      Reachable s₀ (ts ++ d.retained s [t]) next
  | offerMany (ts us : List Token) (s next : State Env)
      (before : Reachable s₀ ts s)
      (fed : (d.offerMany s us).outcome = .intermediate next) :
      Reachable s₀ (ts ++ d.retained s us) next
  | addDocstring (ts : List Token) (s : State Env) (doc : Docstring)
      (before : Reachable s₀ ts s) :
      Reachable s₀ ts (s.addDocstring doc)

theorem retained_cons
    (s next : State Env)
    (t : Token)
    (ts : List Token)
    (offered : d.offer s t = .intermediate next) :
    d.retained s (t :: ts) = d.retained s [t] ++ d.retained next ts := by
  simp [retained, offered]

theorem retained_of_setAside?
    (s : State Env)
    (t : Token)
    (doc : Docstring)
    (refused : d.setAside? s t = some doc) :
    d.retained s [t] = [] := by
  simp [retained, d.offer_of_setAside? s t doc refused, refused]

theorem retained_of_kept
    (s next : State Env)
    (t : Token)
    (kept : d.setAside? s t = none)
    (offered : d.offer s t = .intermediate next) :
    d.retained s [t] = [t] := by
  simp [retained, offered, kept]

theorem Reachable.invariant
    (P : List Token → State Env → Prop)
    (s₀ s : State Env)
    (ts : List Token)
    (start : P [] s₀)
    (preserved : ∀ ts s t next, P ts s → d.offer s t = .intermediate next →
      P (ts ++ d.retained s [t]) next)
    (documented : ∀ ts s doc, P ts s → P ts (s.addDocstring doc))
    (reachable : d.Reachable s₀ ts s) :
    P ts s := by
  have stream : ∀ ts us s next, P ts s → (d.offerMany s us).outcome = .intermediate next →
      P (ts ++ d.retained s us) next := by
    intro ts us s next holds fed
    induction us generalizing ts s with
    | nil =>
      cases fed
      simpa [retained] using holds
    | cons u us ih =>
      cases offered : d.offer s u with
      | intermediate middle =>
        rw [d.offerMany_cons_of_intermediate s middle u us offered] at fed
        rw [d.retained_cons s middle u us offered, ← List.append_assoc]
        exact ih _ middle (preserved ts s u middle holds offered) fed
      | success p => simp [Driver.offerMany, offered] at fed
      | error f => simp [Driver.offerMany, offered] at fed
  induction reachable with
  | start => exact start
  | offer ts s next t _ offered ih => exact preserved ts s t next ih offered
  | offerMany ts us s next _ fed ih => exact stream ts us s next ih fed
  | addDocstring ts s doc _ ih => exact documented ts s doc ih

/-! ## Facts about environments -/

section Environments
variable (I : Env → Prop)
  (preserved : ∀ env t next, I env → d.automaton.offerSettled env t = .needsInput next → I next)

include preserved

theorem holds_of_reading
    (s : State Env)
    (env : Env)
    (holds : I s.env ∧ ∀ p, s.pending = some p → I p.fallback)
    (reading : d.Reading s env) :
    I env := by
  cases reading with
  | plain => exact holds.1
  | reread p env pending replayed =>
    exact d.automaton.invariant_of_run I preserved p.fallback env _ (holds.2 p pending)
      ((d.automaton.offerAll_eq_some_iff p.fallback env _).mp replayed)

theorem holds_of_offer
    (s next : State Env)
    (t : Token)
    (holds : I s.env ∧ ∀ p, s.pending = some p → I p.fallback)
    (offered : d.offer s t = .intermediate next) :
    I next.env ∧ ∀ p, next.pending = some p → I p.fallback := by
  have everywhere := fun env => d.holds_of_reading I preserved s env holds
  have taken := d.taken_of_offer s t (by rw [offered]; rfl)
  generalize d.offer s t = o at taken offered
  cases taken with
  | kept env reading =>
    obtain ⟨arrived, _, after⟩ := (d.read_eq_intermediate_iff env s.docstrings t next).mp offered
    refine ⟨preserved env t next.env (everywhere env reading) arrived, ?_⟩
    intro p pending
    rw [((d.pendingAfter_eq_some_iff env t p).mp (after ▸ pending)).2.2.1]
    exact everywhere env reading
  | setAside doc edit =>
    cases offered
    exact holds
  | replaced parts env x o edit reading run concluded =>
    subst offered
    obtain ⟨arrived, _, closed⟩ := conclude_eq_intermediate _ _ _ concluded
    refine ⟨d.automaton.invariant_of_run I preserved env next.env parts (everywhere env reading)
      (arrived ▸ run), ?_⟩
    simp [closed]

/-- What the automaton preserves with each token holds of every reachable environment, fallbacks
included. -/
theorem Reachable.invariant_env
    (s₀ s : State Env)
    (ts : List Token)
    (start : I s₀.env)
    (settled : s₀.pending = none)
    (reachable : d.Reachable s₀ ts s) :
    I s.env ∧ ∀ p, s.pending = some p → I p.fallback :=
  Reachable.invariant d (fun _ s => I s.env ∧ ∀ p, s.pending = some p → I p.fallback)
    s₀ s ts ⟨start, by simp [settled]⟩
    (fun _ s t next holds offered => d.holds_of_offer I preserved s next t holds offered)
    (fun _ _ _ holds => holds) reachable

theorem holds_of_offerMany_success
    (Q : Value → Prop)
    (accepting : ∀ env t v, I env → d.automaton.offerSettled env t = .accepted v → Q v)
    (s : State Env)
    (ts : List Token)
    (parsed : Parsed Value)
    (holds : I s.env ∧ ∀ p, s.pending = some p → I p.fallback)
    (fed : (d.offerMany s ts).outcome = .success parsed) :
    Q parsed.value := by
  induction ts generalizing s with
  | nil => cases fed
  | cons t ts ih =>
    cases offered : d.offer s t with
    | intermediate next =>
      rw [d.offerMany_cons_of_intermediate s next t ts offered] at fed
      exact ih next (d.holds_of_offer I preserved s next t holds offered) fed
    | success parsed' =>
      obtain rfl : parsed' = parsed := by simpa [offerMany, offered] using fed
      have everywhere := fun env => d.holds_of_reading I preserved s env holds
      have taken := d.taken_of_offer s t (by rw [offered]; rfl)
      generalize d.offer s t = o at taken offered
      cases taken with
      | kept env reading =>
        have accepted := ((d.read_eq_success_iff env s.docstrings t parsed').mp offered).1
        exact accepting env t _ (everywhere env reading) accepted
      | setAside doc edit => cases offered
      | replaced parts env x o edit reading run concluded =>
        subst offered
        obtain ⟨rfl, _⟩ := conclude_eq_success _ _ _ concluded
        obtain ⟨before, last, env', _, read, accepted⟩ := d.automaton.exists_last_of_run env _ _ run
        exact accepting env' last _
          (d.automaton.invariant_of_run I preserved env env' before (everywhere env reading) read)
          accepted
    | error f => simp [offerMany, offered] at fed

end Environments

theorem Reachable.exists_offer_of_error
    (s₀ s : State Env)
    (ts us : List Token)
    (f : Failure Env)
    (reachable : d.Reachable s₀ ts s)
    (failed : (d.offerMany s us).outcome = .error f) :
    ∃ ts' s' u, d.Reachable s₀ ts' s' ∧ d.offer s' u = .error f := by
  induction us generalizing ts s with
  | nil => cases failed
  | cons u us ih =>
    cases offered : d.offer s u with
    | intermediate next =>
      rw [d.offerMany_cons_of_intermediate s next u us offered] at failed
      exact ih next _ (.offer ts s next u reachable offered) failed
    | success p => simp [Driver.offerMany, offered] at failed
    | error g =>
      refine ⟨ts, s, u, reachable, ?_⟩
      simpa [Driver.offerMany, offered] using failed

/-! ## Pending runs -/

/-- A token that is not set aside leaves a run pending only if it was read as it is. -/
theorem read_of_pending
    (s next : State Env)
    (t : Token)
    (p : Pending Env)
    (kept : d.setAside? s t = none)
    (offered : d.offer s t = .intermediate next)
    (pending : next.pending = some p) :
    ∃ env, d.read env s.docstrings t = .intermediate next := by
  have taken := d.taken_of_offer s t (by rw [offered]; rfl)
  by_cases first : (d.step s t).isError = false
  · obtain ⟨env, _, stepped⟩ := d.exists_reading_of_step s t first
    exact ⟨env, by rw [← stepped, ← d.offer_of_step s t first, offered]⟩
  · generalize d.offer s t = o at taken offered
    cases taken with
    | kept env reading => exact ⟨env, offered⟩
    | setAside doc edit => simp [setAside?, first, edit.enabled, edit.documents] at kept
    | replaced parts env x o edit reading run concluded =>
      subst offered
      rw [(conclude_eq_intermediate _ _ _ concluded).2.2] at pending
      cases pending

theorem pending_of_marked
    (s next : State Env)
    (t : Token)
    (n : Nat)
    (enabled : d.heuristics.postfixReplay = true)
    (marked : t.kind.markerCount = some n)
    (offered : d.offer s t = .intermediate next) :
    ∃ fallback, next.pending = some ⟨fallback, n, t.span.start⟩ := by
  have noRemedy := remedy?_of_operator d.heuristics t (.inl (tag_of_markerCount t n marked))
  have taken : (d.step s t).isError = false := by
    cases stepped : d.step s t with
    | intermediate after => rfl
    | success parsed => rfl
    | error f => simp [d.offer_of_step_error s t f stepped, noRemedy] at offered
  obtain ⟨env, _, stepped⟩ := d.exists_reading_of_step s t taken
  rw [d.offer_of_step s t taken, stepped] at offered
  have after := ((d.read_eq_intermediate_iff env s.docstrings t next).mp offered).2.2
  refine ⟨env, ?_⟩
  rw [after]
  exact (d.pendingAfter_eq_some_iff env t _).mpr ⟨enabled, marked, rfl, rfl⟩

structure Behind (s : State Env) (p : Pending Env) (last : Token) : Prop where
  enabled : d.heuristics.postfixReplay = true
  marked : last.kind.markerCount = some p.count
  position : last.span.start = p.position
  arrived : d.automaton.offerSettled p.fallback last = .needsInput s.env

theorem Reachable.behind
    (s₀ s : State Env)
    (ts : List Token)
    (settled : s₀.pending = none)
    (reachable : d.Reachable s₀ ts s)
    (p : Pending Env)
    (pending : s.pending = some p) :
    ∃ before last, ts = before ++ [last] ∧ d.Behind s p last := by
  revert p
  refine Reachable.invariant d (fun ts s => ∀ p, s.pending = some p →
    ∃ before last, ts = before ++ [last] ∧ d.Behind s p last) s₀ s ts (by simp [settled]) ?_ ?_
    reachable
  · intro ts s t next holds offered p pending
    cases refused : d.setAside? s t with
    | some doc =>
      rw [d.offer_of_setAside? s t doc refused] at offered
      cases offered
      rw [d.retained_of_setAside? s t doc refused, List.append_nil]
      obtain ⟨before, last, same, behind⟩ := holds p pending
      exact ⟨before, last, same, behind.enabled, behind.marked, behind.position, behind.arrived⟩
    | none =>
      obtain ⟨env, hread⟩ := d.read_of_pending s next t p refused offered pending
      obtain ⟨arrived, _, after⟩ :=
        (d.read_eq_intermediate_iff env s.docstrings t next).mp hread
      obtain ⟨enabled, marked, fallback, position⟩ :=
        (d.pendingAfter_eq_some_iff env t p).mp (after ▸ pending)
      rw [d.retained_of_kept s next t refused offered]
      exact ⟨ts, t, rfl, enabled, marked, position.symm, by rw [fallback]; exact arrived⟩
  · intro ts s doc holds p pending
    obtain ⟨before, last, same, behind⟩ := holds p pending
    exact ⟨before, last, same, behind.enabled, behind.marked, behind.position, behind.arrived⟩

/-- In every state that a parse can come by: if a marker run is pending, then the driver rereads
marker runs and the last token that was not set aside is that run, with its count and its place,
and took the automaton from the fallback to where it stands.  And a marker run that is taken is
pending from then on. -/
theorem pending_of_reachable
    (goal : Goal)
    (o : Offset)
    (s₀ s : State Env)
    (ts : List Token)
    (start : d.initial goal o = .ok s₀)
    (reachable : d.Reachable s₀ ts s) :
    (∀ p, s.pending = some p →
        d.heuristics.postfixReplay = true
          ∧ ∃ before last, ts = before ++ [last]
            ∧ last.kind = .text .infixOp1 (String.ofList (List.replicate p.count marker))
            ∧ 1 ≤ p.count
            ∧ last.span.start = p.position
            ∧ d.automaton.offerSettled p.fallback last = .needsInput s.env)
      ∧ ∀ t n next, t.kind.markerCount = some n → d.heuristics.postfixReplay = true →
          d.offer s t = .intermediate next → next.isPending = true := by
  have settled : s₀.pending = none := by
    obtain ⟨env, _, rfl⟩ := (d.initial_eq_ok_iff goal o s₀).mp start
    rfl
  constructor
  · intro p pending
    obtain ⟨before, last, same, behind⟩ := Reachable.behind d s₀ s ts settled reachable p pending
    obtain ⟨kind, positive, _⟩ := (last.kind.markerCount_eq_some_iff p.count).mp behind.marked
    exact ⟨behind.enabled, before, last, same, kind, positive, behind.position, behind.arrived⟩
  · intro t n next marked enabled offered
    obtain ⟨fallback, pending⟩ := d.pending_of_marked s next t n enabled marked offered
    rw [State.isPending, pending]
    rfl

/-- A run that stays pending over two doc comments, one from the stream and one from elsewhere. -/
theorem pending_of_reachable_at_markers :
    ∃ before last,
      (Mini.driver .all).retained (Mini.initialState .useFile) (Mini.lexWords "x ^^ /**d*/")
          = before ++ [last]
        ∧ last.kind = .text .infixOp1 "^^" ∧ last.span.start = .clamp 2 := by
  have fed : ((Mini.driver .all).offerMany (Mini.initialState .useFile)
        (Mini.lexWords "x ^^ /**d*/")).outcome
      = .intermediate
          ⟨⟨.useFile, [.token ⟨.text .infixOp1 "^^", ⟨.clamp 2, .clamp 4⟩⟩, .expr (.var "x"),
              .items [] true], none⟩,
            .ofList [⟨"d", ⟨.clamp 5, .clamp 11⟩⟩],
            some ⟨⟨.useFile, [.token ⟨.text .lowerIdent "x", ⟨.clamp 0, .clamp 1⟩⟩,
              .items [] true], none⟩, 2, .clamp 2⟩⟩ := rfl
  have reachable := Reachable.addDocstring _ _ ⟨"e", .point .zero⟩
    (Reachable.offerMany [] _ _ _ .start fed)
  obtain ⟨_, before, last, same, kind, _, position, _⟩ :=
    (pending_of_reachable (Mini.driver .all) .useFile .zero _ _ _ rfl reachable).1 _ rfl
  exact ⟨before, last, same, kind, position⟩

end Driver

end TolerantParser
