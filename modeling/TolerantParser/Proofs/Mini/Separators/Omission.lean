import TolerantParser.Mini.Lexer
import TolerantParser.Proofs.Driver.Stream
import TolerantParser.Proofs.Mini.DocComments.Offers
import TolerantParser.Proofs.Mini.Respelling
import TolerantParser.Proofs.Mini.Separators.Decisions

/-! # Omitted separators

A driver that puts missing separators back parses the same without them.  The token behind an
omitted separator is either taken up as it would be behind it, or refused and retried behind one
that is put before it; both ways lead to the same state (`offer_of_separated`).  A run that is
pending before the separator is read again by the separator that is put there, as it was by the one
that is gone. -/

set_option autoImplicit false

namespace TolerantParser.Mini

section Offers
variable (h : Heuristics) (goal : Goal)

theorem read_eq_of_settled
    (env env' : Env)
    (docstrings : Docstrings)
    (t : Token)
    (unmarked : t.kind.markerCount = none)
    (same : settled env.goal env.stack t = settled env'.goal env'.stack t) :
    (driver h).read env docstrings t = (driver h).read env' docstrings t := by
  have same' : (driver h).automaton.offerSettled env t
      = (driver h).automaton.offerSettled env' t := same
  simp only [Driver.read, same', (driver h).pendingAfter_eq_none _ t unmarked]

/-- A separator that is taken is read at a viable stack, and what starts no operand, or comes where
no marker run is pending, is read there as well. -/
theorem exists_reading_of_separator
    (history : List Token)
    (s s₁ : State Env)
    (z : Token)
    (reachable : (driver h).Reachable (initialState goal) history s)
    (isSemi : z.tag = .reserved .semi)
    (offered : (driver h).offer s z = .intermediate s₁) :
    ∃ env, (env.goal = goal ∧ Viable goal env.stack)
      ∧ (driver h).read env s.docstrings z = .intermediate s₁
      ∧ ∀ u, (startsOperand u.tag = true → s.pending = none) →
          SameUnlessErrors ((driver h).step s u) ((driver h).read env s.docstrings u) := by
  obtain ⟨viable, fallback⟩ := viable_of_reachable h goal history s reachable
  have noRemedy : (driver h).heuristics.remedy? z = none := by
    refine remedy?_eq_none h z ?_ ?_ ?_ <;> rw [isSemi] <;> decide
  have stepped : (driver h).step s z = .intermediate s₁ := by
    rw [← (driver h).offer_of_remedy?_eq_none s z noRemedy, offered]
  obtain ⟨env, reading, hread⟩ := (driver h).exists_reading_of_step s z (by rw [stepped]; rfl)
  rw [stepped] at hread
  cases pending : s.pending with
  | none =>
    obtain rfl := reading.eq_env (driver h) s env pending
    refine ⟨s.env, viable, hread.symm, fun u _ => .inl ?_⟩
    exact (driver h).step_of_pending_eq_none s u pending
  | some p =>
    obtain ⟨_, last, _, behind⟩ :=
      Driver.Reachable.behind (driver h) (initialState goal) s history rfl reachable p pending
    have isInfix := tag_of_markerCount last p.count behind.marked
    obtain ⟨below, standing⟩ := exists_top_of_offerSettled p.fallback s.env last behind.arrived
    have step_eq := fun env replayed u noOperand => step_above_marker h s u last p.fallback.goal
      below none p env standing isInfix pending replayed noOperand
    cases reading with
    | plain =>
      -- the separator starts no operand, so it cannot have been read behind the run
      have refused := settled_above_marker p.fallback.goal below last z isInfix
        (by rw [isSemi]; rfl)
      have first := read_eq_error_of_settled h z s.env s.docstrings _
        (by rw [standing]; exact refused)
      rw [first] at hread
      cases hread
    | reread p' env pending' replayed =>
      cases pending.symm.trans pending'
      refine ⟨env, ?_, hread.symm, fun u noOperand => step_eq env replayed u ?_⟩
      · exact automaton.invariant_of_run _ (viable_of_offerSettled goal) p.fallback env _
          (fallback p pending) ((automaton.offerAll_eq_some_iff p.fallback env _).mp replayed)
      · cases starts : startsOperand u.tag with
        | false => rfl
        | true => cases noOperand starts

theorem offer_of_refused_starter
    (enabled : h.semicolon = true)
    (s : State Env)
    (t : Token)
    (f : Failure Env)
    (next : State Env)
    (starts : starters.contains t.tag = true)
    (noDoc : t.tag ≠ .text .docString)
    (refused : (driver h).step s t = .error f)
    (separated : (driver h).step s ⟨.reserved .semi, .point t.span.start⟩ = .intermediate next)
    (taken : ((driver h).step next t).isError = false) :
    (driver h).offer s t = (driver h).step next t := by
  have remedy : (driver h).heuristics.remedy? t = some (.retry t.separated) :=
    (remedy?_of_starter h t starts fun _ => docstring?_eq_none t noDoc).trans (if_pos enabled)
  rw [(driver h).offer_of_step_error s t f refused, remedy]
  simp only [Option.bind_some, Driver.apply, Token.separated, Driver.stepAll, separated]
  cases stepped : (driver h).step next t with
  | intermediate last => rfl
  | success p => rfl
  | error g =>
    rw [stepped] at taken
    cases taken

theorem offer_behind_separator
    (s₁ : State Env)
    (z t : Token)
    (is : List Tree)
    (isOpen : Bool)
    (standing : s₁.env = ⟨goal, [.token z, .items is isOpen], none⟩)
    (closed : s₁.pending = none)
    (isSemi : z.tag = .reserved .semi)
    (starts : starters.contains t.tag = true)
    (noDoc : t.tag ≠ .text .docString)
    (taken : ((driver h).offer s₁ t).isError = false) :
    (driver h).offer s₁ t = (driver h).read s₁.env s₁.docstrings t
      ∧ opensItem t.tag = true ∧ (t.tag = .text .lowerIdent → goal ≠ .interface) := by
  have atItems : ∀ u, automaton.offerSettled s₁.env u = settled goal [.items is true] u := by
    intro u
    rw [standing]
    exact settled_on_separator goal z u is isOpen isSemi
  have stepped := step_of_offer_at_items h goal s₁.env is atItems s₁ t rfl closed noDoc taken
  have behind : (driver h).offer s₁ t = (driver h).read s₁.env s₁.docstrings t := by
    rw [(driver h).offer_of_step s₁ t stepped, (driver h).step_of_pending_eq_none s₁ t closed]
  refine ⟨behind, opensItem_of_starter goal t is starts noDoc fun b failed => ?_⟩
  rw [behind, read_eq_error_of_settled h t s₁.env s₁.docstrings b ((atItems t).trans failed)]
    at taken
  cases taken

/-- A separator between two statements can be omitted: what comes behind it is taken up without
it as with it.  Either it gets past the stack by itself, or its remedy is the separator. -/
theorem offer_of_separated
    (enabled : h.semicolon = true)
    (history : List Token)
    (s s₁ : State Env)
    (z t : Token)
    (reachable : (driver h).Reachable (initialState goal) history s)
    (isSemi : z.tag = .reserved .semi)
    (starts : starters.contains t.tag = true)
    (noDoc : t.tag ≠ .text .docString)
    (names : t.tag = .text .lowerIdent ∨ t.tag = .text .upperIdent → s.isPending = false)
    (offered : (driver h).offer s z = .intermediate s₁)
    (taken : ((driver h).offer s₁ t).isError = false) :
    (driver h).offer s t = (driver h).offer s₁ t := by
  obtain ⟨env, ⟨rfl, viable⟩, hread, step_eq⟩ :=
    exists_reading_of_separator h _ history s s₁ z reachable isSemi offered
  obtain ⟨arrived, docstrings, closed⟩ :=
    ((driver h).read_eq_intermediate_iff env s.docstrings z s₁).mp hread
  rw [(driver h).pendingAfter_eq_none env z
    (markerCount_eq_none_of_tag z (by rw [isSemi]; decide))] at closed
  obtain ⟨is, isOpen, standing⟩ :=
    viable.items_of_separator env.goal env.stack z s₁.env isSemi arrived
  obtain ⟨behind, opens, values⟩ := offer_behind_separator h env.goal s₁ z t is isOpen standing
    closed isSemi starts noDoc taken
  obtain ⟨everySeparator, direct⟩ := viable.settled_separator env.goal env.stack z t is isOpen
    isSemi opens values (standing ▸ arrived)
  have unmarked := markerCount_eq_none_of_starter t starts
  have read_eq : ∀ env', settled env'.goal env'.stack t = settled env.goal [.items is true] t →
      (driver h).read env' s.docstrings t = (driver h).offer s₁ t := by
    intro env' same
    rw [behind, docstrings]
    refine read_eq_of_settled h env' s₁.env s.docstrings t unmarked (same.trans ?_)
    rw [standing, settled_on_separator env.goal z t is isOpen isSemi]
  have same := step_eq t fun operand => by
    have isName := name_of_opensItem t.tag opens operand
    simpa [State.isPending] using names isName
  rcases direct with ⟨b, failed⟩ | direct
  · have refused : ∃ f, (driver h).step s t = .error f := by
      rcases same with same | ⟨f, _, refused, _⟩
      · exact ⟨_, same.trans (read_eq_error_of_settled h t env s.docstrings b failed)⟩
      · exact ⟨f, refused⟩
    obtain ⟨f, refused⟩ := refused
    -- the separator that is put before `t` leads to the same items
    let z' : Token := ⟨.reserved .semi, .point t.span.start⟩
    let next : State Env := ⟨⟨env.goal, [.token z', .items is isOpen], none⟩, s.docstrings, none⟩
    have hread' : (driver h).read env s.docstrings z' = .intermediate next :=
      ((driver h).read_eq_intermediate_iff env s.docstrings z' next).mpr
        ⟨everySeparator z' rfl, rfl, ((driver h).pendingAfter_eq_none env z' rfl).symm⟩
    have separated : (driver h).step s z' = .intermediate next := by
      have noOperand : startsOperand z'.tag = false := rfl
      rcases step_eq z' (by simp [noOperand]) with same' | ⟨_, f', _, refused'⟩
      · rw [same', hread']
      · rw [hread'] at refused'
        cases refused'
    have after : (driver h).step next t = (driver h).offer s₁ t := by
      rw [(driver h).step_of_pending_eq_none next t rfl]
      exact read_eq next.env (settled_on_separator env.goal z' t is isOpen rfl)
    rw [offer_of_refused_starter h enabled s t f next starts noDoc refused separated
      (by rw [after]; exact taken), after]
  · have read_eq := read_eq env direct
    rcases same with same | ⟨f, f', _, refused⟩
    · rw [(driver h).offer_of_step s t (by rw [same, read_eq]; exact taken), same, read_eq]
    · rw [← read_eq, refused] at taken
      cases taken

end Offers

/-! ## Omitting separators from a stream -/

/-- `us` is `ts` without some of the separators before statements, where both are offered from `s`.
A separator can be omitted before a token that starts a statement and is no doc comment; before a
name only if no marker run is pending, which the name would turn into an operation. -/
inductive Omits (d : Driver Env Tree) : State Env → List Token → List Token → Prop
  | same (s : State Env) (ts : List Token) : Omits d s ts ts
  | keep (s next : State Env) (t : Token) (ts us : List Token)
      (offered : d.offer s t = .intermediate next)
      (rest : Omits d next ts us) :
      Omits d s (t :: ts) (t :: us)
  | skip (s next : State Env) (z t : Token) (ts us : List Token)
      (isSemi : z.tag = .reserved .semi)
      (starts : starters.contains t.tag = true)
      (noDoc : t.tag ≠ .text .docString)
      (names : t.tag = .text .lowerIdent ∨ t.tag = .text .upperIdent → s.isPending = false)
      (offered : d.offer s z = .intermediate next)
      (rest : Omits d next (t :: ts) us) :
      Omits d s (z :: t :: ts) us

section Streams
variable (h : Heuristics) (goal : Goal)

theorem Omits.exists_cons
    (d : Driver Env Tree)
    (s : State Env)
    (t : Token)
    (ts us : List Token)
    (omits : Omits d s (t :: ts) us)
    (starts : starters.contains t.tag = true) :
    ∃ us', us = t :: us' := by
  cases omits with
  | same => exact ⟨ts, rfl⟩
  | keep _ next _ _ us => exact ⟨us, rfl⟩
  | skip _ next z u ts _ isSemi =>
    rw [isSemi] at starts
    exact absurd starts (by decide)

theorem offerMany_of_omits
    (enabled : h.semicolon = true)
    (history : List Token)
    (s : State Env)
    (ts us : List Token)
    (p : Parsed Tree)
    (reachable : (driver h).Reachable (initialState goal) history s)
    (omits : Omits (driver h) s ts us)
    (parsed : ((driver h).offerMany s ts).outcome = .success p) :
    ((driver h).offerMany s us).outcome = .success p := by
  induction omits generalizing history with
  | same s ts => exact parsed
  | keep s next t ts us offered rest ih =>
    rw [(driver h).offerMany_cons_of_intermediate s next t _ offered] at parsed ⊢
    exact ih _ (.offer history s next t reachable offered) parsed
  | skip s next z t ts us isSemi starts noDoc names offered rest ih =>
    rw [(driver h).offerMany_cons_of_intermediate s next z _ offered] at parsed
    have parsed' := ih _ (.offer history s next z reachable offered) parsed
    obtain ⟨us', rfl⟩ := rest.exists_cons (driver h) next t ts us starts
    have taken : ((driver h).offer next t).isError = false := by
      cases offered' : (driver h).offer next t with
      | intermediate last => rfl
      | success p => rfl
      | error f => simp [Driver.offerMany, offered'] at parsed'
    have same := offer_of_separated h goal enabled history s next z t reachable isSemi starts noDoc
      names offered taken
    rw [← parsed']
    simp only [Driver.offerMany, same]

/-- An omitted separator before a statement changes nothing, if the driver puts missing ones back.
Wherever a separator is taken and then a token that starts a statement, other than a doc comment,
and other than a name behind a marker run, the token leads to the same state without the separator.
So a parse that succeeds has the same result without any of these separators. -/
theorem parse_of_omitted_separators
    (o : Offset)
    (enabled : h.semicolon = true) :
    ∃ s₀, (driver h).initial goal o = .ok s₀
      ∧ (∀ history s s₁ s₂ z t, (driver h).Reachable s₀ history s →
          z.tag = .reserved .semi → starters.contains t.tag = true → t.tag ≠ .text .docString →
          (t.tag = .text .lowerIdent ∨ t.tag = .text .upperIdent → s.isPending = false) →
          (driver h).offer s z = .intermediate s₁ → (driver h).offer s₁ t = .intermediate s₂ →
          (driver h).offer s t = .intermediate s₂)
      ∧ ∀ ts us p, Omits (driver h) s₀ ts us → (driver h).parse goal o ts = .ok (.ok p) →
          (driver h).parse goal o us = .ok (.ok p) := by
  refine ⟨initialState goal, initial_driver h goal o, ?_, ?_⟩
  · intro history s s₁ s₂ z t reachable isSemi starts noDoc names offered offered'
    rw [offer_of_separated h goal enabled history s s₁ z t reachable isSemi starts noDoc names
      offered (by rw [offered']; rfl), offered']
  · intro ts us p omits parsed
    rw [(driver h).parse_eq_ok_iff] at parsed ⊢
    obtain ⟨s₀, start, parsed⟩ := parsed
    cases start
    rw [(driver h).parseFrom_eq_ok_iff] at parsed
    refine ⟨_, initial_driver h goal o, ?_⟩
    rw [(driver h).parseFrom_eq_ok_iff]
    exact offerMany_of_omits h goal enabled [] (initialState goal) ts us p .start omits parsed

end Streams

/-- A separator behind a marker run, which the keyword after it makes postfix operators as well. -/
theorem parse_of_omitted_separators_at_markers :
    ∃ p, (driver .all).parse .useFile .zero (lex "x ^^ ; let y = 1") = .ok (.ok p)
      ∧ (driver .all).parse .useFile .zero ((lex "x ^^ ; let y = 1").eraseIdx 2) = .ok (.ok p) := by
  obtain ⟨s₀, start, _, parsed⟩ := parse_of_omitted_separators .all .useFile .zero rfl
  cases start
  have omits : Omits (driver .all) (initialState .useFile) (lex "x ^^ ; let y = 1")
      ((lex "x ^^ ; let y = 1").eraseIdx 2) :=
    .keep _ _ _ _ _ rfl (.keep _ _ _ _ _ rfl
      (.skip _ _ _ _ _ _ rfl rfl nofun (by rintro (isName | isName) <;> cases isName) rfl
        (.same _ _)))
  exact ⟨_, rfl, parsed _ _ _ omits rfl⟩

end TolerantParser.Mini
