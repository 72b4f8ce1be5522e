import TolerantParser.Proofs.Driver.SetAside
import TolerantParser.Proofs.Mini.MarkerReading

/-! # The next token decides how a marker run is read

`respellMarkers` rewrites a stream once and for all: a marker run becomes postfix operators if the
next token that is no doc comment cannot start an operand.  A driver that rereads marker runs and
sets doc comments aside makes the same of a stream and of the respelled stream
(`parse_respellMarkers_iff`).  While a run is pending the two parses are `Ahead` of each other by
one reading: the first stands behind the infix operator and keeps the second reading in reserve,
where the other one already stands. -/

set_option autoImplicit false

namespace TolerantParser.Mini

/-- Whether the next token that is no doc comment is there and starts no operand. -/
def closesOperand (ts : List Token) : Bool :=
  (ts.find? fun t => t.docstring?.isNone).any fun t => !startsOperand t.tag

/-- Spells out as postfix operators the marker runs behind which no operand starts. -/
def respellMarkers : List Token → List Token
  | [] => []
  | t :: ts =>
    match t.kind.markerCount with
    | some n =>
      if closesOperand ts then markerTokens n t.span.start ++ respellMarkers ts
      else t :: respellMarkers ts
    | none => t :: respellMarkers ts

theorem respellMarkers_of_unmarked
    (t : Token)
    (ts : List Token)
    (unmarked : t.kind.markerCount = none) :
    respellMarkers (t :: ts) = t :: respellMarkers ts := by
  simp only [respellMarkers, unmarked]

theorem respellMarkers_of_kept
    (t : Token)
    (ts : List Token)
    (kept : closesOperand ts = false) :
    respellMarkers (t :: ts) = t :: respellMarkers ts := by
  cases counted : t.kind.markerCount <;> simp [respellMarkers, counted, kept]

theorem respellMarkers_of_closed
    (t : Token)
    (ts : List Token)
    (n : Nat)
    (marked : t.kind.markerCount = some n)
    (closed : closesOperand ts = true) :
    respellMarkers (t :: ts) = markerTokens n t.span.start ++ respellMarkers ts := by
  simp only [respellMarkers, marked, closed, if_true]

/-! ## One offer -/

/-- The state `s` stands behind a marker run read as an infix operator, and `s'` where the second
reading of the run, which `s` keeps in reserve, arrives. -/
structure Ahead (s s' : State Env) : Prop where
  docstrings : s'.docstrings = s.docstrings
  settled : s'.pending = none
  aboveMarker : ∃ goal m below la,
    s.env = ⟨goal, .token m :: below, la⟩ ∧ m.tag = .text .infixOp1
  abovePostfixed : ∃ goal q e below la,
    s'.env = ⟨goal, .token q :: .expr e :: below, la⟩ ∧ q.tag = .text .postfixOp
  reserve : ∃ p, s.pending = some p
    ∧ automaton.offerAll p.fallback (markerTokens p.count p.position) = some s'.env

def SameUnlessErrors (o o' : Outcome Env Tree) : Prop :=
  o = o' ∨ ∃ f f', o = .error f ∧ o' = .error f'

section
variable (h : Heuristics) (s s' : State Env) (t : Token)

/-- Behind a marker run a token that starts no operand is read in the second reading only. -/
theorem step_above_marker
    (m : Token)
    (goal : Goal)
    (below : Stack)
    (la : Option Token)
    (p : Pending Env)
    (env : Env)
    (standing : s.env = ⟨goal, .token m :: below, la⟩)
    (isInfix : m.tag = .text .infixOp1)
    (pending : s.pending = some p)
    (replayed : automaton.offerAll p.fallback (markerTokens p.count p.position) = some env)
    (noOperand : startsOperand t.tag = false) :
    SameUnlessErrors ((driver h).step s t) ((driver h).read env s.docstrings t) := by
  have refused := settled_above_marker goal below m t isInfix noOperand
  have first : (driver h).read s.env s.docstrings t = .error ⟨_, s.docstrings, t⟩ :=
    read_eq_error_of_settled h t s.env s.docstrings _ (by rw [standing]; exact refused)
  have second : (driver h).reread p s.docstrings t
      = ((driver h).read env s.docstrings t).notError? := by
    have replayed' : (driver h).automaton.offerAll p.fallback
        (markerTokens p.count p.position) = some env := replayed
    simp only [Driver.reread, replayed', Option.bind_eq_bind, Option.bind_some]
  simp only [Driver.step, first, pending, Option.bind_some, Outcome.orElse_error, second]
  cases (driver h).read env s.docstrings t with
  | intermediate next => exact .inl rfl
  | success parsed => exact .inl rfl
  | error f => exact .inr ⟨_, _, rfl, rfl⟩

theorem Ahead.step
    (ahead : Ahead s s')
    (noOperand : startsOperand t.tag = false) :
    SameUnlessErrors ((driver h).step s t) ((driver h).step s' t) := by
  obtain ⟨goal, m, below, la, standing, isInfix⟩ := ahead.aboveMarker
  obtain ⟨p, pending, replayed⟩ := ahead.reserve
  rw [(driver h).step_of_pending_eq_none s' t ahead.settled, ahead.docstrings]
  exact step_above_marker h s t m goal below la p s'.env standing isInfix pending replayed noOperand

theorem Ahead.stepAll
    (ahead : Ahead s s')
    (noOperand : startsOperand t.tag = false)
    (ts : List Token) :
    (driver h).stepAll s (t :: ts) = (driver h).stepAll s' (t :: ts) := by
  rw [Driver.stepAll, Driver.stepAll]
  rcases ahead.step h s s' t noOperand with same | ⟨f, f', stepped, stepped'⟩
  · rw [same]
  · rw [stepped, stepped']

theorem exists_of_remedy_retry
    (parts : List Token)
    (remedy : h.remedy? t = some (.retry parts)) :
    ∃ part rest, parts = part :: rest ∧ startsOperand part.tag = false := by
  rcases cases_of_remedy_retry h t parts remedy with ⟨_, _, rfl⟩ | ⟨_, fused⟩
  · exact ⟨_, _, rfl, rfl⟩
  · obtain ⟨_, ⟨equal, rest, rfl, binds⟩, _⟩ := tags_of_labelParts t parts fused
    exact ⟨equal, rest, rfl, by rw [binds]; rfl⟩

/-- Offering a token that starts no operand, and is no doc comment, comes to the same. -/
theorem Ahead.offer
    (ahead : Ahead s s')
    (noOperand : startsOperand t.tag = false)
    (noDoc : t.docstring? = none) :
    SameUnlessErrors ((driver h).offer s t) ((driver h).offer s' t) := by
  have remedies : ((h.remedy? t).bind ((driver h).apply s))
      = ((h.remedy? t).bind ((driver h).apply s')) := by
    cases remedy : h.remedy? t with
    | none => rfl
    | some r =>
      cases r with
      | setAside doc =>
        have documents := (edit_of_remedy_setAside h t doc remedy).documents
        rw [noDoc] at documents
        cases documents
      | retry parts =>
        obtain ⟨part, rest, rfl, noOperand'⟩ := exists_of_remedy_retry h t parts remedy
        exact ahead.stepAll h s s' part noOperand' rest
  have remedies' : (((driver h).heuristics.remedy? t).bind ((driver h).apply s))
      = (((driver h).heuristics.remedy? t).bind ((driver h).apply s')) := remedies
  unfold Driver.offer
  rw [remedies']
  rcases ahead.step h s s' t noOperand with same | ⟨f, f', stepped, stepped'⟩
  · rw [same]
    exact .inl rfl
  · rw [stepped, stepped', Outcome.orElse_error, Outcome.orElse_error]
    cases ((driver h).heuristics.remedy? t).bind ((driver h).apply s') with
    | none => exact .inr ⟨f, f', rfl, rfl⟩
    | some o => exact .inl rfl

theorem Ahead.offer_docstring
    (reads : h.docstrings = true)
    (ahead : Ahead s s')
    (doc : Docstring)
    (documents : t.docstring? = some doc) :
    (driver h).offer s t = .intermediate (s.addDocstring doc)
      ∧ (driver h).offer s' t = .intermediate (s'.addDocstring doc)
      ∧ Ahead (s.addDocstring doc) (s'.addDocstring doc) := by
  have isDoc := tag_of_docstring? t doc documents
  have refused' : ∃ f, (driver h).step s' t = .error f := by
    obtain ⟨goal, q, e, below, la, env, isPostfix⟩ := ahead.abovePostfixed
    obtain ⟨b, refused⟩ := settled_docString_above_postfixed goal below q e t isPostfix isDoc
    rw [(driver h).step_of_pending_eq_none s' t ahead.settled]
    exact ⟨_, read_eq_error_of_settled h t s'.env s'.docstrings b (by rw [env]; exact refused)⟩
  obtain ⟨f', stepped'⟩ := refused'
  have refused : ∃ f, (driver h).step s t = .error f := by
    rcases ahead.step h s s' t (by rw [isDoc]; rfl) with same | ⟨f, _, stepped, _⟩
    · exact ⟨f', same.trans stepped'⟩
    · exact ⟨f, stepped⟩
  obtain ⟨f, stepped⟩ := refused
  refine ⟨?_, ?_, ?_⟩
  · exact (driver h).offer_of_refused_docstring s t doc f reads documents stepped
  · exact (driver h).offer_of_refused_docstring s' t doc f' reads documents stepped'
  · exact ⟨by simp [ahead.docstrings], ahead.settled, ahead.aboveMarker, ahead.abovePostfixed,
      ahead.reserve⟩

/-- Where no run is pending, a marker run is refused in both readings, or it gets a state ahead of
the one behind its postfix operators. -/
theorem offer_marker
    (reads : h.postfixReplay = true)
    (n : Nat)
    (closed : s.pending = none)
    (marked : t.kind.markerCount = some n) :
    (∃ q qs f f', markerTokens n t.span.start = q :: qs ∧ (driver h).offer s t = .error f
        ∧ (driver h).offer s q = .error f')
      ∨ ∃ next env', (driver h).offer s t = .intermediate next
        ∧ automaton.offerAll s.env (markerTokens n t.span.start) = some env'
        ∧ Ahead next ⟨env', s.docstrings, none⟩ := by
  have isInfix := tag_of_markerCount t n marked
  obtain ⟨q, qs, spelled⟩ : ∃ q qs, markerTokens n t.span.start = q :: qs := by
    have positive := ((t.kind.markerCount_eq_some_iff n).mp marked).2.1
    apply List.exists_cons_of_ne_nil
    intro empty
    have length := length_markerTokens n t.span.start
    rw [empty, List.length_nil] at length
    omega
  have arePostfix := tag_of_mem_markerTokens n t.span.start
  rw [spelled] at arePostfix
  have isPostfix := arePostfix q (List.mem_cons_self ..)
  rcases settled_marker s.env.goal s.env.stack t q isInfix isPostfix with
    ⟨above, e, below, arrived, arrived'⟩ | ⟨b, b', refused, refused'⟩
  · right
    obtain ⟨q', e', isPostfix', _, offered⟩ :=
      offerAll_above_postfixed s.env.goal below q e none qs isPostfix
        (fun u member => arePostfix u (List.mem_cons_of_mem q member))
    have replayed : automaton.offerAll s.env (q :: qs)
        = some ⟨s.env.goal, .token q' :: .expr e' :: below, none⟩ := by
      rw [Automaton.offerAll, offerSettled_eq, arrived']
      simpa using offered
    have pending : (driver h).pendingAfter s.env t = some ⟨s.env, n, t.span.start⟩ :=
      ((driver h).pendingAfter_eq_some_iff s.env t _).mpr ⟨reads, marked, rfl, rfl⟩
    refine ⟨_, _, (driver h).offer_of_offerSettled s t _ arrived, spelled ▸ replayed,
      rfl, rfl, ?_, ?_, ?_⟩
    · exact ⟨_, t, above, none, rfl, isInfix⟩
    · exact ⟨_, q', e', below, none, rfl, isPostfix'⟩
    · refine ⟨_, pending, ?_⟩
      rw [spelled]
      exact replayed
  · left
    have offerError : ∀ (u : Token) (c : Breakdown Env),
        u.tag = .text .infixOp1 ∨ u.tag = .text .postfixOp →
        settled s.env.goal s.env.stack u = .failed c →
        (driver h).offer s u = .error ⟨c, s.docstrings, u⟩ := by
      intro u c operator refused
      have stepped := ((driver h).step_of_pending_eq_none s u closed).trans
        (read_eq_error_of_settled h u s.env s.docstrings c refused)
      have remedy : (driver h).heuristics.remedy? u = none := remedy?_of_operator h u operator
      rw [(driver h).offer_of_remedy?_eq_none s u remedy, stepped]
    exact ⟨q, qs, _, _, spelled, offerError t b (.inl isInfix) refused,
      offerError q b' (.inr isPostfix) refused'⟩

end

/-! ## Whole streams -/

theorem closesOperand_of_docstring
    (t : Token)
    (ts : List Token)
    (isDoc : t.docstring?.isSome = true) :
    closesOperand (t :: ts) = closesOperand ts := by
  have notNone : t.docstring? ≠ none := by
    intro none
    rw [none] at isDoc
    cases isDoc
  simp [closesOperand, notNone]

theorem closesOperand_of_noDoc
    (t : Token)
    (ts : List Token)
    (noDoc : t.docstring? = none) :
    closesOperand (t :: ts) = !startsOperand t.tag := by
  simp [closesOperand, noDoc]

theorem parseFrom_append_of_offerAll
    (h : Heuristics)
    (env env' : Env)
    (docstrings : Docstrings)
    (reached : Offset)
    (us ts : List Token)
    (unmarked : ∀ u ∈ us, u.kind.markerCount = none)
    (offered : automaton.offerAll env us = some env') :
    ∃ reached', (driver h).parseFrom ⟨env, docstrings, none⟩ reached (us ++ ts)
      = (driver h).parseFrom ⟨env', docstrings, none⟩ reached' ts := by
  induction us generalizing env reached with
  | nil =>
    cases offered
    exact ⟨reached, rfl⟩
  | cons u us ih =>
    cases first : automaton.offerSettled env u with
    | needsInput next =>
      rw [Automaton.offerAll, first] at offered
      obtain ⟨reached', rest⟩ :=
        ih next u.span.stop (fun v member => unmarked v (List.mem_cons_of_mem u member)) offered
      refine ⟨reached', ?_⟩
      have step := (driver h).offer_of_offerSettled ⟨env, docstrings, none⟩ u next first
      rw [(driver h).pendingAfter_eq_none env u (unmarked u (List.mem_cons_self ..))] at step
      rw [List.cons_append, Driver.parseFrom, step]
      exact rest
    | accepted value => simp [Automaton.offerAll, first] at offered
    | failed b => simp [Automaton.offerAll, first] at offered

theorem toOption_parseFrom_cons
    (h : Heuristics)
    (s s' : State Env)
    (reached reached' : Offset)
    (t : Token)
    (ts us : List Token)
    (same : SameUnlessErrors ((driver h).offer s t) ((driver h).offer s' t))
    (rest : ∀ next, (driver h).offer s' t = .intermediate next →
      ((driver h).parseFrom next t.span.stop ts).toOption
        = ((driver h).parseFrom next t.span.stop us).toOption) :
    ((driver h).parseFrom s reached (t :: ts)).toOption
      = ((driver h).parseFrom s' reached' (t :: us)).toOption := by
  rw [Driver.parseFrom, Driver.parseFrom]
  rcases same with same | ⟨f, f', offered, offered'⟩
  · rw [same]
    cases offered : (driver h).offer s' t with
    | intermediate next => exact rest next offered
    | success parsed => rfl
    | error f => rfl
  · rw [offered, offered']
    rfl

/-- A marker run comes to the same as its postfix operators, as far as a stream does behind it from
a state that is ahead. -/
theorem toOption_parseFrom_marker
    (h : Heuristics)
    (reads : h.postfixReplay = true)
    (s s' : State Env)
    (reached reached' : Offset)
    (t : Token)
    (ts us : List Token)
    (n : Nat)
    (same : SameUnlessErrors ((driver h).offer s t) ((driver h).offer s' t))
    (closed : s'.pending = none)
    (marked : t.kind.markerCount = some n)
    (rest : ∀ next next', Ahead next next' → ∀ reached reached',
      ((driver h).parseFrom next reached ts).toOption
        = ((driver h).parseFrom next' reached' us).toOption) :
    ((driver h).parseFrom s reached (t :: ts)).toOption
      = ((driver h).parseFrom s' reached' (markerTokens n t.span.start ++ us)).toOption := by
  rcases offer_marker h s' t reads n closed marked with
    ⟨q, qs, f, f', spelled, refused, refused'⟩ | ⟨next, env', offered, replayed, ahead⟩
  · have refused₀ : ∃ f, (driver h).offer s t = .error f := by
      rcases same with same | ⟨f, _, refused, _⟩
      · exact ⟨_, same.trans refused⟩
      · exact ⟨f, refused⟩
    obtain ⟨f₀, refused₀⟩ := refused₀
    rw [spelled, List.cons_append, Driver.parseFrom, Driver.parseFrom, refused₀, refused']
    rfl
  · have offered₀ : (driver h).offer s t = .intermediate next := by
      rcases same with same | ⟨_, f', _, refused⟩
      · exact same.trans offered
      · rw [offered] at refused
        cases refused
    have unmarked : ∀ u ∈ markerTokens n t.span.start, u.kind.markerCount = none := by
      intro u member
      apply markerCount_eq_none_of_tag
      rw [tag_of_mem_markerTokens n t.span.start u member]
      decide
    have shape : s' = ⟨s'.env, s'.docstrings, none⟩ := by rw [← closed]
    obtain ⟨reached'', onwards⟩ := parseFrom_append_of_offerAll h s'.env env' s'.docstrings
      reached' (markerTokens n t.span.start) us unmarked replayed
    rw [shape, onwards, Driver.parseFrom, offered₀]
    exact rest next _ ahead t.span.stop reached''

/-- The states of the two parses, before the rest `ts` of a stream: they are the same, and then an
open marker run will stay an infix operator; or one is ahead, and then the run will not stay one. -/
def Related (ts : List Token) (s s' : State Env) : Prop :=
  s = s' ∧ (s.pending ≠ none → closesOperand ts = false)
    ∨ Ahead s s' ∧ closesOperand ts = true

theorem Related.docstring
    (h : Heuristics)
    (diverts : h.docstrings = true)
    (s s' : State Env)
    (t : Token)
    (ts : List Token)
    (doc : Docstring)
    (documents : t.docstring? = some doc)
    (related : Related (t :: ts) s s') :
    (∃ next next', (driver h).offer s t = .intermediate next
        ∧ (driver h).offer s' t = .intermediate next' ∧ Related ts next next')
      ∨ SameUnlessErrors ((driver h).offer s t) ((driver h).offer s' t)
        ∧ ∀ next, (driver h).offer s' t = .intermediate next → Related ts next next := by
  rw [Related, closesOperand_of_docstring t ts (by rw [documents]; rfl)] at related
  rcases related with ⟨rfl, stays⟩ | ⟨ahead, closes⟩
  · refine .inr ⟨.inl rfl, fun next offered => .inl ⟨rfl, fun pending => ?_⟩⟩
    have unmarked := markerCount_eq_none_of_docstring t doc documents
    rcases (driver h).pending_of_offer s next t unmarked offered with none | ⟨_, kept⟩
    · exact absurd none pending
    · exact stays (kept ▸ pending)
  · obtain ⟨offered, offered', ahead'⟩ := ahead.offer_docstring h s s' t diverts doc documents
    exact .inl ⟨_, _, offered, offered', .inr ⟨ahead', closes⟩⟩

/-- Any other token comes to the same in both states, and a marker run finds nothing pending in the
second one. -/
theorem Related.noDoc
    (h : Heuristics)
    (s s' : State Env)
    (t : Token)
    (ts : List Token)
    (noDoc : t.docstring? = none)
    (related : Related (t :: ts) s s') :
    SameUnlessErrors ((driver h).offer s t) ((driver h).offer s' t)
      ∧ ∀ n, t.kind.markerCount = some n → s'.pending = none := by
  rw [Related, closesOperand_of_noDoc t ts noDoc] at related
  rcases related with ⟨rfl, stays⟩ | ⟨ahead, closes⟩
  · refine ⟨.inl rfl, fun n marked => ?_⟩
    rw [tag_of_markerCount t n marked] at stays
    cases pending : s.pending with
    | none => rfl
    | some p => exact absurd (stays (by simp [pending])) (by decide)
  · have noOperand : startsOperand t.tag = false := by simpa using closes
    exact ⟨ahead.offer h s s' t noOperand noDoc, fun _ _ => ahead.settled⟩

/-- The induction is on the stream; what carries it is that the two states stay related. -/
theorem toOption_parseFrom_respellMarkers
    (h : Heuristics)
    (reads : h.postfixReplay = true)
    (diverts : h.docstrings = true)
    (s s' : State Env)
    (reached reached' : Offset)
    (ts : List Token)
    (related : Related ts s s') :
    ((driver h).parseFrom s reached ts).toOption
      = ((driver h).parseFrom s' reached' (respellMarkers ts)).toOption := by
  induction ts generalizing s s' reached reached' with
  | nil => rfl
  | cons t ts ih =>
    -- a token that is kept: what follows is the same parse, or related ones
    have kept : SameUnlessErrors ((driver h).offer s t) ((driver h).offer s' t) →
        (∀ next, (driver h).offer s' t = .intermediate next → Related ts next next) →
        ((driver h).parseFrom s reached (t :: ts)).toOption
          = ((driver h).parseFrom s' reached' (t :: respellMarkers ts)).toOption :=
      fun same rest => toOption_parseFrom_cons h s s' reached reached' t ts _ same
        fun next offered => ih next next t.span.stop t.span.stop (rest next offered)
    cases documents : t.docstring? with
    | some doc =>
      have unmarked := markerCount_eq_none_of_docstring t doc documents
      rw [respellMarkers_of_unmarked t ts unmarked]
      rcases related.docstring h diverts s s' t ts doc documents with
        ⟨next, next', offered, offered', related'⟩ | ⟨same, rest⟩
      · rw [Driver.parseFrom, Driver.parseFrom, offered, offered']
        exact ih next next' t.span.stop t.span.stop related'
      · exact kept same rest
    | none =>
      obtain ⟨same, closed⟩ := related.noDoc h s s' t ts documents
      cases counted : t.kind.markerCount with
      | none =>
        rw [respellMarkers_of_unmarked t ts counted]
        refine kept same fun next offered => .inl ⟨rfl, fun pending => ?_⟩
        rcases (driver h).pending_of_offer s' next t counted offered with none | ⟨isDoc, _⟩
        · exact absurd none pending
        · exact absurd documents isDoc
      | some n =>
        cases closes : closesOperand ts with
        | false =>
          rw [respellMarkers_of_kept t ts closes]
          exact kept same fun next _ => .inl ⟨rfl, fun _ => closes⟩
        | true =>
          rw [respellMarkers_of_closed t ts n counted closes]
          exact toOption_parseFrom_marker h reads s s' reached reached' t ts _ n same
            (closed n counted) counted fun next s'' ahead r r' =>
              ih next s'' r r' (.inr ⟨ahead, closes⟩)

/-- A driver that rereads marker runs and sets doc comments aside parses a stream to what it parses
the respelled stream to. -/
theorem parse_respellMarkers_iff
    (h : Heuristics)
    (reads : h.postfixReplay = true)
    (diverts : h.docstrings = true)
    (goal : Goal)
    (o : Offset)
    (ts : List Token)
    (p : Parsed Tree) :
    (driver h).parse goal o ts = .ok (.ok p)
      ↔ (driver h).parse goal o (respellMarkers ts) = .ok (.ok p) := by
  have same := toOption_parseFrom_respellMarkers h reads diverts (initialState goal)
    (initialState goal) o o ts (.inl ⟨rfl, fun pending => absurd rfl pending⟩)
  have toOption_iff : ∀ x : Except ParseError (Parsed Tree), x = .ok p ↔ x.toOption = some p := by
    intro x
    cases x <;> simp [Except.toOption]
  simp only [Driver.parse, initial_driver, Except.map, Except.ok.injEq]
  rw [toOption_iff, toOption_iff, same]

/-- A marker run before a doc comment and an item that lacks its separator. -/
theorem parse_respellMarkers_of_marker_run :
    respellMarkers (lex "x ^^ /**d*/ open M") ≠ lex "x ^^ /**d*/ open M"
      ∧ (driver .all).parse .useFile .zero (respellMarkers (lex "x ^^ /**d*/ open M"))
        = .ok (.ok ⟨.phrases [.postfixed (.var "x") ["^", "^"], .openItem "M"],
            .ofList [⟨"d", ⟨.clamp 5, .clamp 11⟩⟩]⟩) := by
  refine ⟨by decide, ?_⟩
  exact (parse_respellMarkers_iff .all rfl rfl .useFile .zero _ _).mp
    (show (driver .all).parse .useFile .zero (lex "x ^^ /**d*/ open M") = _ from rfl)

end TolerantParser.Mini
