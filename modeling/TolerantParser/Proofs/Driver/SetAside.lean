import TolerantParser.Proofs.Driver.Edits

/-! # Doc comments that are set aside

The doc comments of a state are carried along and never looked at.  `setAside` lists the doc
comments that a run sets aside, and `offerMany_withDocstrings` says that this list is all a run
does to the doc comments it started with: from a state with other ones it goes the same way and
adds the same list.  Hence a doc comment that is refused leaves no other trace
(`offerMany_of_other_docstrings`). -/

set_option autoImplicit false

namespace TolerantParser

variable {Env Value : Type}

def State.withDocstrings (s : State Env) (ds : Docstrings) : State Env :=
  { s with docstrings := ds }

namespace Outcome

def docstrings : Outcome Env Value → Docstrings
  | intermediate s => s.docstrings
  | success p => p.docstrings
  | error f => f.docstrings

def withDocstrings (o : Outcome Env Value) (ds : Docstrings) : Outcome Env Value :=
  match o with
  | intermediate s => intermediate (s.withDocstrings ds)
  | success p => success { p with docstrings := ds }
  | error f => error { f with docstrings := ds }

@[simp] theorem docstrings_withDocstrings
    (o : Outcome Env Value)
    (ds : Docstrings) :
    (o.withDocstrings ds).docstrings = ds := by
  cases o <;> rfl

@[simp] theorem withDocstrings_withDocstrings
    (o : Outcome Env Value)
    (ds es : Docstrings) :
    (o.withDocstrings ds).withDocstrings es = o.withDocstrings es := by
  cases o <;> rfl

@[simp] theorem isError_withDocstrings
    (o : Outcome Env Value)
    (ds : Docstrings) :
    (o.withDocstrings ds).isError = o.isError := by
  cases o <;> rfl

end Outcome

namespace Driver

variable (d : Driver Env Value)

/-! ## One token -/

/-- The doc comment that is set aside when `t` is offered at `s`, if it is refused as one. -/
def setAside? (s : State Env) (t : Token) : Option Docstring :=
  if d.heuristics.docstrings && (d.step s t).isError then t.docstring? else none

theorem read_withDocstrings
    (env : Env)
    (ds es : Docstrings)
    (t : Token) :
    d.read env es t = (d.read env ds t).withDocstrings es := by
  unfold read
  cases d.automaton.offerSettled env t <;> rfl

theorem step_withDocstrings
    (s : State Env)
    (ds : Docstrings)
    (t : Token) :
    d.step (s.withDocstrings ds) t = (d.step s t).withDocstrings ds := by
  have first := d.read_withDocstrings s.env s.docstrings ds t
  have second : ∀ p, d.reread p ds t
      = (d.reread p s.docstrings t).map (·.withDocstrings ds) := by
    intro p
    unfold reread
    cases d.automaton.offerAll p.fallback (markerTokens p.count p.position) with
    | none => rfl
    | some env =>
      simp only [Option.bind_eq_bind, Option.bind_some, d.read_withDocstrings env s.docstrings ds t]
      cases d.read env s.docstrings t <;> rfl
  simp only [step, State.withDocstrings, first]
  cases d.read s.env s.docstrings t with
  | intermediate next => rfl
  | success p => rfl
  | error f =>
    cases s.pending with
    | none => rfl
    | some p =>
      simp only [Option.bind_some, second p]
      cases d.reread p s.docstrings t <;> rfl

theorem setAside?_withDocstrings
    (s : State Env)
    (ds : Docstrings)
    (t : Token) :
    d.setAside? (s.withDocstrings ds) t = d.setAside? s t := by
  simp only [setAside?, d.step_withDocstrings s ds t, Outcome.isError_withDocstrings]

theorem stepAll_withDocstrings
    (s : State Env)
    (ds : Docstrings)
    (ts : List Token) :
    d.stepAll (s.withDocstrings ds) ts = (d.stepAll s ts).map (·.withDocstrings ds) := by
  induction ts generalizing s with
  | nil => rfl
  | cons t ts ih =>
    simp only [stepAll, d.step_withDocstrings s ds t]
    cases d.step s t with
    | intermediate next => exact ih next
    | success p => cases ts <;> rfl
    | error f => rfl

theorem offer_of_refused_docstring
    (s : State Env)
    (t : Token)
    (doc : Docstring)
    (f : Failure Env)
    (enabled : d.heuristics.docstrings = true)
    (documents : t.docstring? = some doc)
    (stepped : d.step s t = .error f) :
    d.offer s t = .intermediate (s.addDocstring doc) := by
  have remedy : d.heuristics.remedy? t = some (.setAside doc) := by
    simp [Heuristics.remedy?, enabled, documents]
  rw [d.offer_of_step_error s t f stepped, remedy]
  rfl

theorem offer_of_setAside?
    (s : State Env)
    (t : Token)
    (doc : Docstring)
    (refused : d.setAside? s t = some doc) :
    d.offer s t = .intermediate (s.addDocstring doc) := by
  unfold setAside? at refused
  split at refused
  · next both =>
    simp only [Bool.and_eq_true] at both
    obtain ⟨enabled, failed⟩ := both
    cases stepped : d.step s t with
    | intermediate next => rw [stepped] at failed; cases failed
    | success p => rw [stepped] at failed; cases failed
    | error f => exact d.offer_of_refused_docstring s t doc f enabled refused stepped
  · cases refused

/-- A token that is not set aside is stepped over, or retried as the tokens of its remedy. -/
theorem offer_of_kept
    (s : State Env)
    (t : Token)
    (kept : d.setAside? s t = none) :
    d.offer s t = (d.step s t).orElse ((d.heuristics.remedy? t).bind fun
      | .setAside _ => none
      | .retry ts => d.stepAll s ts) := by
  unfold offer
  cases stepped : d.step s t with
  | intermediate next => rfl
  | success p => rfl
  | error f =>
    cases remedy : d.heuristics.remedy? t with
    | none => rfl
    | some r =>
      cases r with
      | retry ts => rfl
      | setAside doc =>
        have edit := edit_of_remedy_setAside d.heuristics t doc remedy
        simp [setAside?, stepped, Outcome.isError, edit.enabled, edit.documents] at kept

/-- An offer adds the doc comment that it sets aside, and nothing else depends on the ones that
were there. -/
theorem offer_withDocstrings
    (s : State Env)
    (ds : Docstrings)
    (t : Token) :
    d.offer (s.withDocstrings ds) t
      = (d.offer s t).withDocstrings ((d.setAside? s t).elim ds ds.push) := by
  have same := d.setAside?_withDocstrings s ds t
  cases refused : d.setAside? s t with
  | some doc =>
    rw [d.offer_of_setAside? _ t doc (same.trans refused), d.offer_of_setAside? s t doc refused]
    rfl
  | none =>
    rw [d.offer_of_kept _ t (same.trans refused), d.offer_of_kept s t refused,
      d.step_withDocstrings s ds t]
    cases d.step s t with
    | intermediate next => rfl
    | success p => rfl
    | error f =>
      cases d.heuristics.remedy? t with
      | none => rfl
      | some r =>
        cases r with
        | setAside doc => rfl
        | retry ts =>
          simp only [Option.bind_some, d.stepAll_withDocstrings s ds ts]
          cases d.stepAll s ts <;> rfl

/-! ## Whole streams -/

def setAside (s : State Env) : List Token → List Docstring
  | [] => []
  | t :: ts =>
    match d.offer s t with
    | .intermediate next => (d.setAside? s t).toList ++ setAside next ts
    | _ => []

theorem offerMany_cons_of_intermediate
    (s next : State Env)
    (t : Token)
    (ts : List Token)
    (offered : d.offer s t = .intermediate next) :
    d.offerMany s (t :: ts)
      = ⟨(d.offerMany next ts).outcome, (d.offerMany next ts).pulled + 1⟩ := by
  simp only [offerMany, offered]

theorem setAside?_eq_none_of_offer
    (s : State Env)
    (t : Token)
    (ended : (d.offer s t).isIntermediate = false) :
    d.setAside? s t = none := by
  cases refused : d.setAside? s t with
  | none => rfl
  | some doc =>
    rw [d.offer_of_setAside? s t doc refused] at ended
    cases ended

theorem offerMany_withDocstrings
    (s : State Env)
    (ds : Docstrings)
    (ts : List Token) :
    d.offerMany (s.withDocstrings ds) ts
      = ⟨(d.offerMany s ts).outcome.withDocstrings ((d.setAside s ts).foldl .push ds),
          (d.offerMany s ts).pulled⟩ := by
  induction ts generalizing s ds with
  | nil => rfl
  | cons t ts ih =>
    have offered := d.offer_withDocstrings s ds t
    cases first : d.offer s t with
    | intermediate next =>
      rw [first, Outcome.withDocstrings] at offered
      rw [d.offerMany_cons_of_intermediate _ _ t ts offered,
        d.offerMany_cons_of_intermediate s next t ts first, ih]
      cases aside : d.setAside? s t <;> simp [setAside, first, aside]
    | success p =>
      have kept := d.setAside?_eq_none_of_offer s t (by rw [first]; rfl)
      rw [first, kept] at offered
      simp only [offerMany, offered, first, setAside]
      rfl
    | error f =>
      have kept := d.setAside?_eq_none_of_offer s t (by rw [first]; rfl)
      rw [first, kept] at offered
      simp only [offerMany, offered, first, setAside]
      rfl

theorem toList_docstrings_offerMany
    (s : State Env)
    (ts : List Token) :
    (d.offerMany s ts).outcome.docstrings.toList
      = s.docstrings.toList ++ d.setAside s ts := by
  have same : d.offerMany s ts = _ := d.offerMany_withDocstrings s s.docstrings ts
  rw [same, Outcome.docstrings_withDocstrings, Docstrings.toList_foldl_push]

theorem setAside_sublist
    (s : State Env)
    (ts : List Token) :
    (d.setAside s ts).Sublist
      ((ts.take (d.offerMany s ts).pulled).filterMap Token.docstring?) := by
  induction ts generalizing s with
  | nil => simp [setAside]
  | cons t ts ih =>
    cases first : d.offer s t with
    | success p => simp [setAside, first]
    | error f => simp [setAside, first]
    | intermediate next =>
      have rest := ih next
      have one : (d.setAside? s t).toList.Sublist t.docstring?.toList := by
        unfold setAside?
        split <;> simp
      rw [d.offerMany_cons_of_intermediate s next t ts first, List.take_succ_cons]
      simp only [setAside, first]
      cases documents : t.docstring? with
      | none =>
        rw [documents] at one
        have none : (d.setAside? s t).toList = [] := List.sublist_nil.mp one
        rw [List.filterMap_cons_none documents, none]
        exact rest
      | some doc =>
        rw [documents] at one
        rw [List.filterMap_cons_some documents]
        exact one.append rest

/-- Two states that differ in their doc comments only go the same way over every stream: as many
tokens are taken, the outcomes differ in their doc comments only, and to those of both states the
same ones are added, which are the ones set aside on the way.  A doc comment that is refused and
set aside changes nothing that comes after it but that it stands first among those added. -/
theorem offerMany_of_other_docstrings :
    (∀ (s s' : State Env) (ts : List Token), s'.env = s.env → s'.pending = s.pending →
        (d.offerMany s' ts).pulled = (d.offerMany s ts).pulled
          ∧ (d.offerMany s' ts).outcome.withDocstrings .empty
            = (d.offerMany s ts).outcome.withDocstrings .empty
          ∧ (d.offerMany s ts).outcome.docstrings.toList
            = s.docstrings.toList ++ d.setAside s ts
          ∧ (d.offerMany s' ts).outcome.docstrings.toList
            = s'.docstrings.toList ++ d.setAside s ts
          ∧ (d.setAside s ts).Sublist
            ((ts.take (d.offerMany s ts).pulled).filterMap Token.docstring?))
      ∧ ∀ (s : State Env) (t : Token) (doc : Docstring) (ts : List Token),
          d.heuristics.docstrings = true → t.docstring? = some doc →
          (d.step s t).isError = true →
          (d.offerMany s (t :: ts)).pulled = (d.offerMany s ts).pulled + 1
            ∧ (d.offerMany s (t :: ts)).outcome.withDocstrings .empty
              = (d.offerMany s ts).outcome.withDocstrings .empty
            ∧ (d.offerMany s ts).outcome.docstrings.toList
              = s.docstrings.toList ++ d.setAside s ts
            ∧ (d.offerMany s (t :: ts)).outcome.docstrings.toList
              = s.docstrings.toList ++ doc :: d.setAside s ts := by
  constructor
  · intro s s' ts env pending
    have other : s' = s.withDocstrings s'.docstrings := by
      obtain ⟨env', docs', pending'⟩ := s'
      cases env
      cases pending
      rfl
    have same := d.offerMany_withDocstrings s s'.docstrings ts
    rw [← other] at same
    refine ⟨by rw [same], by rw [same, Outcome.withDocstrings_withDocstrings],
      d.toList_docstrings_offerMany s ts, ?_, d.setAside_sublist s ts⟩
    rw [same, Outcome.docstrings_withDocstrings, Docstrings.toList_foldl_push]
  · intro s t doc ts enabled documents refused
    have aside : d.setAside? s t = some doc := by simp [setAside?, enabled, refused, documents]
    have first : d.offer s t = .intermediate (s.withDocstrings (s.docstrings.push doc)) :=
      d.offer_of_setAside? s t doc aside
    rw [d.offerMany_cons_of_intermediate s _ t ts first, d.offerMany_withDocstrings]
    refine ⟨rfl, by rw [Outcome.withDocstrings_withDocstrings],
      d.toList_docstrings_offerMany s ts, ?_⟩
    rw [Outcome.docstrings_withDocstrings, Docstrings.toList_foldl_push, Docstrings.toList_push,
      List.append_assoc, List.singleton_append]

/-- A doc comment that is refused in both readings of a marker run, behind one set aside before. -/
theorem offerMany_of_other_docstrings_at_markers :
    let s : State Mini.Env :=
      ⟨⟨.useFile, [.token ⟨.text .infixOp1 "^^", ⟨.clamp 2, .clamp 4⟩⟩, .expr (.var "x"),
          .items [] true], none⟩,
        .ofList [⟨"a", .point .zero⟩],
        some ⟨⟨.useFile, [.token ⟨.text .lowerIdent "x", ⟨.clamp 0, .clamp 1⟩⟩,
          .items [] true], none⟩, 2, .clamp 2⟩⟩
    let doc : Token := ⟨.text .docString "d", ⟨.clamp 5, .clamp 11⟩⟩
    ((Mini.driver .all).offerMany (s.withDocstrings .empty) (doc :: Mini.lex "open M")).pulled = 4
      ∧ ((Mini.driver .all).offerMany s (doc :: Mini.lex "open M")).outcome.docstrings.toList
        = [⟨"a", .point .zero⟩, ⟨"d", ⟨.clamp 5, .clamp 11⟩⟩] := by
  intro s doc
  have otherwise := (offerMany_of_other_docstrings (Mini.driver .all)).1 s
    (s.withDocstrings .empty) (doc :: Mini.lex "open M") rfl rfl
  have refused := (offerMany_of_other_docstrings (Mini.driver .all)).2 s doc
    ⟨"d", ⟨.clamp 5, .clamp 11⟩⟩ (Mini.lex "open M") rfl rfl rfl
  exact ⟨otherwise.1.trans rfl, refused.2.2.2.trans rfl⟩

end Driver

end TolerantParser
