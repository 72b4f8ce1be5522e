import TolerantParser.Proofs.Driver.SetAside
import TolerantParser.Proofs.Mini.DocComments.Abreast

/-! # Offers where doc comments are

What becomes of `Abreast` when tokens are offered.  A token that the plain parse takes keeps the two
parses abreast (`Abreast.offer`), remedies included.  A doc comment that only the other parse gets
is taken up where an item can begin (`Abreast.offer_docString_of_begins`) and set aside inside an
item (`Abreast.offer_docString_of_inside`).  One that waits is fatal to its parse where the next
token ends items (`Abreast.offer_of_waiting`): the token is refused, and it has no remedy. -/

set_option autoImplicit false

namespace TolerantParser.Mini

section Offers
variable (h : Heuristics) (goal : Goal) (comments : List String) (isFile : goal.isFile = true)

theorem last_of_remedy_retry
    (t first : Token)
    (rest : List Token)
    (other : t.tag ≠ .text .docString)
    (remedy : h.remedy? t = some (.retry (first :: rest))) :
    (∀ v ∈ first :: rest, v.tag ≠ .text .docString)
      ∧ Mode.after ((first :: rest).getLast (List.cons_ne_nil first rest)) = .after t
      ∧ (((first :: rest).getLast (List.cons_ne_nil first rest)).tag = .eof → t.tag = .eof) := by
  rcases cases_of_remedy_retry h t _ remedy with ⟨_, _, separated⟩ | ⟨_, fused⟩
  · obtain ⟨rfl, rfl⟩ := List.cons.inj separated
    exact ⟨by simp [other], rfl, id⟩
  · obtain ⟨isInfix, _, tags⟩ := tags_of_labelParts t _ fused
    have plain : ∀ v ∈ first :: rest, v.tag ≠ .text .docString ∧ v.tag ≠ .reserved .semi
        ∧ v.tag ≠ .eof := by
      intro v member
      rcases tags v member with tagged | tagged | ⟨op, tagged⟩
      · simp [tagged]
      · simp [tagged]
      · cases op <;> simp [tagged, LabelOperator.reserved]
    obtain ⟨_, noSemi, noEof⟩ := plain _ (List.getLast_mem (List.cons_ne_nil first rest))
    refine ⟨fun v member => (plain v member).1, ?_, fun ends => absurd ends noEof⟩
    simp [Mode.after, noSemi, isInfix]

section AtItems
variable (env : Env) (is : List Tree)
  (atItems : ∀ u, automaton.offerSettled env u = settled goal [.items is true] u)
include atItems

theorem failed_of_run_at_items
    (u : Token)
    (us : List Token)
    (notItem : u.tag = .reserved .equal ∨ u.tag = .text .postfixOp)
    (x : Settled Env Tree)
    (run : automaton.run env (u :: us) = some x) :
    ∃ b, x = .failed b := by
  have refused : nextAction goal u.tag (Stack.marks [.items is true]) = .error := by
    rcases notItem with tagged | tagged <;> rw [tagged] <;> cases goal <;> rfl
  simp only [Automaton.run, (atItems u).trans (settled_of_error goal _ u refused)] at run
  split at run
  · cases run
    exact ⟨_, rfl⟩
  · cases run

/-- Where the next item has not been begun, no edit helps a token that is refused. -/
theorem failed_of_edit_at_items
    (t : Token)
    (us : List Token)
    (edit : Edit h t us [])
    (b : Breakdown Env)
    (refused : automaton.offerSettled env t = .failed b)
    (x : Settled Env Tree)
    (run : automaton.run env us = some x) :
    ∃ b, x = .failed b := by
  cases edit with
  | keep =>
    rw [automaton.run_singleton, refused] at run
    exact ⟨b, (Option.some.inj run).symm⟩
  | separate enabled starts =>
    -- the separator leads back to where an item can begin
    have separated := (atItems _).trans
      (settled_of_shift goal [.items is true] ⟨.reserved .semi, .point t.span.start⟩ rfl)
    rw [automaton.run_cons_of_needsInput env _ _ _ separated, automaton.run_singleton,
      offerSettled_eq, settled_of_reduce goal _ [.items is true] t .closeItem rfl rfl,
      ← atItems, refused] at run
    exact ⟨b, (Option.some.inj run).symm⟩
  | split parts enabled fused =>
    obtain ⟨_, ⟨equal, rest, rfl, binds⟩, _⟩ := tags_of_labelParts t us fused
    exact failed_of_run_at_items goal env is atItems equal rest (.inl binds) x run
  | replay n enabled marked =>
    have positive := ((t.kind.markerCount_eq_some_iff n).mp marked).2.1
    cases spelled : markerTokens n t.span.start with
    | nil =>
      rw [← length_markerTokens n t.span.start, spelled] at positive
      cases positive
    | cons u us =>
      have isPostfix := tag_of_mem_markerTokens n t.span.start u (by simp [spelled])
      rw [spelled] at run
      exact failed_of_run_at_items goal env is atItems u us (.inr isPostfix) x run

theorem step_of_offer_at_items
    (s : State Env)
    (t : Token)
    (standing : s.env = env)
    (settled : s.pending = none)
    (other : t.tag ≠ .text .docString)
    (accepted : ((driver h).offer s t).isError = false) :
    ((driver h).step s t).isError = false := by
  have taken := (driver h).taken_of_offer s t accepted
  cases stepped : (driver h).step s t with
  | intermediate next => rfl
  | success p => rfl
  | error f =>
    have failed := (driver h).read_of_step_error s t f stepped
    have refused := (((driver h).read_eq_error_iff s.env s.docstrings t f).mp failed).1
    generalize (driver h).offer s t = o at taken accepted
    cases taken with
    | kept env' reading =>
      rw [reading.eq_env (driver h) s env' settled, failed] at accepted
      cases accepted
    | setAside doc edit =>
      have documents := edit.documents
      rw [docstring?_eq_none t other] at documents
      cases documents
    | replaced us env' x o edit reading run concluded =>
      rw [reading.eq_env (driver h) s env' settled, standing] at run
      rw [standing] at refused
      obtain ⟨b, rfl⟩ := failed_of_edit_at_items h goal env is atItems t us edit _ refused x run
      cases concluded

end AtItems

theorem Follows.offerSettled_of_waiting
    (isFile : goal.isFile = true)
    (env env' : Env)
    (follows : Follows goal comments env env')
    (waiting : env'.stack.mode = .waiting) :
    ∃ is, ∀ u, automaton.offerSettled env u = settled goal [.items is true] u := by
  obtain ⟨doc, rest, same, documents⟩ := docString_of_waiting env'.stack waiting
  have viable := follows.viable
  rw [same] at viable
  obtain ⟨_, is, alone⟩ := (viable.place_of_docString goal rest doc documents).foot goal _ isFile
  refine ⟨is, fun u => ?_⟩
  rw [offerSettled_eq, follows.goal_eq, follows.settled_eq, same, alone]

theorem Abreast.pending_eq_none
    (s s' : State Env)
    (abreast : Abreast goal comments s s')
    (outside : s'.env.stack.mode ≠ .inside) :
    s.pending = none ∧ s'.pending = none := by
  have settled : s'.pending = none := by
    cases marked : s'.pending with
    | none => rfl
    | some p => exact absurd (abreast.inside (by simp [marked])) outside
  have pending := abreast.pending
  rw [settled] at pending
  cases plain : s.pending with
  | none => exact ⟨rfl, settled⟩
  | some p =>
    rw [plain] at pending
    cases pending

theorem Abreast.offer_of_ne_waiting
    (isFile : goal.isFile = true)
    (s s' : State Env)
    (t : Token)
    (abreast : Abreast goal comments s s')
    (other : t.tag ≠ .text .docString)
    (notWaiting : s'.env.stack.mode ≠ .waiting) :
    Agree goal t comments s'.docstrings ((driver h).offer s t) ((driver h).offer s' t) := by
  have stepped := abreast.step h goal comments isFile s s' t other
    (fun waiting => absurd waiting notWaiting)
  refine stepped.orElse goal t comments s'.docstrings _ _ _ _ ?_
  cases remedy : (driver h).heuristics.remedy? t with
  | none => exact .none
  | some r =>
    cases r with
    | setAside doc =>
      have documents := (edit_of_remedy_setAside h t doc remedy).documents
      rw [docstring?_eq_none t other] at documents
      cases documents
    | retry parts =>
      obtain ⟨_, nonempty, _⟩ := edit_of_remedy_retry h t parts remedy
      obtain ⟨first, rest, rfl⟩ := List.exists_cons_of_ne_nil nonempty
      obtain ⟨others, mode, ends⟩ := last_of_remedy_retry h t first rest other remedy
      have retried := abreast.stepAll h goal comments isFile s s' first rest notWaiting others
      simp only [Option.bind_some, Driver.apply]
      generalize (driver h).stepAll s _ = o, (driver h).stepAll s' _ = o' at retried
      cases retried with
      | none => exact .none
      | some agree => exact .some (agree.of_last goal _ t comments _ _ _ mode ends)

theorem Abreast.offer
    (isFile : goal.isFile = true)
    (s s' : State Env)
    (t : Token)
    (abreast : Abreast goal comments s s')
    (other : t.tag ≠ .text .docString)
    (continues : s'.env.stack.mode = .waiting → endsItem t.tag = false)
    (taken : ((driver h).offer s t).isError = false) :
    Agree goal t comments s'.docstrings ((driver h).offer s t) ((driver h).offer s' t) := by
  by_cases waiting : s'.env.stack.mode = .waiting
  · obtain ⟨is, atItems⟩ :=
      abreast.env.offerSettled_of_waiting goal comments isFile s.env s'.env waiting
    obtain ⟨settled, _⟩ := abreast.pending_eq_none goal comments s s' (by rw [waiting]; nofun)
    have accepted := step_of_offer_at_items h goal s.env is atItems s t rfl settled other taken
    have stepped := abreast.step h goal comments isFile s s' t other continues
    have accepted' : ((driver h).step s' t).isError = false := by
      generalize (driver h).step s t = o, (driver h).step s' t = o' at stepped accepted
      cases stepped with
      | intermediate | success => rfl
      | error => cases accepted
    rwa [(driver h).offer_of_step s t accepted, (driver h).offer_of_step s' t accepted']
  · exact abreast.offer_of_ne_waiting h goal comments isFile s s' t other waiting

/-- A doc comment that waits for its item is fatal where the item does not come. -/
theorem Abreast.offer_of_waiting
    (s s' : State Env)
    (t : Token)
    (abreast : Abreast goal comments s s')
    (waiting : s'.env.stack.mode = .waiting)
    (ends : endsItem t.tag = true) :
    ∃ f, (driver h).offer s' t = .error f := by
  obtain ⟨_, settled⟩ := abreast.pending_eq_none goal comments s s' (by rw [waiting]; nofun)
  have all : ∀ la ∈ Tag.all, endsItem la = true → la ≠ .text .docString
      ∧ starters.contains la = false ∧ la ≠ .text .infixOp0 := by
    decide
  obtain ⟨noDoc, noStarter, noLabel⟩ := all t.tag t.tag.mem_all ends
  have refused := settled_of_waiting goal s'.env.stack t waiting ends
  rw [← abreast.env.goal_eq'] at refused
  have stepped := (driver h).step_of_pending_eq_none s' t settled
  rw [read_eq_error_of_settled h t s'.env s'.docstrings _ refused] at stepped
  have offered := (driver h).offer_of_step_error s' t _ stepped
  rw [remedy?_eq_none _ t noDoc noStarter noLabel] at offered
  exact ⟨_, offered⟩

/-! ## Doc comments -/

section DocComments
variable (t : Token) (doc : Docstring) (documents : t.docstring? = some doc)
include documents

theorem Follows.read_docString
    (isFile : goal.isFile = true)
    (env env' : Env)
    (ds : Docstrings)
    (follows : Follows goal comments env env')
    (inside : env'.stack.mode = .inside) :
    ∃ f, (driver h).read env' ds t = .error f := by
  obtain ⟨b, failed⟩ := settled_docString_of_inside goal env'.stack t isFile follows.viable inside
    (tag_of_docstring? t doc documents)
  rw [← follows.goal_eq'] at failed
  exact ⟨_, read_eq_error_of_settled h t env' ds b failed⟩

theorem FollowsPending.reread_docString
    (isFile : goal.isFile = true)
    (p p' : Pending Env)
    (ds : Docstrings)
    (follows : FollowsPending goal comments p p') :
    (driver h).reread p' ds t = none := by
  have replayed := follows.offerAll h goal comments isFile p p'
  unfold Driver.reread
  generalize (driver h).automaton.offerAll p.fallback _ = x at replayed
  generalize (driver h).automaton.offerAll p'.fallback _ = x' at replayed ⊢
  cases replayed with
  | none => rfl
  | some both =>
    obtain ⟨follows, inside⟩ := both
    obtain ⟨f, refused⟩ :=
      follows.read_docString h goal comments t doc documents isFile _ _ ds inside
    simp only [Option.bind_eq_bind, Option.bind_some, refused]
    rfl

variable (s s' : State Env) (abreast : Abreast goal comments s s')
include abreast

theorem Abreast.offer_docString_of_inside
    (isFile : goal.isFile = true)
    (enabled : h.docstrings = true)
    (inside : s'.env.stack.mode = .inside) :
    (driver h).offer s' t = .intermediate (s'.addDocstring doc) := by
  obtain ⟨f, first⟩ :=
    abreast.env.read_docString h goal comments t doc documents isFile _ _ s'.docstrings inside
  have second : (s'.pending.bind fun p => (driver h).reread p s'.docstrings t) = none := by
    have pending := abreast.pending
    generalize s.pending = p, s'.pending = p' at pending
    cases pending with
    | none => rfl
    | some follows => exact follows.reread_docString h goal comments t doc documents isFile _ _ _
  have stepped : (driver h).step s' t = .error f := by
    rw [Driver.step, first, Outcome.orElse_error, second, Option.getD_none]
  exact (driver h).offer_of_refused_docstring s' t doc f enabled documents stepped

theorem Abreast.offer_docString_of_begins
    (begins : s'.env.stack.mode ≠ .inside) :
    ∃ next', (driver h).offer s' t = .intermediate next'
      ∧ Abreast goal (comments ++ [doc.text]) s next'
      ∧ next'.env.stack.mode = .waiting
      ∧ next'.docstrings = s'.docstrings := by
  have isDoc := tag_of_docstring? t doc documents
  have unmarked :=
    (driver h).pendingAfter_eq_none s'.env t (markerCount_eq_none_of_docstring t doc documents)
  obtain ⟨settled, settled'⟩ := abreast.pending_eq_none goal comments s s' begins
  obtain ⟨rest, shifted, viable, bare, kept, same⟩ :=
    settled_docString_of_begins goal s'.env.stack t abreast.env.viable abreast.env.bare begins isDoc
  rw [← abreast.env.goal_eq', ← offerSettled_eq s'.env t, abreast.env.goal_eq'] at shifted
  refine ⟨_, (driver h).offer_of_offerSettled s' t _ shifted, ⟨?_, ?_, ?_⟩, ?_, rfl⟩
  · refine ⟨abreast.env.goal_eq, rfl, viable, (Stack.isBare_cons _ rest).mpr ⟨trivial, bare⟩,
      ?_, ?_⟩
    · rw [comments_docString rest t doc documents, kept, abreast.env.comments_eq]
    · intro u
      rw [abreast.env.settled_eq, undocumented_docString rest t isDoc, same]
  · rw [settled, unmarked]
    exact .none
  · exact fun marked => absurd unmarked marked
  · rw [mode_token, isDoc]
    rfl

end DocComments

end Offers

end TolerantParser.Mini
