import TolerantParser.Proofs.Mini.DocComments.Settling

/-! # Two parses abreast

Two parses of a file, where the second one comes by doc comments that the first one has not got.
`Abreast` relates their states: without its doc comments the second one goes on like the first, and
so does the second reading that either of them has open.  Steps over the same tokens `Agree`: both
arrive abreast, or both end with the same value, or both fail. -/

set_option autoImplicit false

namespace TolerantParser.Mini

structure FollowsPending (goal : Goal) (comments : List String) (p p' : Pending Env) : Prop where
  fallback : Follows goal comments p.fallback p'.fallback
  count : p'.count = p.count
  position : p'.position = p.position
  positive : 1 ≤ p.count

structure Abreast (goal : Goal) (comments : List String) (s s' : State Env) : Prop where
  env : Follows goal comments s.env s'.env
  pending : Option.Rel (FollowsPending goal comments) s.pending s'.pending
  /-- behind a marker run an item has been begun -/
  inside : s'.pending ≠ none → s'.env.stack.mode = .inside

inductive Agree (goal : Goal) (t : Token) (comments : List String) (ds : Docstrings) :
    Outcome Env Tree → Outcome Env Tree → Prop
  | intermediate (s s' : State Env)
      (abreast : Abreast goal comments s s')
      (mode : s'.env.stack.mode = .after t)
      (kept : s'.docstrings = ds) :
      Agree goal t comments ds (.intermediate s) (.intermediate s')
  | success (p p' : Parsed Tree)
      (erased : p'.value.eraseDocs = p.value)
      (attached : p'.value.comments = comments)
      (kept : p'.docstrings = ds)
      (ends : t.tag = .eof) :
      Agree goal t comments ds (.success p) (.success p')
  | error (f f' : Failure Env) : Agree goal t comments ds (.error f) (.error f')

section Agree
variable (goal : Goal) (t u : Token) (comments : List String) (ds : Docstrings)
  (o o' : Outcome Env Tree) (agree : Agree goal t comments ds o o')
include agree

theorem Agree.notError? :
    Option.Rel (Agree goal t comments ds) o.notError? o'.notError? := by
  cases agree with
  | intermediate s s' abreast mode kept => exact .some (.intermediate s s' abreast mode kept)
  | success p p' erased attached kept ends =>
    exact .some (.success p p' erased attached kept ends)
  | error => exact .none

theorem Agree.orElse
    (other other' : Option (Outcome Env Tree))
    (agree' : Option.Rel (Agree goal t comments ds) other other') :
    Agree goal t comments ds (o.orElse other) (o'.orElse other') := by
  cases agree with
  | intermediate s s' abreast mode kept => exact .intermediate s s' abreast mode kept
  | success p p' erased attached kept ends => exact .success p p' erased attached kept ends
  | error f f' =>
    cases agree' with
    | some agree => exact agree
    | none => exact .error f f'

theorem Agree.of_last
    (mode : Mode.after t = .after u)
    (ends : t.tag = .eof → u.tag = .eof) :
    Agree goal u comments ds o o' := by
  cases agree with
  | intermediate s s' abreast arrived kept =>
    exact .intermediate s s' abreast (arrived.trans mode) kept
  | success p p' erased attached kept ended =>
    exact .success p p' erased attached kept (ends ended)
  | error f f' => exact .error f f'

end Agree

/-! ## Steps -/

theorem Follows.pendingAfter
    (h : Heuristics)
    (goal : Goal)
    (comments : List String)
    (env env' : Env)
    (t : Token)
    (follows : Follows goal comments env env') :
    Option.Rel (FollowsPending goal comments) ((driver h).pendingAfter env t)
      ((driver h).pendingAfter env' t) := by
  unfold Driver.pendingAfter
  split
  · cases marked : t.kind.markerCount with
    | none => exact .none
    | some n =>
      exact .some ⟨follows, rfl, rfl, ((t.kind.markerCount_eq_some_iff n).mp marked).2.1⟩
  · exact .none

section Steps
variable (h : Heuristics) (goal : Goal) (comments : List String) (isFile : goal.isFile = true)
include isFile

theorem Follows.read
    (env env' : Env)
    (ds ds' : Docstrings)
    (t : Token)
    (follows : Follows goal comments env env')
    (other : t.tag ≠ .text .docString)
    (waiting : env'.stack.mode = .waiting → endsItem t.tag = false) :
    Agree goal t comments ds' ((driver h).read env ds t) ((driver h).read env' ds' t) := by
  have mirrored := follows.offerSettled goal t comments env env' isFile other waiting
  have pending := follows.pendingAfter h goal comments env env' t
  have inside : (driver h).pendingAfter env' t ≠ none → Mode.after t = .inside := by
    intro marked
    obtain ⟨p, marked⟩ := Option.ne_none_iff_exists'.mp marked
    have marked := (((driver h).pendingAfter_eq_some_iff env' t p).mp marked).2.1
    rw [Mode.after, tag_of_markerCount t p.count marked]
    rfl
  change Mirrored goal t comments ((driver h).automaton.offerSettled env t)
    ((driver h).automaton.offerSettled env' t) at mirrored
  unfold Driver.read
  generalize (driver h).automaton.offerSettled env t = x at mirrored ⊢
  generalize (driver h).automaton.offerSettled env' t = x' at mirrored ⊢
  cases mirrored with
  | needsInput next next' follows mode =>
    exact .intermediate _ _ ⟨follows, pending, fun marked => mode.trans (inside marked)⟩ mode rfl
  | accepted v v' erased attached ends => exact .success _ _ erased attached rfl ends
  | failed b b' => exact .error _ _

theorem Follows.offerAll
    (env env' : Env)
    (qs : List Token)
    (follows : Follows goal comments env env')
    (arePostfix : ∀ q ∈ qs, q.tag = .text .postfixOp)
    (mode : qs = [] → env'.stack.mode = .inside) :
    Option.Rel (fun next next' => Follows goal comments next next' ∧ next'.stack.mode = .inside)
      (automaton.offerAll env qs) (automaton.offerAll env' qs) := by
  induction qs generalizing env env' with
  | nil => exact .some ⟨follows, mode rfl⟩
  | cons q qs ih =>
    have isPostfix := arePostfix q (List.mem_cons_self ..)
    have mirrored := follows.offerSettled goal q comments env env' isFile (by simp [isPostfix])
      (fun _ => by rw [isPostfix]; rfl)
    unfold Automaton.offerAll
    generalize automaton.offerSettled env q = x at mirrored ⊢
    generalize automaton.offerSettled env' q = x' at mirrored ⊢
    cases mirrored with
    | needsInput next next' follows mode =>
      refine ih next next' follows (fun v member => arePostfix v (List.mem_cons_of_mem q member))
        fun _ => ?_
      rw [mode, Mode.after, isPostfix]
      rfl
    | accepted => exact .none
    | failed => exact .none

/-- Read as postfix operators, a marker run takes both fallbacks along and ends inside an item. -/
theorem FollowsPending.offerAll
    (p p' : Pending Env)
    (follows : FollowsPending goal comments p p') :
    Option.Rel (fun next next' => Follows goal comments next next' ∧ next'.stack.mode = .inside)
      ((driver h).automaton.offerAll p.fallback (markerTokens p.count p.position))
      ((driver h).automaton.offerAll p'.fallback (markerTokens p'.count p'.position)) := by
  have nonempty : markerTokens p.count p.position ≠ [] := by
    rw [← List.length_pos_iff, length_markerTokens]
    exact follows.positive
  rw [follows.count, follows.position]
  exact follows.fallback.offerAll goal comments isFile p.fallback p'.fallback
    (markerTokens p.count p.position) (tag_of_mem_markerTokens p.count p.position)
    (fun empty => absurd empty nonempty)

theorem FollowsPending.reread
    (p p' : Pending Env)
    (ds ds' : Docstrings)
    (t : Token)
    (follows : FollowsPending goal comments p p')
    (other : t.tag ≠ .text .docString) :
    Option.Rel (Agree goal t comments ds') ((driver h).reread p ds t)
      ((driver h).reread p' ds' t) := by
  have replayed := follows.offerAll h goal comments isFile p p'
  unfold Driver.reread
  generalize (driver h).automaton.offerAll p.fallback _ = x at replayed ⊢
  generalize (driver h).automaton.offerAll p'.fallback _ = x' at replayed ⊢
  cases replayed with
  | none => exact .none
  | some both =>
    obtain ⟨follows, mode⟩ := both
    exact (follows.read h goal comments isFile _ _ ds ds' t other
      (fun waiting => by rw [mode] at waiting; cases waiting)).notError? goal t comments ds' _ _

theorem Abreast.step
    (s s' : State Env)
    (t : Token)
    (abreast : Abreast goal comments s s')
    (other : t.tag ≠ .text .docString)
    (waiting : s'.env.stack.mode = .waiting → endsItem t.tag = false) :
    Agree goal t comments s'.docstrings ((driver h).step s t) ((driver h).step s' t) := by
  have first := abreast.env.read h goal comments isFile s.env s'.env s.docstrings s'.docstrings t
    other waiting
  refine first.orElse goal t comments s'.docstrings _ _ _ _ ?_
  have pending := abreast.pending
  generalize s.pending = p, s'.pending = p' at pending
  cases pending with
  | none => exact .none
  | some follows => exact follows.reread h goal comments isFile _ _ _ _ t other

theorem Abreast.stepAll
    (s s' : State Env)
    (u : Token)
    (us : List Token)
    (abreast : Abreast goal comments s s')
    (notWaiting : s'.env.stack.mode ≠ .waiting)
    (others : ∀ v ∈ u :: us, v.tag ≠ .text .docString) :
    Option.Rel (Agree goal ((u :: us).getLast (List.cons_ne_nil u us)) comments s'.docstrings)
      ((driver h).stepAll s (u :: us)) ((driver h).stepAll s' (u :: us)) := by
  induction us generalizing s s' u with
  | nil =>
    have first := abreast.step h goal comments isFile s s' u (others u (List.mem_cons_self ..))
      (fun waiting => absurd waiting notWaiting)
    unfold Driver.stepAll
    generalize (driver h).step s u = o, (driver h).step s' u = o' at first
    cases first with
    | intermediate next next' abreast mode kept =>
      exact .some (.intermediate next next' abreast mode kept)
    | success p p' erased attached kept ends =>
      exact .some (.success p p' erased attached kept ends)
    | error => exact .none
  | cons v us ih =>
    have first := abreast.step h goal comments isFile s s' u (others u (List.mem_cons_self ..))
      (fun waiting => absurd waiting notWaiting)
    unfold Driver.stepAll
    generalize (driver h).step s u = o, (driver h).step s' u = o' at first
    cases first with
    | intermediate next next' abreast mode kept =>
      rw [List.getLast_cons (List.cons_ne_nil v us), ← kept]
      exact ih next next' v abreast (mode ▸ Mode.after_ne_waiting u)
        fun w member => others w (List.mem_cons_of_mem u member)
    | success => exact .none
    | error => exact .none

end Steps

end TolerantParser.Mini
