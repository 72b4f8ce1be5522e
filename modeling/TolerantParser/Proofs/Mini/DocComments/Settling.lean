import TolerantParser.Proofs.Mini.Agreement
import TolerantParser.Proofs.Mini.DocComments.Decisions

/-! # Settling without doc comments

`Follows` relates an environment to one with doc comments.  A token that is no doc comment takes
both along (`Follows.offerSettled`), unless a doc comment waits on top and the token ends items.  A
doc comment is taken up where an item can begin and refused everywhere else. -/

set_option autoImplicit false

namespace TolerantParser.Mini

/-- Where a parse of a file stands: an item can begin, or a doc comment waits for one, or one has
been begun. -/
inductive Mode
  | fresh
  | waiting
  | inside
deriving DecidableEq

def Mode.ofMarks : List Mark → Mode
  | .items true :: _ => .fresh
  | .token (.reserved .semi) :: _ => .fresh
  | .token (.text .docString) :: _ => .waiting
  | _ => .inside

def Stack.mode (s : Stack) : Mode := .ofMarks s.marks

theorem mode_token
    (t : Token)
    (s : Stack) :
    Stack.mode (.token t :: s)
      = if t.tag = .reserved .semi then .fresh
        else if t.tag = .text .docString then .waiting
        else .inside := by
  by_cases parts : t.tag = .reserved .semi
  · simp [Stack.mode, Mode.ofMarks, parts]
  · by_cases documents : t.tag = .text .docString
    · simp [Stack.mode, Mode.ofMarks, documents]
    · rw [if_neg parts, if_neg documents]
      unfold Stack.mode Mode.ofMarks
      split <;> simp_all

def Mode.after (t : Token) : Mode := if t.tag = .reserved .semi then .fresh else .inside

theorem Mode.after_ne_waiting (t : Token) : Mode.after t ≠ .waiting := by
  unfold after
  split <;> nofun

theorem mode_token_of_ne
    (t : Token)
    (s : Stack)
    (other : t.tag ≠ .text .docString) :
    Stack.mode (.token t :: s) = .after t := by
  rw [mode_token, if_neg other, Mode.after]

theorem docString_of_waiting
    (s : Stack)
    (waiting : s.mode = .waiting) :
    ∃ doc rest, s = .token doc :: rest ∧ doc.tag = .text .docString := by
  cases s with
  | nil => cases waiting
  | cons x s =>
    cases x with
    | token u =>
      rw [mode_token] at waiting
      split at waiting
      · cases waiting
      · split at waiting
        · next documents => exact ⟨u, s, rfl, documents⟩
        · cases waiting
    | items is isOpen => cases isOpen <;> cases waiting
    | expr | args | type | item => cases waiting

theorem begins_of_fresh
    (s : Stack)
    (fresh : s.mode = .fresh) :
    (∃ u rest, s = .token u :: rest ∧ u.tag = .reserved .semi)
      ∨ ∃ is rest, s = .items is true :: rest := by
  cases s with
  | nil => cases fresh
  | cons x s =>
    cases x with
    | token u =>
      rw [mode_token] at fresh
      split at fresh
      · next parts => exact .inl ⟨u, s, rfl, parts⟩
      · split at fresh <;> cases fresh
    | items is isOpen =>
      cases isOpen with
      | true => exact .inr ⟨is, s, rfl⟩
      | false => cases fresh
    | expr | args | type | item => cases fresh

section Rewriting
variable (r : Reduction) (s s' : Stack)

theorem Rewrites.mode_eq
    (rewrites : Rewrites r s s') :
    s'.mode = if r = .closeItem then .fresh else .inside := by
  have onArgs : ∀ arg s s', Joins arg s s' → s'.mode = .inside := by
    intro arg s s' joins
    cases joins <;> rfl
  cases rewrites with
  | argument e s s' joins => exact onArgs _ _ _ joins
  | punnedLabel tilde label name s s' _ _ joins => exact onArgs _ _ _ joins
  | labeledArgument tilde label equal name e s s' _ _ _ joins => exact onArgs _ _ _ joins
  | optionalArgument tilde label equal question name e s s' _ _ _ _ joins =>
    exact onArgs _ _ _ joins
  | _ => rfl

theorem Rewrites.mode_of_closeItem
    (rewrites : Rewrites .closeItem s s') :
    s.mode = .fresh := by
  cases rewrites with
  | closeItem semi is isOpen s parts => rw [mode_token, if_pos parts]

theorem Rewrites.mode_of_inside
    (rewrites : Rewrites r s s')
    (inside : s.mode = .inside) :
    s'.mode = .inside := by
  rw [rewrites.mode_eq, if_neg]
  rintro rfl
  rw [rewrites.mode_of_closeItem] at inside
  cases inside

end Rewriting

section Settling
variable (goal : Goal) (s : Stack) (t : Token)

/-- A stack on the way to taking up `t`: without its doc comments it ends where `goes` says. -/
structure OnTheWay (goal : Goal) (t : Token) (comments : List String) (goes : Settled Env Tree)
    (s : Stack) : Prop where
  viable : Viable goal s
  bare : s.IsBare
  kept : s.comments = comments
  waiting : s.mode = .waiting → endsItem t.tag = false
  settled_eq : settled goal s.undocumented t = goes

section OnTheWay
variable (comments : List String) (goes : Settled Env Tree) (isFile : goal.isFile = true)
  (onTheWay : OnTheWay goal t comments goes s)
include isFile onTheWay

theorem OnTheWay.nextAction_eq
    (notDoc : nextAction goal t.tag s.marks ≠ .reduce .docItem) :
    nextAction goal t.tag s.undocumented.marks = nextAction goal t.tag s.marks := by
  refine onTheWay.viable.nextAction_undocumented goal s t.tag isFile ?_ ?_
  · rintro doc rest rfl documents
    exact onTheWay.waiting (by rw [mode_token, documents]; rfl)
  · rintro i doc rest rfl documents
    apply notDoc
    simp only [marks_cons, mark_item, mark_token, documents, nextAction, onItem]

theorem OnTheWay.reduce
    (r : Reduction)
    (s' : Stack)
    (next : nextAction goal t.tag s.marks = .reduce r)
    (applied : r.apply s = some s') :
    OnTheWay goal t comments goes s' := by
  obtain ⟨rewrites, viable⟩ := onTheWay.viable.rewrites_of_apply goal s t r s' next applied
  refine ⟨viable, rewrites.isBare r s s' onTheWay.bare,
    (rewrites.comments_eq r s s').trans onTheWay.kept, ?_, ?_⟩
  · rw [rewrites.mode_eq]
    split <;> nofun
  · rw [← onTheWay.settled_eq]
    by_cases isDoc : r = .docItem
    · subst isDoc
      rw [rewrites.undocumented_of_docItem]
    · have next' := onTheWay.nextAction_eq goal s t comments goes isFile
        (by rw [next]; simpa using isDoc)
      have rewrites' := rewrites.undocumented r s s' onTheWay.bare isDoc
      exact (settled_of_reduce goal _ _ t r (next'.trans next) (rewrites'.apply_eq r _ _)).symm

end OnTheWay

theorem acceptedValue?_of_isFile
    (v : Tree)
    (isFile : goal.isFile = true)
    (complete : acceptedValue? goal s = some v) :
    acceptedValue? goal s.undocumented = some v.eraseDocs ∧ v.comments = s.comments := by
  unfold acceptedValue? at complete
  split at complete <;> cases complete
  case h_1.refl | h_2.refl | h_3.refl => exact ⟨rfl, rfl⟩
  case h_4.refl | h_5.refl | h_6.refl => cases isFile

/-- `env'` has the doc comments, and `env` goes on like it would without them. -/
structure Follows (goal : Goal) (comments : List String) (env env' : Env) : Prop where
  goal_eq : env.goal = goal
  goal_eq' : env'.goal = goal
  viable : Viable goal env'.stack
  bare : env'.stack.IsBare
  comments_eq : env'.stack.comments = comments
  settled_eq : ∀ t, settled goal env.stack t = settled goal env'.stack.undocumented t

inductive Mirrored (goal : Goal) (t : Token) (comments : List String) :
    Settled Env Tree → Settled Env Tree → Prop
  | needsInput (env env' : Env)
      (follows : Follows goal comments env env')
      (mode : env'.stack.mode = .after t) :
      Mirrored goal t comments (.needsInput env) (.needsInput env')
  | accepted (v v' : Tree)
      (erased : v'.eraseDocs = v)
      (attached : v'.comments = comments)
      (ends : t.tag = .eof) :
      Mirrored goal t comments (.accepted v) (.accepted v')
  | failed (b b' : Breakdown Env) : Mirrored goal t comments (.failed b) (.failed b')

/-- A token takes both environments along, unless a doc comment waits for an item in the second one
and the token ends items. -/
theorem Follows.offerSettled
    (comments : List String)
    (env env' : Env)
    (isFile : goal.isFile = true)
    (follows : Follows goal comments env env')
    (other : t.tag ≠ .text .docString)
    (waiting : env'.stack.mode = .waiting → endsItem t.tag = false) :
    Mirrored goal t comments (automaton.offerSettled env t) (automaton.offerSettled env' t) := by
  -- `f` is where the reductions before `t` end; the one that puts a doc comment on its item
  -- disappears without the doc comments, and every other one is the same
  obtain ⟨f, onTheWay, same, irreducible⟩ :=
    exists_irreducible goal t
      (OnTheWay goal t comments (settled goal env'.stack.undocumented t))
      (fun s r s' onTheWay => onTheWay.reduce goal s t _ _ isFile r s') env'.stack
      ⟨follows.viable, follows.bare, follows.comments_eq, waiting, rfl⟩
  have noReduce := fun r => onTheWay.viable.ne_reduce_of_irreducible goal f t r irreducible
  have next' := onTheWay.nextAction_eq goal f t _ _ isFile (noReduce .docItem)
  rw [offerSettled_eq, offerSettled_eq, follows.goal_eq, follows.goal_eq', same,
    follows.settled_eq, ← onTheWay.settled_eq]
  cases next : nextAction goal t.tag f.marks with
  | shift =>
    rw [settled_of_shift goal f t next, settled_of_shift goal _ t (next'.trans next)]
    refine .needsInput _ _ ⟨rfl, rfl, onTheWay.viable.shift goal f t next, ?_, ?_, ?_⟩
      (mode_token_of_ne t f other)
    · exact (Stack.isBare_cons _ f).mpr ⟨trivial, onTheWay.bare⟩
    · exact (comments_token f t other).trans onTheWay.kept
    · intro u
      rw [undocumented_token f t other]
  | reduce r => exact absurd next (noReduce r)
  | accept =>
    obtain ⟨⟨v, complete⟩, ends⟩ := onTheWay.viable.accept goal f t next
    obtain ⟨complete', kept⟩ := acceptedValue?_of_isFile goal f v isFile complete
    rw [settled_of_accept goal f t v next complete,
      settled_of_accept goal _ t _ (next'.trans next) complete']
    refine .accepted _ v rfl (kept.trans onTheWay.kept) ?_
    rcases ends with ends | ⟨phrase, _⟩
    · exact ends
    · rw [phrase] at isFile
      cases isFile
  | error =>
    rw [settled_of_error goal f t next, settled_of_error goal _ t (next'.trans next)]
    exact .failed _ _

/-! ## Doc comments -/

theorem onToken_docString_ne_shift
    (top : Tag)
    (ms : List Mark)
    (other : top ≠ .text .docString) :
    onToken goal (.text .docString) top ms ≠ .shift := by
  cases top with
  | text c =>
    cases c with
    | lowerIdent =>
      simp only [onToken, onLowerIdent]
      repeat' split
      all_goals simp_all [Action.reduceIf_ne_shift, Action.shiftIf]
    | upperIdent =>
      simp only [onToken, onUpperIdent]
      repeat' split
      all_goals simp [Action.reduceIf_ne_shift]
    | docString => exact absurd rfl other
    | int | postfixOp => simp [onToken]
    | infixOp0 | infixOp1 => simp [onToken, Action.shiftIf, startsOperand, isUnaryOp]
  | reserved r =>
    cases r with
    | lparen =>
      simp only [onToken, onLParen]
      split <;> simp [Action.shiftIf, startsOperand, isUnaryOp]
    | rparen =>
      simp only [onToken, onRParen]
      split <;> simp
    | semi =>
      simp only [onToken, onSemi]
      split <;> simp
    | _ => simp [onToken, Action.shiftIf, startsArg, startsType, startsOperand, isUnaryOp]
  | eof => simp [onToken, Action.shiftIf, isUnaryOp]

theorem mode_ne_inside_of_shift
    (isFile : goal.isFile = true)
    (next : nextAction goal (.text .docString) s.marks = .shift) :
    s.mode ≠ .inside := by
  cases s with
  | nil => cases goal <;> simp_all [Goal.isFile, nextAction, onEmpty]
  | cons x s =>
    cases x with
    | token u =>
      by_cases documents : u.tag = .text .docString
      · rw [mode_token, documents]
        simp
      · exact absurd next (onToken_docString_ne_shift goal u.tag _ documents)
    | expr e =>
      rcases shift_of_onExpr goal _ _ next with other | ⟨p, other⟩ | ⟨other, _⟩ <;> cases other
    | args as =>
      simp [nextAction, onArgs, Action.shiftIf, startsArg, startsOperand, isUnaryOp] at next
    | type ty => cases shift_of_onType goal _ _ next
    | item i =>
      simp only [marks_cons, mark_item, nextAction, onItem] at next
      split at next <;> simp [endsItem] at next
    | items is isOpen =>
      cases isOpen with
      | true => simp [Stack.mode, Mode.ofMarks]
      | false => cases next

theorem settled_docString_of_inside
    (isFile : goal.isFile = true)
    (viable : Viable goal s)
    (inside : s.mode = .inside)
    (documents : t.tag = .text .docString) :
    ∃ b, settled goal s t = .failed b := by
  have preserved : ∀ s₁ r s₂, Viable goal s₁ ∧ s₁.mode = .inside →
      nextAction goal t.tag s₁.marks = .reduce r → r.apply s₁ = some s₂ →
      Viable goal s₂ ∧ s₂.mode = .inside := by
    rintro s₁ r s₂ ⟨viable, inside⟩ next applied
    obtain ⟨rewrites, viable'⟩ := viable.rewrites_of_apply goal s₁ t r s₂ next applied
    exact ⟨viable', rewrites.mode_of_inside r s₁ s₂ inside⟩
  obtain ⟨f, ⟨viable', inside'⟩, same, irreducible⟩ :=
    exists_irreducible goal t _ preserved s ⟨viable, inside⟩
  rw [same]
  cases next : nextAction goal t.tag f.marks with
  | shift =>
    rw [documents] at next
    exact absurd inside' (mode_ne_inside_of_shift goal f isFile next)
  | reduce r => exact absurd next (viable'.ne_reduce_of_irreducible goal f t r irreducible)
  | accept =>
    have ends := (viable'.accept goal f t next).2
    rw [documents] at ends
    rcases ends with ends | ⟨_, ends⟩ <;> cases ends
  | error => exact ⟨_, settled_of_error goal f t next⟩

theorem settled_docString_of_begins
    (viable : Viable goal s)
    (bare : s.IsBare)
    (begins : s.mode ≠ .inside)
    (documents : t.tag = .text .docString) :
    ∃ s' : Stack, settled goal s t = .needsInput ⟨goal, .token t :: s', none⟩
      ∧ Viable goal (.token t :: s') ∧ s'.IsBare ∧ s'.comments = s.comments
      ∧ ∀ u, settled goal s'.undocumented u = settled goal s.undocumented u := by
  by_cases separates : ∃ u rest, s = .token u :: rest ∧ u.tag = .reserved .semi
  · obtain ⟨u, rest, rfl, parts⟩ := separates
    obtain ⟨isFile, is, isOpen, rfl⟩ := viable.items_of_semi goal rest u parts
    have closes : ∀ v : Token, ∀ is, nextAction goal v.tag
        (Stack.marks [.token u, .items is isOpen]) = .reduce .closeItem := by
      intro v is
      rw [marks_cons, mark_token, parts]
      rfl
    have shifts : nextAction goal t.tag (Stack.marks [.items is true]) = .shift := by
      rw [documents]
      rfl
    refine ⟨[.items is true], ?_, ?_, ?_, ?_, ?_⟩
    · rw [settled_of_reduce goal _ _ t .closeItem (closes t is) rfl]
      exact settled_of_shift goal _ t shifts
    · exact (Viable.items is true isFile).shift goal _ t shifts
    · simp [Stack.IsBare, Symbol.IsBare]
    · rw [comments_token _ u (by simp [parts])]
      rfl
    · intro v
      rw [undocumented_token _ u (by simp [parts])]
      exact (settled_of_reduce goal _ _ v .closeItem (closes v _) rfl).symm
  · have shifts : nextAction goal t.tag s.marks = .shift := by
      cases mode : s.mode with
      | fresh =>
        rcases begins_of_fresh s mode with separated | ⟨is, rest, rfl⟩
        · exact absurd separated separates
        · rw [documents]
          rfl
      | waiting =>
        obtain ⟨u, rest, rfl, isDoc⟩ := docString_of_waiting s mode
        rw [marks_cons, mark_token, isDoc, documents]
        rfl
      | inside => exact absurd mode begins
    exact ⟨s, settled_of_shift goal s t shifts, viable.shift goal s t shifts, bare, rfl,
      fun _ => rfl⟩

theorem settled_of_waiting
    (waiting : s.mode = .waiting)
    (ends : endsItem t.tag = true) :
    settled goal s t = .failed (.handlingError ⟨goal, s, some t⟩) := by
  obtain ⟨doc, rest, rfl, documents⟩ := docString_of_waiting s waiting
  have all : ∀ la ∈ Tag.all, endsItem la = true → startsItem goal la = false := by
    cases goal <;> decide
  apply settled_of_error
  simp only [marks_cons, mark_token, documents, nextAction, onToken,
    all t.tag t.tag.mem_all ends, Action.shiftIf, Bool.false_eq_true, if_false]

end Settling

end TolerantParser.Mini
