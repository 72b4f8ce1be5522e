import TolerantParser.Proofs.Mini.Agreement
import TolerantParser.Remedy

/-! # Separators and the tokens behind them

A separator is taken up above the items of a file, after everything on the stack has become an item.
A token that opens the next item, offered in its place, makes for the same reductions, one by one,
or it is refused (`nextAction_accords`).  So it ends where the separator would have led it, or the
parse goes no further without a remedy (`Viable.settled_separator`). -/

set_option autoImplicit false

namespace TolerantParser.Mini

/-- If the first action is a reduction, the second one is the same or an error. -/
def Accords (a b : Action) : Prop := ∀ r, a = .reduce r → b = .reduce r ∨ b = .error

def opensItem : Tag → Bool
  | .reserved .kwLet => true
  | .reserved .kwOpen => true
  | .text .lowerIdent => true
  | .text .upperIdent => true
  | _ => false

section Decisions
variable (goal : Goal) (la : Tag) (below : List Mark) (opens : opensItem la = true)

theorem Accords.refl (a : Action) : Accords a a := fun _ next => .inl next

theorem Accords.of_ne_reduce
    (a b : Action)
    (other : ∀ r, a ≠ .reduce r) :
    Accords a b :=
  fun r next => absurd next (other r)

theorem Accords.of_error (a : Action) : Accords a .error := fun _ _ => .inr rfl

theorem onItem_accords :
    Accords (onItem (.reserved .semi) below) (onItem la below) := by
  unfold onItem
  split
  · exact .refl _
  · exact .refl _
  · exact .of_ne_reduce _ _ (by simp [endsItem])
  · exact .refl _

include opens

theorem facts_of_opensItem :
    endsItem la = false ∧ endsArg la = false ∧ binding? la = none ∧ la ≠ .text .postfixOp
      ∧ la ≠ .reserved .lparen ∧ la ≠ .eof := by
  have all : ∀ t ∈ Tag.all, opensItem t = true → endsItem t = false ∧ endsArg t = false
      ∧ binding? t = none ∧ t ≠ .text .postfixOp ∧ t ≠ .reserved .lparen ∧ t ≠ .eof := by decide
  exact all la la.mem_all opens

theorem name_of_opensItem
    (operand : startsOperand la = true) :
    la = .text .lowerIdent ∨ la = .text .upperIdent := by
  have all : ∀ t ∈ Tag.all, opensItem t = true → startsOperand t = true →
      t = .text .lowerIdent ∨ t = .text .upperIdent := by decide
  exact all la la.mem_all opens operand

theorem onLowerIdent_accords :
    Accords (onLowerIdent goal (.reserved .semi) below) (onLowerIdent goal la below) := by
  obtain ⟨_, _, _, _, noParen, _⟩ := facts_of_opensItem la opens
  unfold onLowerIdent
  split
  · exact .of_ne_reduce _ _ (by simp [Action.reduceIf, endsArg])
  · exact .of_ne_reduce _ _ (Action.shiftIf_ne_reduce _)
  · exact .refl _
  · simp only [noParen, if_false, reduceCtorEq, Tag.reserved.injEq]
    exact .refl _

theorem onUpperIdent_accords :
    Accords (onUpperIdent goal (.reserved .semi) below) (onUpperIdent goal la below) := by
  obtain ⟨noEnd, _⟩ := facts_of_opensItem la opens
  unfold onUpperIdent
  split
  · rw [noEnd]
    exact .of_error _
  · exact .refl _

theorem onToken_accords
    (top : Tag) :
    Accords (onToken goal (.reserved .semi) top below) (onToken goal la top below) := by
  unfold onToken
  split
  case h_2 => exact onLowerIdent_accords goal la below opens
  case h_3 => exact onUpperIdent_accords goal la below opens
  case h_8 =>
    unfold onLParen
    split
    · exact .refl _
    · exact .of_ne_reduce _ _ (Action.shiftIf_ne_reduce _)
  all_goals
    first
      | exact .refl _
      | exact .of_ne_reduce _ _ (Action.shiftIf_ne_reduce _)

theorem closeExpr_of_opensItem :
    closeExpr goal la below = .error := by
  obtain ⟨noEnd, noArgEnd, _, _, _, noEof⟩ := facts_of_opensItem la opens
  have noClose : la ≠ .reserved .rparen := by
    rintro rfl
    cases opens
  unfold closeExpr
  split <;> simp [noEnd, noArgEnd, noEof, noClose, Action.reduceIf, Action.shiftIf]

theorem operatorBelow_of_opensItem :
    operatorBelow la below = operatorBelow (.reserved .semi) below := by
  have unbound := (facts_of_opensItem la opens).2.2.1
  have unbound' : binding? (.reserved .semi) = none := rfl
  unfold operatorBelow
  simp only [unbound, unbound']

theorem onExpr_accords :
    Accords (onExpr goal (.reserved .semi) below) (onExpr goal la below) := by
  obtain ⟨_, _, unbound, noPostfix, _⟩ := facts_of_opensItem la opens
  simp only [onExpr, if_neg noPostfix, operatorBelow_of_opensItem la below opens, unbound,
    closeExpr_of_opensItem goal la below opens, reduceCtorEq, if_false]
  cases operatorBelow (.reserved .semi) below with
  | some action => exact .refl _
  | none => exact .of_error _

theorem onType_accords
    (notName : la ≠ .text .lowerIdent) :
    Accords (onType goal (.reserved .semi) below) (onType goal la below) := by
  obtain ⟨noEnd, _, _, _, _, noEof⟩ := facts_of_opensItem la opens
  have refused : onType goal la below = .error := by
    unfold onType
    split
    · exact absurd rfl notName
    · exact absurd rfl noEof
    · simp [noEnd, Action.reduceIf]
    · rfl
  rw [refused]
  exact .of_error _

theorem onItems_closed : onItems goal la false = .error := by
  unfold onItems
  split
  · cases opens
  · cases opens
  · rfl

/-- Where a separator makes for a reduction, so does a token that opens an item, or it is refused.
Only a name above a type is something else, a type application. -/
theorem nextAction_accords
    (ms : List Mark)
    (notApplied : la = .text .lowerIdent → ms.head? ≠ some .type) :
    Accords (nextAction goal (.reserved .semi) ms) (nextAction goal la ms) := by
  cases ms with
  | nil => cases goal <;> exact Accords.of_ne_reduce _ _ nofun
  | cons top below =>
    cases top with
    | token top => exact onToken_accords goal la below opens top
    | expr => exact onExpr_accords goal la below opens
    | args isEmpty => exact .of_ne_reduce _ _ (Action.shiftIf_ne_reduce _)
    | type => exact onType_accords goal la below opens fun isName => notApplied isName rfl
    | item => exact onItem_accords la below
    | items isOpen => exact .of_ne_reduce _ _ nofun

end Decisions

/-! ## What a separator leads to -/

section Separators
variable (goal : Goal) (s : Stack) (z t : Token)

theorem Viable.interface_of_type
    (r : Reduction)
    (viable : Viable goal s)
    (onType : s.marks.head? = some .type)
    (next : nextAction goal (.reserved .semi) s.marks = .reduce r) :
    goal = .interface := by
  cases viable with
  | type ty s place =>
    cases place with
    | coreType single => cases next
    | declared kwLet label colon s outer types => exact types
  | begins c s place =>
    cases s with
    | nil => cases onType
    | cons x s => exact absurd (Option.some.inj onType) (place.top_ne goal s c x).2.1
  | _ => cases onType

theorem settled_on_separator
    (is : List Tree)
    (isOpen : Bool)
    (isSemi : z.tag = .reserved .semi) :
    settled goal [.token z, .items is isOpen] t = settled goal [.items is true] t := by
  refine settled_of_reduce goal _ _ t .closeItem ?_ rfl
  simp [isSemi, nextAction, onToken, onSemi]

/-- Separators that are offered on `s` come by `s'`, and so does `t`, unless it is refused. -/
structure ComesBy (s' : Stack) : Prop where
  viable : Viable goal s'
  separators : ∀ z : Token, z.tag = .reserved .semi → settled goal s z = settled goal s' z
  token : (∃ b, settled goal s t = .failed b) ∨ settled goal s t = settled goal s' t

theorem ComesBy.reduce
    (opens : opensItem t.tag = true)
    (values : t.tag = .text .lowerIdent → goal ≠ .interface)
    (isSemi : z.tag = .reserved .semi)
    (s' s'' : Stack)
    (r : Reduction)
    (comesBy : ComesBy goal s t s')
    (next : nextAction goal z.tag s'.marks = .reduce r)
    (applied : r.apply s' = some s'') :
    ComesBy goal s t s'' where
  viable := (comesBy.viable.rewrites_of_apply goal s' z r s'' next applied).2
  separators := by
    intro z' isSemi'
    rw [comesBy.separators z' isSemi']
    exact settled_of_reduce goal s' s'' z' r (by rw [isSemi', ← isSemi, next]) applied
  token := by
    rcases comesBy.token with failed | same
    · exact .inl failed
    rw [isSemi] at next
    have notApplied : t.tag = .text .lowerIdent → s'.marks.head? ≠ some .type :=
      fun isName onType => values isName (comesBy.viable.interface_of_type goal s' r onType next)
    rcases nextAction_accords goal t.tag opens s'.marks notApplied r next with next' | next'
    · exact .inr (same.trans (settled_of_reduce goal s' s'' t r next' applied))
    · exact .inl ⟨_, same.trans (settled_of_error goal s' t next')⟩

theorem Viable.items_of_separator
    (env : Env)
    (viable : Viable goal s)
    (isSemi : z.tag = .reserved .semi)
    (arrived : settled goal s z = .needsInput env) :
    ∃ is isOpen, env = ⟨goal, [.token z, .items is isOpen], none⟩ := by
  obtain ⟨s', viable', next, rfl⟩ := exists_shift_of_needsInput goal z (Viable goal)
    (fun s' r s'' viable next applied =>
      (viable.rewrites_of_apply goal s' z r s'' next applied).2) s viable env arrived
  obtain ⟨_, is, isOpen, rfl⟩ := (viable'.shift goal s' z next).items_of_semi goal s' z isSemi
  exact ⟨is, isOpen, rfl⟩

/-- Where one separator is taken up, so is every other.  A token that opens an item and gets past
the same stack by itself is taken up as it would be behind the separator. -/
theorem Viable.settled_separator
    (is : List Tree)
    (isOpen : Bool)
    (viable : Viable goal s)
    (isSemi : z.tag = .reserved .semi)
    (opens : opensItem t.tag = true)
    (values : t.tag = .text .lowerIdent → goal ≠ .interface)
    (arrived : settled goal s z = .needsInput ⟨goal, [.token z, .items is isOpen], none⟩) :
    (∀ z' : Token, z'.tag = .reserved .semi →
        settled goal s z' = .needsInput ⟨goal, [.token z', .items is isOpen], none⟩)
      ∧ ((∃ b, settled goal s t = .failed b)
        ∨ settled goal s t = settled goal [.items is true] t) := by
  obtain ⟨s', comesBy, next, standing⟩ := exists_shift_of_needsInput goal z (ComesBy goal s t)
    (fun s' r s'' => ComesBy.reduce goal s z t opens values isSemi s' s'' r) s
    ⟨viable, fun _ _ => rfl, .inr rfl⟩ _ arrived
  cases standing
  refine ⟨fun z' isSemi' => ?_, ?_⟩
  · rw [comesBy.separators z' isSemi']
    exact settled_of_shift goal _ z' (by rw [isSemi', ← isSemi, next])
  · rcases comesBy.token with failed | same
    · exact .inl failed
    cases isOpen with
    | true => exact .inr same
    | false =>
      exact .inl ⟨_, same.trans (settled_of_error goal _ t (onItems_closed goal t.tag opens))⟩

theorem opensItem_of_starter
    (is : List Tree)
    (starts : starters.contains t.tag = true)
    (noDoc : t.tag ≠ .text .docString)
    (taken : ∀ b, settled goal [.items is true] t ≠ .failed b) :
    opensItem t.tag = true ∧ (t.tag = .text .lowerIdent → goal ≠ .interface) := by
  have decided : nextAction goal t.tag (Stack.marks [.items is true])
      = .shiftIf (startsItem goal t.tag) := by
    simp only [marks_cons, mark_items, nextAction, onItems]
    split
    · next ends =>
      rw [ends] at starts
      exact absurd starts (by decide)
    · next ends =>
      rw [ends] at starts
      exact absurd starts (by decide)
    · rfl
  cases begins : startsItem goal t.tag with
  | false =>
    rw [begins] at decided
    exact absurd (settled_of_error goal _ t decided) (taken _)
  | true =>
    have all : ∀ la ∈ Tag.all, startsItem goal la = true → starters.contains la = true →
        la ≠ .text .docString →
        opensItem la = true ∧ (la = .text .lowerIdent → goal ≠ .interface) := by
      cases goal <;> decide
    exact all t.tag t.tag.mem_all begins starts noDoc

end Separators

end TolerantParser.Mini
