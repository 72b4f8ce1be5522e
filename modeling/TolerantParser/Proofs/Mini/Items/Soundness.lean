import TolerantParser.Proofs.Mini.Agreement
import TolerantParser.Proofs.Mini.Expression.Soundness
import TolerantParser.Proofs.Mini.Items.Grammar

/-! # Nothing but items and files is read

As with expressions, every phrase on a stack that a run comes by is derived by the tokens that were
read for it.  `ItemReached` describes the stacks above the place of an item, with the expression or
the type that is being read on top, and `FileReached` those of a file.  Reductions keep the tokens
and taking up a token appends it, so what a run accepts is derived by its tokens
(`exists_fileYields_of_run`, `itemYields_of_run`). -/

set_option autoImplicit false

namespace TolerantParser.Mini

theorem Begins.ne_reduce
    (goal : Goal)
    (c : Category)
    (s : Stack)
    (la : Tag)
    (r : Reduction)
    (place : Begins goal c s) :
    nextAction goal la s.marks ≠ .reduce r := by
  intro next
  obtain ⟨t, rfl⟩ := exists_token_of_tag la
  rcases place.nextAction_cases goal s t c with ⟨b, decided, _⟩ | ⟨decided, _⟩
  · exact Action.shiftIf_ne_reduce b r (decided.symm.trans next)
  · rw [decided] at next
    cases next

/-! ## Types -/

inductive TypeReached (base : Stack) : Stack → List Token → Prop
  | awaiting : TypeReached base base []
  | name (t : Token) (c : TextClass) (name : String)
      (names : t.kind = .text c name)
      (isName : c = .lowerIdent ∨ c = .upperIdent) :
      TypeReached base (.token t :: base) [t]
  | type (ty : Tree) (us : List Token)
      (yields : TypeYields ty us) :
      TypeReached base (.type ty :: base) us
  | application (t : Token) (name : String) (ty : Tree) (us : List Token)
      (inner : TypeYields ty us)
      (names : t.kind = .text .lowerIdent name) :
      TypeReached base (.token t :: .type ty :: base) (us ++ [t])

section Types
variable (goal : Goal) (base : Stack)

theorem TypeReached.reduce
    (place : Begins goal .type base)
    (la : Tag)
    (s s' : Stack)
    (us : List Token)
    (r : Reduction)
    (reached : TypeReached base s us)
    (next : nextAction goal la s.marks = .reduce r)
    (applied : r.apply s = some s') :
    TypeReached base s' us ∨ ∃ ty, s = .type ty :: base ∧ TypeYields ty us := by
  cases reached with
  | awaiting => exact absurd next (place.ne_reduce goal _ base la r)
  | name t c name names isName =>
    have tagged := tag_of_name t c name names isName
    rw [place.nextAction_name goal base la t tagged, Action.reduce.injEq] at next
    subst next
    simp only [Reduction.apply, names, Kind.text?, Option.map_some, Option.some.injEq] at applied
    subst applied
    exact .inl (.type _ _ (.name t c name names isName))
  | type ty us yields => exact .inr ⟨ty, rfl, yields⟩
  | application t name ty us inner names =>
    simp only [marks_cons, mark_token, mark_type, tag_of_kind t _ names, Kind.tag_text, nextAction,
      onToken, onLowerIdent, Action.reduce.injEq] at next
    subst next
    simp only [Reduction.apply, names, Kind.text?, Option.map_some, Option.some.injEq] at applied
    subst applied
    exact .inl (.type _ _ (.application t name ty us inner names))

theorem TypeReached.shift
    (place : Begins goal .type base)
    (t : Token)
    (s : Stack)
    (us : List Token)
    (reached : TypeReached base s us)
    (next : nextAction goal t.tag s.marks = .shift) :
    TypeReached base (.token t :: s) (us ++ [t]) := by
  cases reached with
  | awaiting =>
    rw [place.nextAction_type goal base t.tag, Action.shiftIf_eq_shift_iff] at next
    have all : ∀ t ∈ Tag.all, startsType t = true →
        t = .text .lowerIdent ∨ t = .text .upperIdent := by decide
    rcases all t.tag t.tag.mem_all next with isName | isName
    · obtain ⟨name, names⟩ := exists_kind_of_tag t _ isName
      exact .name t _ name names (.inl rfl)
    · obtain ⟨name, names⟩ := exists_kind_of_tag t _ isName
      exact .name t _ name names (.inr rfl)
  | name u c name names isName =>
    have tagged := tag_of_name u c name names isName
    rw [place.nextAction_name goal base t.tag u tagged] at next
    cases next
  | type ty us yields =>
    obtain ⟨name, names⟩ := exists_kind_of_tag t _ (shift_of_onType goal t.tag _ next)
    exact .application t name ty us yields names
  | application u name ty us inner names =>
    simp [tag_of_kind u _ names, nextAction, onToken, onLowerIdent] at next

end Types

/-! ## Items -/

/-- The stacks on which an item is to begin, behind the doc comments that it already has. -/
inductive ItemAwaits (base : Stack) : Stack → List Token → Prop
  | base : ItemAwaits base base []
  | documented (doc : Token) (text : String) (s : Stack) (us : List Token)
      (outer : ItemAwaits base s us)
      (documents : doc.kind = .text .docString text) :
      ItemAwaits base (.token doc :: s) (us ++ [doc])

inductive ItemReached (goal : Goal) (base : Stack) (la : Tag) : Stack → List Token → Prop
  | awaiting (s : Stack) (us : List Token)
      (awaits : ItemAwaits base s us) :
      ItemReached goal base la s us
  | value (s s' : Stack) (us vs : List Token)
      (outer : ItemAwaits base s us)
      (values : goal ≠ .interface)
      (inner : Reached s la s' vs)
      (begun : vs ≠ []) :
      ItemReached goal base la s' (us ++ vs)
  | kwLet (kwLet : Token) (s : Stack) (us : List Token)
      (outer : ItemAwaits base s us)
      (lets : kwLet.tag = .reserved .kwLet) :
      ItemReached goal base la (.token kwLet :: s) (us ++ [kwLet])
  | binder (kwLet label : Token) (name : String) (s : Stack) (us : List Token)
      (outer : ItemAwaits base s us)
      (lets : kwLet.tag = .reserved .kwLet)
      (names : label.kind = .text .lowerIdent name) :
      ItemReached goal base la (.token label :: .token kwLet :: s) (us ++ [kwLet, label])
  | bound (kwLet label equal : Token) (name : String) (s s' : Stack) (us vs : List Token)
      (outer : ItemAwaits base s us)
      (values : goal ≠ .interface)
      (lets : kwLet.tag = .reserved .kwLet)
      (names : label.kind = .text .lowerIdent name)
      (binds : equal.tag = .reserved .equal)
      (inner : Reached (.token equal :: .token label :: .token kwLet :: s) la s' vs) :
      ItemReached goal base la s' (us ++ (kwLet :: label :: equal :: vs))
  | declared (kwLet label colon : Token) (name : String) (s s' : Stack) (us vs : List Token)
      (outer : ItemAwaits base s us)
      (types : goal = .interface)
      (lets : kwLet.tag = .reserved .kwLet)
      (names : label.kind = .text .lowerIdent name)
      (declares : colon.tag = .reserved .colon)
      (inner : TypeReached (.token colon :: .token label :: .token kwLet :: s) s' vs) :
      ItemReached goal base la s' (us ++ (kwLet :: label :: colon :: vs))
  | kwOpen (kwOpen : Token) (s : Stack) (us : List Token)
      (outer : ItemAwaits base s us)
      (opens : kwOpen.tag = .reserved .kwOpen) :
      ItemReached goal base la (.token kwOpen :: s) (us ++ [kwOpen])
  | opened (kwOpen label : Token) (name : String) (s : Stack) (us : List Token)
      (outer : ItemAwaits base s us)
      (opens : kwOpen.tag = .reserved .kwOpen)
      (names : label.kind = .text .upperIdent name) :
      ItemReached goal base la (.token label :: .token kwOpen :: s) (us ++ [kwOpen, label])
  | item (i : Tree) (s : Stack) (us vs : List Token)
      (outer : ItemAwaits base s us)
      (yields : ItemYields goal i vs) :
      ItemReached goal base la (.item i :: s) (us ++ vs)

section Items
variable (goal : Goal) (base : Stack)

theorem ItemAwaits.begins
    (place : Begins goal .item base)
    (s : Stack)
    (us : List Token)
    (awaits : ItemAwaits base s us) :
    Begins goal .item s := by
  induction awaits with
  | base => exact place
  | documented doc text s us _ documents ih =>
    exact .documented doc s ih (tag_of_kind doc _ documents)

/-- A reduction keeps the tokens, unless what it takes is the item on `base` itself. -/
theorem ItemReached.reduce
    (place : Begins goal .item base)
    (la : Tag)
    (s s' : Stack)
    (us : List Token)
    (r : Reduction)
    (reached : ItemReached goal base la s us)
    (next : nextAction goal la s.marks = .reduce r)
    (applied : r.apply s = some s') :
    ItemReached goal base la s' us ∨ ∃ i, s = .item i :: base ∧ ItemYields goal i us := by
  cases reached with
  | awaiting s us awaits =>
    exact absurd next ((awaits.begins goal base place).ne_reduce goal _ s la r)
  | value s₀ s us vs outer values inner begun =>
    have begins := outer.begins goal base place
    have opening := begins.opening goal s₀ values
    rcases inner.reduce goal s₀ la opening s s' vs r next applied with inner' | ⟨v, rfl, yields⟩
    · exact .inl (.value s₀ s' us vs outer values inner' begun)
    · have decided := reduce_of_loosest goal r la _ (.opening _ opening) next
      rw [begins.closeExpr_eq goal s₀ la values, Action.reduceIf_eq_reduce_iff] at decided
      obtain ⟨_, rfl⟩ := decided
      cases applied
      exact .inl (.item v s₀ us vs outer (.expr v vs values yields))
  | kwLet kwLet s us outer lets =>
    simp [lets, nextAction, onToken, Action.shiftIf_ne_reduce] at next
  | binder kwLet label name s us outer lets names =>
    simp [lets, tag_of_kind label _ names, nextAction, onToken, onLowerIdent,
      Action.shiftIf_ne_reduce] at next
  | bound kwLet label equal name s₀ s us vs outer values lets names binds inner =>
    have opening :=
      opening_of_binder goal kwLet label equal s₀ lets (tag_of_kind label _ names) binds
    rcases inner.reduce goal _ la opening s s' vs r next applied with inner' | ⟨v, rfl, yields⟩
    · exact .inl (.bound kwLet label equal name s₀ s' us vs outer values lets names binds inner')
    · have decided := reduce_of_loosest goal r la _ (.opening _ opening) next
      simp only [marks_cons, mark_token, lets, tag_of_kind label _ names, Kind.tag_text, binds]
        at decided
      obtain ⟨_, rfl⟩ := (Action.reduceIf_eq_reduce_iff _ .letItem r).mp decided
      simp only [Reduction.apply, names, Kind.text?, Option.map_some, List.drop_one,
        List.tail_cons, Option.some.injEq] at applied
      subst applied
      exact .inl (.item _ s₀ us _ outer
        (.bound kwLet label equal name v vs values lets names binds yields))
  | declared kwLet label colon name s₀ s us vs outer types lets names declares inner =>
    have place' := Begins.declared kwLet label colon s₀ (outer.begins goal base place) types lets
      (tag_of_kind label _ names) declares
    rcases inner.reduce goal _ place' la s s' vs r next applied with inner' | ⟨ty, rfl, yields⟩
    · exact .inl
        (.declared kwLet label colon name s₀ s' us vs outer types lets names declares inner')
    · obtain ⟨rfl, _⟩ := reduce_of_onType goal r la _ next
      simp only [Reduction.apply, names, Kind.text?, Option.map_some, List.drop_one,
        List.tail_cons, Option.some.injEq] at applied
      subst applied
      exact .inl (.item _ s₀ us _ outer
        (.declared kwLet label colon name ty vs types lets names declares yields))
  | kwOpen kwOpen s us outer opens =>
    simp [opens, nextAction, onToken, Action.shiftIf_ne_reduce] at next
  | opened kwOpen label name s us outer opens names =>
    simp only [marks_cons, mark_token, opens, tag_of_kind label _ names, Kind.tag_text, nextAction,
      onToken, onUpperIdent, Action.reduceIf_eq_reduce_iff] at next
    obtain ⟨_, rfl⟩ := next
    simp only [Reduction.apply, names, Kind.text?, Option.map_some, List.drop_one, List.tail_cons,
      Option.some.injEq] at applied
    subst applied
    exact .inl (.item _ s us _ outer (.opened kwOpen label name opens names))
  | item i s us vs outer yields =>
    cases outer with
    | base => exact .inr ⟨i, rfl, yields⟩
    | documented doc text s us outer documents =>
      simp only [marks_cons, mark_item, mark_token, tag_of_kind doc _ documents, Kind.tag_text,
        nextAction, onItem, Action.reduce.injEq] at next
      subst next
      simp only [Reduction.apply, documents, Kind.text?, Option.map_some, Option.some.injEq]
        at applied
      subst applied
      have reached : ItemReached goal base la _ _ :=
        .item _ s us (doc :: vs) outer (.documented doc text i vs documents yields)
      exact .inl (by simpa using reached)

theorem ItemReached.of_startsItem
    (la : Tag)
    (t : Token)
    (s : Stack)
    (us : List Token)
    (outer : ItemAwaits base s us)
    (starts : startsItem goal t.tag = true) :
    ItemReached goal base la (.token t :: s) (us ++ [t]) := by
  unfold startsItem at starts
  split at starts
  · next lets => exact .kwLet t s us outer lets
  · next opens => exact .kwOpen t s us outer opens
  · next documents =>
    obtain ⟨text, documents⟩ := exists_kind_of_tag t _ documents
    exact .awaiting _ _ (.documented t text s us outer documents)
  · simp only [Bool.and_eq_true, bne_iff_ne, ne_eq] at starts
    have inner := Reached.of_startsOperand s la t .e1 s [] .base starts.2
    exact .value s _ us _ outer starts.1 inner (by simp)

theorem ItemReached.shift
    (place : Begins goal .item base)
    (la : Tag)
    (t : Token)
    (s : Stack)
    (us : List Token)
    (reached : ItemReached goal base t.tag s us)
    (next : nextAction goal t.tag s.marks = .shift) :
    ItemReached goal base la (.token t :: s) (us ++ [t])
      ∨ s = base ∧ us = [] ∧ startsItem goal t.tag = false := by
  cases reached with
  | awaiting s us awaits =>
    cases starts : startsItem goal t.tag with
    | true => exact .inl (.of_startsItem goal base la t s us awaits starts)
    | false =>
      cases awaits with
      | base => exact .inr ⟨rfl, rfl, rfl⟩
      | documented doc text s us outer documents =>
        simp [tag_of_kind doc _ documents, nextAction, onToken, starts, Action.shiftIf] at next
  | value s₀ s us vs outer values inner begun =>
    have opening := (outer.begins goal base place).opening goal s₀ values
    rcases inner.shift goal s₀ la opening t s vs next with inner' | ⟨_, empty, _⟩
    · rw [List.append_assoc]
      exact .inl (.value s₀ _ us _ outer values inner' (by simp))
    · exact absurd empty begun
  | kwLet kwLet s us outer lets =>
    simp only [marks_cons, mark_token, lets, nextAction, onToken, Action.shiftIf_eq_shift_iff,
      beq_iff_eq] at next
    obtain ⟨name, names⟩ := exists_kind_of_tag t _ next
    have reached : ItemReached goal base la _ _ := .binder kwLet t name s us outer lets names
    exact .inl (by simpa using reached)
  | binder kwLet label name s us outer lets names =>
    simp only [marks_cons, mark_token, lets, tag_of_kind label _ names, Kind.tag_text, nextAction,
      onToken, onLowerIdent, Action.shiftIf_eq_shift_iff, beq_iff_eq] at next
    split at next
    · next types =>
      have reached : ItemReached goal base la _ _ :=
        .declared kwLet label t name s _ us [] outer types lets names next .awaiting
      exact .inl (by simpa using reached)
    · next values =>
      have reached : ItemReached goal base la _ _ :=
        .bound kwLet label t name s _ us [] outer values lets names next
          (.awaiting _ _ _ .base)
      exact .inl (by simpa using reached)
  | bound kwLet label equal name s₀ s us vs outer values lets names binds inner =>
    have opening :=
      opening_of_binder goal kwLet label equal s₀ lets (tag_of_kind label _ names) binds
    rcases inner.shift goal _ la opening t s vs next with inner' | ⟨rfl, _, noOperand⟩
    · have reached : ItemReached goal base la _ _ :=
        .bound kwLet label equal name s₀ _ us _ outer values lets names binds inner'
      exact .inl (by simpa using reached)
    · simp [lets, tag_of_kind label _ names, binds, nextAction, onToken, isLabel, noOperand,
        Action.shiftIf] at next
  | declared kwLet label colon name s₀ s us vs outer types lets names declares inner =>
    have place' := Begins.declared kwLet label colon s₀ (outer.begins goal base place) types lets
      (tag_of_kind label _ names) declares
    have reached : ItemReached goal base la _ _ :=
      .declared kwLet label colon name s₀ _ us _ outer types lets names declares
        (inner.shift goal _ place' t s vs next)
    exact .inl (by simpa using reached)
  | kwOpen kwOpen s us outer opens =>
    simp only [marks_cons, mark_token, opens, nextAction, onToken, Action.shiftIf_eq_shift_iff,
      beq_iff_eq] at next
    obtain ⟨name, names⟩ := exists_kind_of_tag t _ next
    have reached : ItemReached goal base la _ _ := .opened kwOpen t name s us outer opens names
    exact .inl (by simpa using reached)
  | opened kwOpen label name s us outer opens names =>
    simp [opens, tag_of_kind label _ names, nextAction, onToken, onUpperIdent,
      Action.reduceIf_ne_shift] at next
  | item i s us vs outer yields =>
    simp only [marks_cons, mark_item, nextAction, onItem] at next
    split at next <;> (try split at next) <;> cases next

end Items

/-! ## Files -/

inductive FileReached (goal : Goal) (la : Tag) : Stack → List Token → Prop
  | items (is : List Tree) (isOpen : Bool) (us : List Token)
      (yields : FileYields goal is isOpen us) :
      FileReached goal la [.items is isOpen] us
  | inside (is : List Tree) (s : Stack) (us vs : List Token)
      (before : FileYields goal is true us)
      (inner : ItemReached goal [.items is true] la s vs) :
      FileReached goal la s (us ++ vs)
  | closed (semi : Token) (is : List Tree) (isOpen : Bool) (us : List Token)
      (yields : FileYields goal is isOpen us)
      (parts : semi.tag = .reserved .semi) :
      FileReached goal la [.token semi, .items is isOpen] (us ++ [semi])

section Files
variable (goal : Goal) (isFile : goal.isFile = true)
include isFile

theorem FileReached.reduce
    (la : Tag)
    (s s' : Stack)
    (us : List Token)
    (r : Reduction)
    (reached : FileReached goal la s us)
    (next : nextAction goal la s.marks = .reduce r)
    (applied : r.apply s = some s') :
    FileReached goal la s' us := by
  cases reached with
  | items is isOpen us yields =>
    simp only [marks_cons, mark_items, nextAction, onItems] at next
    split at next
    · cases next
    · cases next
    · exact absurd next (Action.shiftIf_ne_reduce _ r)
  | inside is s us vs before inner =>
    rcases inner.reduce goal _ (.items is isFile) la s s' vs r next applied with
      inner' | ⟨i, rfl, yields⟩
    · exact .inside is s' us vs before inner'
    · cases next
      cases applied
      exact .items _ false _ (.item is i us vs before yields)
  | closed semi is isOpen us yields parts =>
    simp only [marks_cons, mark_token, mark_items, parts, nextAction, onToken, onSemi,
      Action.reduce.injEq] at next
    subst next
    cases applied
    exact .items is true _ (.separator semi is isOpen us yields parts)

theorem FileReached.shift
    (la : Tag)
    (t : Token)
    (s : Stack)
    (us : List Token)
    (reached : FileReached goal t.tag s us)
    (next : nextAction goal t.tag s.marks = .shift) :
    FileReached goal la (.token t :: s) (us ++ [t]) := by
  have above : ∀ is isOpen us, FileYields goal is isOpen us →
      onItems goal t.tag isOpen = .shift →
      FileReached goal la [.token t, .items is isOpen] (us ++ [t]) := by
    intro is isOpen us yields next
    unfold onItems at next
    split at next
    · cases next
    · next parts => exact .closed t is isOpen us yields parts
    · rw [Action.shiftIf_eq_shift_iff, Bool.and_eq_true] at next
      obtain ⟨rfl, starts⟩ := next
      exact .inside is _ us _ yields (.of_startsItem goal _ la t _ [] .base starts)
  cases reached with
  | items is isOpen us yields => exact above is isOpen us yields next
  | inside is s us vs before inner =>
    rcases inner.shift goal _ (.items is isFile) la t s vs next with inner' | ⟨rfl, rfl, _⟩
    · rw [List.append_assoc]
      exact .inside is _ us _ before inner'
    · rw [List.append_nil]
      exact above is true us before next
  | closed semi is isOpen us yields parts => simp [parts, nextAction, onToken, onSemi] at next

end Files

/-! ## What is accepted -/

theorem Reached.top_cases
    (base s : Stack)
    (la : Tag)
    (x : Symbol)
    (us : List Token)
    (reached : Reached base la (x :: s) us) :
    (x :: s = base ∧ us = []) ∨ (∃ t, x = .token t) ∨ (∃ e, x = .expr e) ∨ ∃ as, x = .args as := by
  generalize whole : x :: s = s' at reached
  cases reached with
  | awaiting slot _ _ awaits =>
    induction awaits with
    | base => exact .inl ⟨rfl, rfl⟩
    | plain _ _ _ ih => exact ih whole
    | _ =>
      cases whole
      simp
  | _ =>
    cases whole
    simp

section Acceptance
variable (goal : Goal) (base s : Stack) (la : Tag) (us : List Token)

theorem ItemReached.of_items
    (is : List Tree)
    (isOpen : Bool)
    (reached : ItemReached goal base la (.items is isOpen :: s) us) :
    .items is isOpen :: s = base ∧ us = [] := by
  cases reached with
  | awaiting _ _ awaits => cases awaits with | base => exact ⟨rfl, rfl⟩
  | value _ _ _ _ _ _ inner begun => simpa [begun] using inner.top_cases
  | bound _ _ _ _ _ _ _ _ _ _ _ _ _ inner => simpa using inner.top_cases
  | declared _ _ _ _ _ _ _ _ _ _ _ _ _ inner => cases inner

theorem ItemReached.of_item
    (i : Tree)
    (reached : ItemReached goal [] la [.item i] us) :
    ItemYields goal i us := by
  cases reached with
  | awaiting _ _ awaits => cases awaits
  | value _ _ _ _ _ _ inner begun => simpa [begun] using inner.top_cases
  | bound _ _ _ _ _ _ _ _ _ _ _ _ _ inner => simpa using inner.top_cases
  | declared _ _ _ _ _ _ _ _ _ _ _ _ _ inner => cases inner
  | item _ _ us vs outer yields => cases outer with | base => exact yields

end Acceptance

theorem exists_items_of_acceptedValue?
    (goal : Goal)
    (s : Stack)
    (v : Tree)
    (isFile : goal.isFile = true)
    (complete : acceptedValue? goal s = some v) :
    ∃ is isOpen, s = [.items is isOpen] := by
  unfold acceptedValue? at complete
  split at complete <;> simp_all [Goal.isFile]

theorem exists_fileYields_of_run
    (goal : Goal)
    (isFile : goal.isFile = true)
    (ts : List Token)
    (e : Token)
    (v : Tree)
    (run : automaton.run ⟨goal, startStack goal, none⟩ (ts ++ [e]) = some (.accepted v)) :
    ∃ is isOpen, FileYields goal is isOpen ts ∧ acceptedValue? goal [.items is isOpen] = some v := by
  obtain ⟨s, reached, _, complete⟩ := exists_accept_of_run goal (FileReached goal)
    (fun la s us r s' => FileReached.reduce goal isFile la s s' us r)
    (fun la t s us => FileReached.shift goal isFile la t s us)
    (startStack goal) [] ts e v
    (fun la => by rw [startStack_of_isFile goal isFile]; exact .items [] true [] .empty) run
  obtain ⟨is, isOpen, rfl⟩ := exists_items_of_acceptedValue? goal s v isFile complete
  refine ⟨is, isOpen, ?_, complete⟩
  rw [List.nil_append] at reached
  cases reached with
  | items _ _ _ yields => exact yields
  | inside is' _ us vs before inner =>
    obtain ⟨same, rfl⟩ := inner.of_items
    cases same
    rwa [List.append_nil]

theorem itemYields_of_run
    (ts : List Token)
    (e : Token)
    (i : Tree)
    (run : automaton.run ⟨.toplevelPhrase, [], none⟩ (ts ++ [e]) = some (.accepted i)) :
    ItemYields .toplevelPhrase i ts := by
  have place : Begins .toplevelPhrase .item [] := .toplevelPhrase rfl
  have reduce : ∀ la s us r s', ItemReached .toplevelPhrase [] la s us →
      nextAction .toplevelPhrase la s.marks = .reduce r → r.apply s = some s' →
      ItemReached .toplevelPhrase [] la s' us := by
    intro la s us r s' reached next applied
    rcases reached.reduce _ [] place la s s' us r next applied with reached' | ⟨i, rfl, _⟩
    · exact reached'
    · simp only [marks_cons, mark_item, marks_nil, nextAction, onItem] at next
      split at next <;> cases next
  have shift : ∀ la t s us, ItemReached .toplevelPhrase [] t.tag s us →
      nextAction .toplevelPhrase t.tag s.marks = .shift →
      ItemReached .toplevelPhrase [] la (.token t :: s) (us ++ [t]) := by
    intro la t s us reached next
    rcases reached.shift _ [] place la t s us next with reached' | ⟨rfl, _, noStart⟩
    · exact reached'
    · simp [nextAction, onEmpty, noStart, Action.shiftIf] at next
  obtain ⟨s, reached, _, complete⟩ := exists_accept_of_run .toplevelPhrase
    (ItemReached .toplevelPhrase []) reduce shift [] [] ts e i (fun la => .awaiting [] [] .base) run
  have single : s = [.item i] := by
    unfold acceptedValue? at complete
    split at complete <;> simp_all
  subst single
  exact reached.of_item

end TolerantParser.Mini
