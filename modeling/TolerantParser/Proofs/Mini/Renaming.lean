import TolerantParser.Proofs.Driver.Blame
import TolerantParser.Proofs.Driver.Renaming
import TolerantParser.Proofs.Mini.Agreement
import TolerantParser.Proofs.Mini.Words

/-! # Names and layout

The automaton decides on marks, and these show neither the texts of tokens nor their places.  So on
a renamed stack it does the same (`Stack.Renamed.settled`): where the stack is viable, a reduction
copies into its tree the texts that a renaming changes, and no others (`Rewrites.renamed`).  A parse
depends on the spelling of names only in the names of its tree, and not on the layout of its source
at all (`offerMany_renamed`). -/

set_option autoImplicit false

namespace TolerantParser.Mini

/-! ## Renamed trees -/

namespace Tree

mutual

def rename (f : String → String) : Tree → Tree
  | int s => int (f s)
  | var s => var (f s)
  | constr s => constr (f s)
  | unary op e => unary op (rename f e)
  | binary op a b => binary op (rename f a) (rename f b)
  | postfixed e ops => postfixed (rename f e) ops
  | call callee args => call (f callee) (renameEach f args)
  | labeled l isOptional none => labeled (f l) isOptional none
  | labeled l isOptional (some e) => labeled (f l) isOptional (some (rename f e))
  | letItem n e => letItem (f n) (rename f e)
  | valItem n t => valItem (f n) (rename f t)
  | openItem m => openItem (f m)
  | documented doc item => documented (f doc) (rename f item)
  | typeCon s => typeCon (f s)
  | typeApp arg con => typeApp (rename f arg) (f con)
  | implementation items => implementation (renameEach f items)
  | signature items => signature (renameEach f items)
  | phrases items => phrases (renameEach f items)

def renameEach (f : String → String) : List Tree → List Tree
  | [] => []
  | t :: ts => rename f t :: renameEach f ts

end

theorem renameEach_append
    (f : String → String)
    (ts us : List Tree) :
    renameEach f (ts ++ us) = renameEach f ts ++ renameEach f us := by
  induction ts with
  | nil => rfl
  | cons t ts ih => simp only [List.cons_append, renameEach, ih]

theorem isEmpty_renameEach
    (f : String → String)
    (ts : List Tree) :
    (renameEach f ts).isEmpty = ts.isEmpty := by
  cases ts <;> rfl

theorem rename_applyPostfix
    (f : String → String)
    (op : String)
    (e : Tree) :
    (e.applyPostfix op).rename f = (e.rename f).applyPostfix op := by
  cases e with
  | labeled l isOptional value => cases value <;> rfl
  | _ => rfl

theorem ofAtom?_rename
    (f : String → String)
    (k : Kind) :
    ofAtom? (k.rename f) = (ofAtom? k).map (rename f) := by
  cases k with
  | text c s => cases c <;> rfl
  | reserved | eof => rfl

mutual

theorem rename_id : (t : Tree) → t.rename id = t
  | int _ => rfl
  | var _ => rfl
  | constr _ => rfl
  | unary op e => by rw [rename, rename_id e]
  | binary op a b => by rw [rename, rename_id a, rename_id b]
  | postfixed e ops => by rw [rename, rename_id e]
  | call callee args => by rw [rename, renameEach_id args, id]
  | labeled _ _ none => rfl
  | labeled l isOptional (some e) => by rw [rename, rename_id e, id]
  | letItem n e => by rw [rename, rename_id e, id]
  | valItem n t => by rw [rename, rename_id t, id]
  | openItem _ => rfl
  | documented doc item => by rw [rename, rename_id item, id]
  | typeCon _ => rfl
  | typeApp arg con => by rw [rename, rename_id arg, id]
  | implementation items => by rw [rename, renameEach_id items]
  | signature items => by rw [rename, renameEach_id items]
  | phrases items => by rw [rename, renameEach_id items]

theorem renameEach_id : (ts : List Tree) → renameEach id ts = ts
  | [] => rfl
  | t :: ts => by rw [renameEach, rename_id t, renameEach_id ts]

end

end Tree

/-! ## Renamed stacks -/

inductive Symbol.Renamed (f : String → String) : Symbol → Symbol → Prop
  | token (t t' : Token)
      (renamed : t.Renamed f t') :
      Renamed f (.token t) (.token t')
  | expr (e : Tree) : Renamed f (.expr e) (.expr (e.rename f))
  | args (as : List Tree) : Renamed f (.args as) (.args (Tree.renameEach f as))
  | type (ty : Tree) : Renamed f (.type ty) (.type (ty.rename f))
  | item (i : Tree) : Renamed f (.item i) (.item (i.rename f))
  | items (is : List Tree) (isOpen : Bool) :
      Renamed f (.items is isOpen) (.items (Tree.renameEach f is) isOpen)

def Stack.Renamed (f : String → String) (s u : Stack) : Prop := List.Forall₂ (Symbol.Renamed f) s u

section Stacks
variable (f : String → String)

theorem renamed_startStack (goal : Goal) : Stack.Renamed f (startStack goal) (startStack goal) := by
  cases goal with
  | implementation | interface | useFile => exact .cons (.items [] true) .nil
  | expression | coreType | toplevelPhrase => exact .nil

theorem Symbol.Renamed.mark_eq
    (x y : Symbol)
    (renamed : x.Renamed f y) :
    y.mark = x.mark := by
  cases renamed with
  | token t t' renamed => exact congrArg Mark.token (renamed.tag_eq f t t')
  | args as => exact congrArg Mark.args (Tree.isEmpty_renameEach f as)
  | expr | type | item | items => rfl

namespace Stack.Renamed

variable (s u : Stack)

theorem marks_eq
    (alike : Stack.Renamed f s u) :
    u.marks = s.marks := by
  induction alike with
  | nil => rfl
  | cons first _ ih => rw [marks_cons, marks_cons, first.mark_eq f, ih]

theorem of_token
    (t : Token)
    (alike : Stack.Renamed f (.token t :: s) u) :
    ∃ t' u', t.Renamed f t' ∧ Stack.Renamed f s u' ∧ u = .token t' :: u' := by
  cases alike with
  | cons first rest => cases first with
    | token _ t' renamed => exact ⟨t', _, renamed, rest, rfl⟩

theorem of_expr
    (e : Tree)
    (alike : Stack.Renamed f (.expr e :: s) u) :
    ∃ u', Stack.Renamed f s u' ∧ u = .expr (e.rename f) :: u' := by
  cases alike with
  | cons first rest => cases first with
    | expr => exact ⟨_, rest, rfl⟩

theorem of_args
    (as : List Tree)
    (alike : Stack.Renamed f (.args as :: s) u) :
    ∃ u', Stack.Renamed f s u' ∧ u = .args (Tree.renameEach f as) :: u' := by
  cases alike with
  | cons first rest => cases first with
    | args => exact ⟨_, rest, rfl⟩

theorem of_type
    (ty : Tree)
    (alike : Stack.Renamed f (.type ty :: s) u) :
    ∃ u', Stack.Renamed f s u' ∧ u = .type (ty.rename f) :: u' := by
  cases alike with
  | cons first rest => cases first with
    | type => exact ⟨_, rest, rfl⟩

theorem of_item
    (i : Tree)
    (alike : Stack.Renamed f (.item i :: s) u) :
    ∃ u', Stack.Renamed f s u' ∧ u = .item (i.rename f) :: u' := by
  cases alike with
  | cons first rest => cases first with
    | item => exact ⟨_, rest, rfl⟩

theorem of_items
    (is : List Tree)
    (isOpen : Bool)
    (alike : Stack.Renamed f (.items is isOpen :: s) u) :
    ∃ u', Stack.Renamed f s u' ∧ u = .items (Tree.renameEach f is) isOpen :: u' := by
  cases alike with
  | cons first rest => cases first with
    | items => exact ⟨_, rest, rfl⟩

end Stack.Renamed

/-! ## Reductions -/

theorem kind_of_renamed_operator
    (t t' : Token)
    (renamed : t.Renamed f t')
    (isOperator : (∃ p, binaryLevels? t.tag = some p) ∨ isUnaryOp t.tag = true
      ∨ t.tag = .text .postfixOp) :
    t'.kind = t.kind := by
  rw [renamed]
  unfold Token.tag at isOperator
  cases kind : t.kind with
  | text c s =>
    rw [kind] at isOperator
    cases c with
    | infixOp0 | infixOp1 | postfixOp => rfl
    | int | lowerIdent | upperIdent | docString => simp [binaryLevels?, isUnaryOp] at isOperator
  | reserved | eof => rfl

theorem Joins.renamed
    (arg : Tree)
    (s s' u : Stack)
    (joins : Joins arg s s')
    (alike : Stack.Renamed f s u) :
    ∃ u', Joins (arg.rename f) u u' ∧ Stack.Renamed f s' u' := by
  cases joins with
  | first s =>
    obtain ⟨u, rest, rfl⟩ := alike.of_args f _ _ []
    exact ⟨_, .first u, .cons (.args [arg]) rest⟩
  | next comma as s parts =>
    obtain ⟨comma', _, isComma, rest, rfl⟩ := alike.of_token f _ _ comma
    obtain ⟨u, below, rfl⟩ := rest.of_args f _ _ as
    have longer := Symbol.Renamed.args (f := f) (as ++ [arg])
    rw [Tree.renameEach_append] at longer
    exact ⟨_, .next comma' _ u ((isComma.tag_eq f comma comma').trans parts), .cons longer below⟩

theorem Rewrites.renamed
    (r : Reduction)
    (s s' u : Stack)
    (rewrites : Rewrites r s s')
    (alike : Stack.Renamed f s u) :
    ∃ u', Rewrites r u u' ∧ Stack.Renamed f s' u' := by
  cases rewrites with
  | atom t v s isAtom =>
    obtain ⟨t', u, renamed, rest, rfl⟩ := alike.of_token f _ _ t
    have isAtom' : Tree.ofAtom? t'.kind = some (v.rename f) := by
      rw [renamed, Tree.ofAtom?_rename, isAtom]
      rfl
    exact ⟨_, .atom t' _ u isAtom', .cons (.expr v) rest⟩
  | group left right e s opens closes =>
    obtain ⟨right', _, isRight, rest, rfl⟩ := alike.of_token f _ _ right
    obtain ⟨_, below, rfl⟩ := rest.of_expr f _ _ e
    obtain ⟨left', u, isLeft, under, rfl⟩ := below.of_token f _ _ left
    exact ⟨_, .group left' right' _ u ((isLeft.tag_eq f left left').trans opens)
      ((isRight.tag_eq f right right').trans closes), .cons (.expr e) under⟩
  | openCall callee left s isCallee opens =>
    obtain ⟨left', _, isLeft, rest, rfl⟩ := alike.of_token f _ _ left
    obtain ⟨callee', u, named, below, rfl⟩ := rest.of_token f _ _ callee
    exact ⟨_, .openCall callee' left' u ((named.tag_eq f callee callee').trans isCallee)
      ((isLeft.tag_eq f left left').trans opens), .cons (.args []) alike⟩
  | closeCall callee left right name as s isCallee opens closes =>
    obtain ⟨right', _, isRight, rest, rfl⟩ := alike.of_token f _ _ right
    obtain ⟨_, below, rfl⟩ := rest.of_args f _ _ as
    obtain ⟨left', _, isLeft, under, rfl⟩ := below.of_token f _ _ left
    obtain ⟨callee', u, named, bottom, rfl⟩ := under.of_token f _ _ callee
    exact ⟨_, .closeCall callee' left' right' (f name) _ u
      (named.kind_eq f callee callee' _ isCallee) ((isLeft.tag_eq f left left').trans opens)
      ((isRight.tag_eq f right right').trans closes), .cons (.expr (.call name as)) bottom⟩
  | argument e s s' joins =>
    obtain ⟨_, rest, rfl⟩ := alike.of_expr f _ _ e
    obtain ⟨u', joins', renamed⟩ := joins.renamed f e _ _ _ rest
    exact ⟨u', .argument _ _ _ joins', renamed⟩
  | punnedLabel tilde label name s s' marks names joins =>
    obtain ⟨label', _, named, rest, rfl⟩ := alike.of_token f _ _ label
    obtain ⟨tilde', _, isTilde, below, rfl⟩ := rest.of_token f _ _ tilde
    obtain ⟨u', joins', renamed⟩ := joins.renamed f _ _ _ _ below
    exact ⟨u', .punnedLabel tilde' label' (f name) _ _
      ((isTilde.tag_eq f tilde tilde').trans marks) (named.kind_eq f label label' _ names) joins',
      renamed⟩
  | labeledArgument tilde label equal name e s s' marks names binds joins =>
    obtain ⟨_, rest, rfl⟩ := alike.of_expr f _ _ e
    obtain ⟨equal', _, isEqual, below, rfl⟩ := rest.of_token f _ _ equal
    obtain ⟨label', _, named, under, rfl⟩ := below.of_token f _ _ label
    obtain ⟨tilde', _, isTilde, bottom, rfl⟩ := under.of_token f _ _ tilde
    obtain ⟨u', joins', renamed⟩ := joins.renamed f _ _ _ _ bottom
    exact ⟨u', .labeledArgument tilde' label' equal' (f name) _ _ _
      ((isTilde.tag_eq f tilde tilde').trans marks) (named.kind_eq f label label' _ names)
      ((isEqual.tag_eq f equal equal').trans binds) joins', renamed⟩
  | optionalArgument tilde label equal question name e s s' marks names binds omits joins =>
    obtain ⟨_, rest, rfl⟩ := alike.of_expr f _ _ e
    obtain ⟨question', _, isQuestion, above, rfl⟩ := rest.of_token f _ _ question
    obtain ⟨equal', _, isEqual, below, rfl⟩ := above.of_token f _ _ equal
    obtain ⟨label', _, named, under, rfl⟩ := below.of_token f _ _ label
    obtain ⟨tilde', _, isTilde, bottom, rfl⟩ := under.of_token f _ _ tilde
    obtain ⟨u', joins', renamed⟩ := joins.renamed f _ _ _ _ bottom
    exact ⟨u', .optionalArgument tilde' label' equal' question' (f name) _ _ _
      ((isTilde.tag_eq f tilde tilde').trans marks) (named.kind_eq f label label' _ names)
      ((isEqual.tag_eq f equal equal').trans binds)
      ((isQuestion.tag_eq f question question').trans omits) joins', renamed⟩
  | unaryOp op e s isUnary =>
    obtain ⟨_, rest, rfl⟩ := alike.of_expr f _ _ e
    obtain ⟨op', u, isOp, below, rfl⟩ := rest.of_token f _ _ op
    have whole := Rewrites.unaryOp op' (e.rename f) u ((isOp.tag_eq f op op').symm ▸ isUnary)
    rw [kind_of_renamed_operator f op op' isOp (.inr (.inl isUnary))] at whole
    exact ⟨_, whole, .cons (.expr (.unary op.kind.wording e)) below⟩
  | postfixOp op e s isPostfix =>
    obtain ⟨op', _, isOp, rest, rfl⟩ := alike.of_token f _ _ op
    obtain ⟨u, below, rfl⟩ := rest.of_expr f _ _ e
    have whole := Rewrites.postfixOp op' (e.rename f) u ((isOp.tag_eq f op op').trans isPostfix)
    rw [kind_of_renamed_operator f op op' isOp (.inr (.inr isPostfix)),
      ← Tree.rename_applyPostfix] at whole
    exact ⟨_, whole, .cons (.expr _) below⟩
  | binaryOp op p a b s isBinary =>
    obtain ⟨_, rest, rfl⟩ := alike.of_expr f _ _ b
    obtain ⟨op', _, isOp, below, rfl⟩ := rest.of_token f _ _ op
    obtain ⟨u, under, rfl⟩ := below.of_expr f _ _ a
    have whole := Rewrites.binaryOp op' p (a.rename f) (b.rename f) u
      ((isOp.tag_eq f op op').symm ▸ isBinary)
    rw [kind_of_renamed_operator f op op' isOp (.inl ⟨p, isBinary⟩)] at whole
    exact ⟨_, whole, .cons (.expr (.binary op.kind.wording a b)) under⟩
  | typeName t c name s names isName =>
    obtain ⟨t', u, renamed, rest, rfl⟩ := alike.of_token f _ _ t
    have names' : t'.kind = .text c (f name) := by
      rw [renamed.kind_eq f t t' _ names]
      rcases isName with rfl | rfl <;> rfl
    exact ⟨_, .typeName t' c (f name) u names' isName, .cons (.type (.typeCon name)) rest⟩
  | typeApplication t name arg s names =>
    obtain ⟨t', _, renamed, rest, rfl⟩ := alike.of_token f _ _ t
    obtain ⟨u, below, rfl⟩ := rest.of_type f _ _ arg
    exact ⟨_, .typeApplication t' (f name) _ u (renamed.kind_eq f t t' _ names),
      .cons (.type (.typeApp arg name)) below⟩
  | exprItem e s =>
    obtain ⟨u, rest, rfl⟩ := alike.of_expr f _ _ e
    exact ⟨_, .exprItem _ u, .cons (.item e) rest⟩
  | letItem kwLet label equal name e s lets names binds =>
    obtain ⟨_, rest, rfl⟩ := alike.of_expr f _ _ e
    obtain ⟨equal', _, isEqual, below, rfl⟩ := rest.of_token f _ _ equal
    obtain ⟨label', _, named, under, rfl⟩ := below.of_token f _ _ label
    obtain ⟨kwLet', u, isLet, bottom, rfl⟩ := under.of_token f _ _ kwLet
    exact ⟨_, .letItem kwLet' label' equal' (f name) _ u
      ((isLet.tag_eq f kwLet kwLet').trans lets) (named.kind_eq f label label' _ names)
      ((isEqual.tag_eq f equal equal').trans binds), .cons (.item (.letItem name e)) bottom⟩
  | valItem kwLet label colon name ty s lets names declares =>
    obtain ⟨_, rest, rfl⟩ := alike.of_type f _ _ ty
    obtain ⟨colon', _, isColon, below, rfl⟩ := rest.of_token f _ _ colon
    obtain ⟨label', _, named, under, rfl⟩ := below.of_token f _ _ label
    obtain ⟨kwLet', u, isLet, bottom, rfl⟩ := under.of_token f _ _ kwLet
    exact ⟨_, .valItem kwLet' label' colon' (f name) _ u
      ((isLet.tag_eq f kwLet kwLet').trans lets) (named.kind_eq f label label' _ names)
      ((isColon.tag_eq f colon colon').trans declares), .cons (.item (.valItem name ty)) bottom⟩
  | openItem kwOpen label name s opens names =>
    obtain ⟨label', _, named, rest, rfl⟩ := alike.of_token f _ _ label
    obtain ⟨kwOpen', u, isOpen, below, rfl⟩ := rest.of_token f _ _ kwOpen
    exact ⟨_, .openItem kwOpen' label' (f name) u ((isOpen.tag_eq f kwOpen kwOpen').trans opens)
      (named.kind_eq f label label' _ names), .cons (.item (.openItem name)) below⟩
  | docItem doc text i s documents =>
    obtain ⟨_, rest, rfl⟩ := alike.of_item f _ _ i
    obtain ⟨doc', u, isDoc, below, rfl⟩ := rest.of_token f _ _ doc
    exact ⟨_, .docItem doc' (f text) _ u (isDoc.kind_eq f doc doc' _ documents),
      .cons (.item (.documented text i)) below⟩
  | appendItem i is isOpen s =>
    obtain ⟨_, rest, rfl⟩ := alike.of_item f _ _ i
    obtain ⟨u, below, rfl⟩ := rest.of_items f _ _ is isOpen
    have longer := Symbol.Renamed.items (f := f) (is ++ [i]) false
    rw [Tree.renameEach_append] at longer
    exact ⟨_, .appendItem _ _ isOpen u, .cons longer below⟩
  | closeItem semi is isOpen s parts =>
    obtain ⟨semi', _, isSemi, rest, rfl⟩ := alike.of_token f _ _ semi
    obtain ⟨u, below, rfl⟩ := rest.of_items f _ _ is isOpen
    exact ⟨_, .closeItem semi' _ isOpen u ((isSemi.tag_eq f semi semi').trans parts),
      .cons (.items is true) below⟩

theorem acceptedValue?_renamed
    (goal : Goal)
    (s u : Stack)
    (v : Tree)
    (alike : Stack.Renamed f s u)
    (complete : acceptedValue? goal s = some v) :
    acceptedValue? goal u = some (v.rename f) := by
  unfold acceptedValue? at complete
  split at complete
  case h_7 => cases complete
  all_goals
    cases complete
    cases alike with
    | cons first rest =>
      cases rest
      cases first
      rfl

/-! ## Settling -/

/-- The second environment is the first one renamed, on a stack that the automaton comes by. -/
structure Env.Renamed (env env' : Env) : Prop where
  goal : env'.goal = env.goal
  viable : Viable env.goal env.stack
  stack : Stack.Renamed f env.stack env'.stack

def renamedBy : Likeness Env Env Tree Tree :=
  .renaming f (Env.Renamed f) fun v v' => v' = v.rename f

/-- The automaton comes by renamed stacks as long as it reduces, and settles alike on the last. -/
theorem Stack.Renamed.settled
    (goal : Goal)
    (s u : Stack)
    (t t' : Token)
    (viable : Viable goal s)
    (alike : Stack.Renamed f s u)
    (renamed : t.Renamed f t') :
    (renamedBy f).Settlings (settled goal s t) (settled goal u t') := by
  have sameNext : ∀ s u, Stack.Renamed f s u →
      nextAction goal t'.tag u.marks = nextAction goal t.tag s.marks := by
    intro s u alike
    rw [renamed.tag_eq f t t', alike.marks_eq f s u]
  -- each reduction of `s` is matched by one of the renamed stack, so that one stays in step
  obtain ⟨s', ⟨viable', u', alike', sameU⟩, sameS, irreducible⟩ :=
    exists_irreducible goal t
      (fun s => Viable goal s
        ∧ ∃ u', Stack.Renamed f s u' ∧ Mini.settled goal u t' = Mini.settled goal u' t')
      (by
        rintro s r s' ⟨viable, u', alike, same⟩ next applied
        obtain ⟨rewrites, viable'⟩ := viable.rewrites_of_apply goal s t r s' next applied
        obtain ⟨u'', rewrites', alike'⟩ := rewrites.renamed f r s s' u' alike
        refine ⟨viable', u'', alike', ?_⟩
        rw [same, settled_of_reduce goal u' u'' t' r ((sameNext s u' alike).trans next)
          (rewrites'.apply_eq r u' u'')])
      s ⟨viable, u, alike, rfl⟩
  rw [sameS, sameU]
  have sameNext' := sameNext s' u' alike'
  cases next : nextAction goal t.tag s'.marks with
  | shift =>
    rw [settled_of_shift goal s' t next, settled_of_shift goal u' t' (sameNext'.trans next)]
    exact .needsInput _ _ ⟨rfl, viable'.shift goal s' t next, .cons (.token t t' renamed) alike'⟩
  | reduce r => exact absurd next (viable'.ne_reduce_of_irreducible goal s' t r irreducible)
  | accept =>
    obtain ⟨v, complete⟩ := (viable'.accept goal s' t next).1
    rw [settled_of_accept goal s' t v next complete,
      settled_of_accept goal u' t' _ (sameNext'.trans next)
        (acceptedValue?_renamed f goal s' u' v alike' complete)]
    exact .accepted _ _ rfl
  | error =>
    rw [settled_of_error goal s' t next, settled_of_error goal u' t' (sameNext'.trans next)]
    exact .failed _ _

theorem kept_renamedBy (h : Heuristics) : (renamedBy f).Kept (driver h) (driver h) := by
  refine Likeness.kept_renaming f _ _ (driver h) ?_
  rintro ⟨goal, s, la⟩ ⟨goal', u, la'⟩ t t' ⟨same, viable, alike⟩ renamed
  cases same
  exact alike.settled f goal s u t t' viable renamed

theorem states_initialState_renamedBy (goal : Goal) :
    (renamedBy f).States (initialState goal) (initialState goal) where
  env := ⟨rfl, viable_startStack goal, renamed_startStack f goal⟩
  docstrings := .nil
  pending := .none

end Stacks

/-! ## Parses -/

section Parses
variable (h : Heuristics) (goal : Goal)

theorem outcomes_of_renamed
    (f : String → String)
    (ts ts' : List Token)
    (renamed : List.Forall₂ (Token.Renamed f) ts ts') :
    ((driver h).offerMany (initialState goal) ts').pulled
        = ((driver h).offerMany (initialState goal) ts).pulled
      ∧ (renamedBy f).Outcomes ((driver h).offerMany (initialState goal) ts).outcome
        ((driver h).offerMany (initialState goal) ts').outcome :=
  (kept_renamedBy f h).offerMany (renamedBy f) _ _ _ _ (states_initialState_renamedBy f goal) ts ts'
    renamed

theorem renamed_of_map_kind
    (ts ts' : List Token)
    (same : ts.map Token.kind = ts'.map Token.kind) :
    List.Forall₂ (Token.Renamed id) ts ts' := by
  rw [← List.forall₂_eq_eq_eq, List.forall₂_map_left_iff, List.forall₂_map_right_iff] at same
  refine same.imp fun t t' kind => ?_
  rw [Token.Renamed, Kind.rename_id, kind]

theorem renamed_lex
    (source source' : String)
    (same : wordsOf source = wordsOf source') :
    List.Forall₂ (Token.Renamed id) (lex source) (lex source') := by
  refine renamed_of_map_kind _ _ ?_
  rw [lex, lex, List.map_append, List.map_append, map_kind_lexWords, map_kind_lexWords, same]
  rfl

/-- What a source parses to: its tree and the texts of the doc comments set aside. -/
def parsedSource? (o : Offset) (source : String) : Option (Tree × List String) :=
  match (driver h).parse goal o (lex source) with
  | .ok (.ok p) => some (p.value, p.docstrings.toList.map (·.text))
  | _ => none

theorem parsedSource?_eq
    (o o' : Offset)
    (source source' : String)
    (same : wordsOf source = wordsOf source') :
    parsedSource? h goal o source = parsedSource? h goal o' source' := by
  obtain ⟨_, outcomes⟩ := outcomes_of_renamed h goal id _ _ (renamed_lex source source' same)
  simp only [parsedSource?, Driver.parse, initial_driver, Except.map, Driver.parseFrom_eq]
  generalize ((driver h).offerMany (initialState goal) (lex source)).outcome = x at outcomes ⊢
  generalize ((driver h).offerMany (initialState goal) (lex source')).outcome = x' at outcomes ⊢
  cases outcomes with
  | intermediate | error => rfl
  | success p p' values docstrings =>
    have texts : p.docstrings.toList.map (·.text) = p'.docstrings.toList.map (·.text) := by
      rw [← List.forall₂_eq_eq_eq, List.forall₂_map_left_iff, List.forall₂_map_right_iff]
      exact docstrings.imp fun _ _ text => Eq.symm text
    have value : p'.value = p.value := Eq.trans values (Tree.rename_id p.value)
    simp only [Outcome.result?, Option.getD_some, value, texts]

end Parses

/-- A renaming of numbers, names and doc comments, and new places for all tokens, change nothing
about a parse but the names in its tree and the texts of its doc comments: both streams are pulled
equally far, both parses are unfinished, both succeed or both blame the token at the same index.
And where the words of two sources are the same, so is what they parse to. -/
theorem offerMany_renamed
    (h : Heuristics)
    (goal : Goal)
    (f : String → String) :
    (∀ ts ts', List.Forall₂ (Token.Renamed f) ts ts' →
        let fed := (driver h).offerMany (initialState goal) ts
        let fed' := (driver h).offerMany (initialState goal) ts'
        fed'.pulled = fed.pulled
          ∧ ((∃ s s', fed.outcome = .intermediate s ∧ fed'.outcome = .intermediate s'
              ∧ s.docstrings.Renamed f s'.docstrings)
            ∨ (∃ p p', fed.outcome = .success p ∧ fed'.outcome = .success p'
              ∧ p'.value = p.value.rename f ∧ p.docstrings.Renamed f p'.docstrings)
            ∨ ∃ e e' i, fed.outcome = .error e ∧ fed'.outcome = .error e'
              ∧ e.docstrings.Renamed f e'.docstrings
              ∧ ts[i]? = some e.token ∧ ts'[i]? = some e'.token ∧ fed.pulled = i + 1))
      ∧ ∀ o o' source source', wordsOf source = wordsOf source' →
        parsedSource? h goal o source = parsedSource? h goal o' source' := by
  refine ⟨fun ts ts' renamed => ?_, parsedSource?_eq h goal⟩
  intro fed fed'
  obtain ⟨pulled, outcomes⟩ := outcomes_of_renamed h goal f ts ts' renamed
  refine ⟨pulled, ?_⟩
  change (renamedBy f).Outcomes fed.outcome fed'.outcome at outcomes
  generalize arrived : fed.outcome = x, arrived' : fed'.outcome = x' at outcomes
  cases outcomes with
  | intermediate s s' states => exact .inl ⟨s, s', rfl, rfl, states.docstrings⟩
  | success p p' values docstrings => exact .inr (.inl ⟨p, p', rfl, rfl, values, docstrings⟩)
  | error e e' _ docstrings =>
    obtain ⟨i, last, blamed⟩ :=
      (driver h).exists_index_of_offerMany_error (initialState goal) ts e arrived
    obtain ⟨i', last', blamed'⟩ :=
      (driver h).exists_index_of_offerMany_error (initialState goal) ts' e' arrived'
    have sameIndex : i' = i := Nat.succ.inj (last'.symm.trans (pulled.trans last))
    rw [sameIndex] at blamed'
    exact .inr (.inr ⟨e, e', i, rfl, rfl, docstrings, blamed, blamed', last⟩)

/-- All names made one, all tokens put in one place, and a source that is laid out otherwise. -/
theorem offerMany_renamed_at_names :
    let f : String → String := fun _ => "n"
    let ts := lex "g ( ~ x =- 1 ) ^^ /**d*/ open M"
    let blank : List Token := ts.map fun t => ⟨t.kind.rename f, .point .zero⟩
    (∃ p, ((driver .all).offerMany (initialState .useFile) blank).outcome = .success p
        ∧ p.value = .phrases
          [.postfixed (.call "n" [.labeled "n" false (some (.unary "-" (.int "n")))]) ["^", "^"],
            .openItem "n"])
      ∧ parsedSource? .all .useFile .zero "  x\n^^   ;\n\n/**d*/ open M\n"
        = some (.phrases [.postfixed (.var "x") ["^", "^"], .documented "d" (.openItem "M")], []) := by
  intro f ts blank
  obtain ⟨ofStreams, ofSources⟩ := offerMany_renamed .all .useFile f
  have renamed : List.Forall₂ (Token.Renamed f) ts blank := by
    rw [List.forall₂_map_right_iff, List.forall₂_same]
    exact fun _ _ => rfl
  refine ⟨?_, ?_⟩
  · rcases (ofStreams ts blank renamed).2 with
      ⟨s, _, arrived, _⟩ | ⟨p, p', arrived, arrived', value, _⟩ | ⟨e, _, _, arrived, _⟩
    · cases arrived
    · refine ⟨p', arrived', ?_⟩
      rw [value]
      cases arrived
      rfl
    · cases arrived
  · have same : wordsOf "x ^^ ; /**d*/ open M" = wordsOf "  x\n^^   ;\n\n/**d*/ open M\n" := by
      decide
    rw [← ofSources .zero .zero _ _ same]
    rfl

end TolerantParser.Mini
