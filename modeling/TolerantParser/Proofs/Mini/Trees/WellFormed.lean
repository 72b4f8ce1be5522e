import TolerantParser.Proofs.Mini.Expression.Language
import TolerantParser.Proofs.Mini.Items.Phrases

/-! # Well-formed trees

One type holds every kind of tree, so most of its values are no tree of any text: an argument can
stand where an item should, and a run of postfix operators around another one.  `Formed` says which
trees are those of a phrase, category by category, and `WellFormed` which are the value of a goal.

What derives a tree derives a well-formed one (`Yields.formed`, `TypeYields.formed`,
`ItemYields.formed`), and whatever a run accepts is derived by tokens that it read
(`wellFormed_of_run`), so without heuristics nothing parses to any other tree
(`wellFormed_of_parsesTo`). -/

set_option autoImplicit false

namespace TolerantParser.Mini

/-- The trees of each category of phrases: a run of postfix operators is one node, labels are
arguments of a call and nothing else, and an interface declares types where every other goal has
values. -/
inductive Formed (goal : Goal) : Category → Tree → Prop
  | int (digits : String) : Formed goal .expr (.int digits)
  | var (name : String) : Formed goal .expr (.var name)
  | constr (name : String) : Formed goal .expr (.constr name)
  | unary (op : String) (e : Tree)
      (isUnary : op ∈ ["-", "-.", "+", "+.", "!"])
      (operand : Formed goal .expr e) :
      Formed goal .expr (.unary op e)
  | binary (op : String) (a b : Tree)
      (left : Formed goal .expr a)
      (right : Formed goal .expr b) :
      Formed goal .expr (.binary op a b)
  | postfixed (e : Tree) (ops : List String)
      (operand : Formed goal .expr e)
      (flat : e.isPostfixed = false)
      (nonempty : ops ≠ []) :
      Formed goal .expr (.postfixed e ops)
  | call (callee : String) (args : List Tree)
      (each : ∀ a ∈ args, Formed goal .arg a) :
      Formed goal .expr (.call callee args)
  | plain (e : Tree)
      (inner : Formed goal .expr e) :
      Formed goal .arg e
  | punned (label : String) : Formed goal .arg (.labeled label false none)
  | labeled (label : String) (isOptional : Bool) (e : Tree)
      (value : Formed goal .expr e) :
      Formed goal .arg (.labeled label isOptional (some e))
  | typeCon (name : String) : Formed goal .type (.typeCon name)
  | typeApp (ty : Tree) (con : String)
      (arg : Formed goal .type ty) :
      Formed goal .type (.typeApp ty con)
  | documented (doc : String) (i : Tree)
      (inner : Formed goal .item i) :
      Formed goal .item (.documented doc i)
  | openItem (name : String) : Formed goal .item (.openItem name)
  | exprItem (e : Tree)
      (values : goal ≠ .interface)
      (inner : Formed goal .expr e) :
      Formed goal .item e
  | letItem (name : String) (e : Tree)
      (values : goal ≠ .interface)
      (value : Formed goal .expr e) :
      Formed goal .item (.letItem name e)
  | valItem (name : String) (ty : Tree)
      (types : goal = .interface)
      (type : Formed goal .type ty) :
      Formed goal .item (.valItem name ty)

def WellFormed (goal : Goal) (v : Tree) : Prop :=
  match goal with
  | .expression => Formed goal .expr v
  | .coreType => Formed goal .type v
  | .toplevelPhrase => Formed goal .item v
  | .implementation => ∃ is, v = .implementation is ∧ ∀ i ∈ is, Formed goal .item i
  | .interface => ∃ is, v = .signature is ∧ ∀ i ∈ is, Formed goal .item i
  | .useFile => ∃ is, v = .phrases is ∧ ∀ i ∈ is, Formed goal .item i

/-! ## What is derived is well formed -/

section Derivations
variable (goal : Goal)

theorem mem_of_prefixText?
    (k : Kind)
    (text : String)
    (spelled : prefixText? k = some text) :
    text ∈ ["-", "-.", "+", "+.", "!"] := by
  unfold prefixText? at spelled
  split at spelled <;> cases spelled <;> decide

def Phrase.Formed : Phrase → Prop
  | .expr _ v => Mini.Formed goal .expr v
  | .arg v => Mini.Formed goal .arg v
  | .args vs => ∀ v ∈ vs, Mini.Formed goal .arg v

theorem Yields.formed
    (p : Phrase)
    (us : List Token)
    (yields : Yields p us) :
    p.Formed goal := by
  induction yields with
  | next _ _ _ _ _ _ ih => exact ih
  | binary _ _ text a b _ _ _ _ _ _ left right => exact .binary text a b left right
  | unary op text v _ spelled _ ih =>
    exact .unary text v (mem_of_prefixText? op.kind text spelled) ih
  | postfixed _ text v _ _ flat _ ih =>
    exact .postfixed v [text] ih flat (List.cons_ne_nil text [])
  | extended _ text v ops _ _ _ ih =>
    cases ih with
    | postfixed _ _ operand flat _ => exact .postfixed v (ops ++ [text]) operand flat (by simp)
  | int _ digits => exact .int digits
  | constr _ name => exact .constr name
  | var _ name => exact .var name
  | group _ _ _ _ _ _ _ ih => exact ih
  | call _ _ _ name values _ _ _ _ _ ih => exact .call name values ih
  | noArgs => exact fun _ member => nomatch member
  | firstArg v _ _ ih => exact List.forall_mem_singleton.mpr ih
  | nextArg _ v values _ _ _ _ _ _ before last =>
    exact List.forall_mem_append.mpr ⟨before, List.forall_mem_singleton.mpr last⟩
  | plain v _ _ ih => exact .plain v ih
  | punned _ _ name => exact .punned name
  | labeled _ _ _ name v _ _ _ _ _ ih => exact .labeled name false v ih
  | optional _ _ _ _ name v _ _ _ _ _ _ ih => exact .labeled name true v ih

theorem TypeYields.formed
    (ty : Tree)
    (us : List Token)
    (yields : TypeYields ty us) :
    Formed goal .type ty := by
  induction yields with
  | name _ _ name => exact .typeCon name
  | application _ name arg _ _ _ ih => exact .typeApp arg name ih

theorem ItemYields.formed
    (i : Tree)
    (us : List Token)
    (yields : ItemYields goal i us) :
    Formed goal .item i := by
  induction yields with
  | documented _ text i _ _ _ ih => exact .documented text i ih
  | opened _ _ name => exact .openItem name
  | bound _ _ _ name e _ values _ _ _ inner =>
    exact .letItem name e values (inner.formed goal)
  | expr e _ values inner => exact .exprItem e values (inner.formed goal)
  | declared _ _ _ name ty _ types _ _ _ inner =>
    exact .valItem name ty types (inner.formed goal)

theorem FileYields.formed
    (is : List Tree)
    (isOpen : Bool)
    (us : List Token)
    (yields : FileYields goal is isOpen us) :
    ∀ i ∈ is, Formed goal .item i := by
  induction yields with
  | empty => exact fun _ member => nomatch member
  | item _ i _ _ _ last ih =>
    exact List.forall_mem_append.mpr ⟨ih, List.forall_mem_singleton.mpr (last.formed goal)⟩
  | separator _ _ _ _ _ _ ih => exact ih

end Derivations

/-! ## What is accepted is derived -/

theorem typeYields_of_run
    (ts : List Token)
    (e : Token)
    (ty : Tree)
    (run : automaton.run ⟨.coreType, [], none⟩ (ts ++ [e]) = some (.accepted ty)) :
    TypeYields ty ts := by
  have place : Begins .coreType .type [] := .coreType rfl
  have reduce : ∀ (la : Tag) s us r s', TypeReached [] s us →
      nextAction .coreType la s.marks = .reduce r → r.apply s = some s' →
      TypeReached [] s' us := by
    intro la s us r s' reached next applied
    rcases reached.reduce .coreType [] place la s s' us r next applied with reached' | ⟨ty, rfl, _⟩
    · exact reached'
    · obtain ⟨_, _, shape⟩ := reduce_of_onType .coreType r la [] next
      cases shape
  obtain ⟨s, reached, _, complete⟩ := exists_accept_of_run .coreType (fun _ => TypeReached [])
    reduce (fun _ t s us reached next => reached.shift .coreType [] place t s us next)
    [] [] ts e ty (fun _ => .awaiting) run
  have single : s = [.type ty] := by
    unfold acceptedValue? at complete
    split at complete <;> simp_all
  subst single
  cases reached with
  | type _ _ yields => exact yields

theorem wellFormed_of_run
    (goal : Goal)
    (ts : List Token)
    (e : Token)
    (v : Tree)
    (run : automaton.run ⟨goal, startStack goal, none⟩ (ts ++ [e]) = some (.accepted v)) :
    WellFormed goal v := by
  cases goal with
  | expression => exact (yields_of_run ts e v run).formed .expression
  | coreType => exact (typeYields_of_run ts e v run).formed .coreType
  | toplevelPhrase => exact (itemYields_of_run ts e v run).formed .toplevelPhrase
  | implementation | interface | useFile =>
    obtain ⟨is, isOpen, yields, complete⟩ := exists_fileYields_of_run _ rfl ts e v run
    cases complete
    exact ⟨is, rfl, yields.formed _⟩

theorem exists_run_of_parsesTo
    (goal : Goal)
    (o : Offset)
    (ts : List Token)
    (v : Tree)
    (parses : ParsesTo goal o ts v) :
    ∃ us e, us ++ [e] <+: ts
      ∧ automaton.run ⟨goal, startStack goal, none⟩ (us ++ [e]) = some (.accepted v) := by
  obtain ⟨p, parsed, rfl⟩ := parses
  obtain ⟨s₀, start, fed⟩ := ((driver .empty).parse_eq_ok_iff goal o ts p).mp parsed
  rw [initial_driver, Except.ok.injEq] at start
  subst start
  rw [Driver.parseFrom_eq_ok_iff] at fed
  obtain ⟨before, t, rest, last, rfl, arrived, ended⟩ :=
    (driver .empty).exists_end_of_offerMany (initialState goal) ts (by rw [fed]; rfl)
  rw [fed] at ended
  have whole := (driver .empty).offerMany_of_end (initialState goal) last before [] t arrived
    (by rw [ended]; rfl)
  have size : (before ++ [t]).length = before.length + 1 := by simp
  rw [ended, ← size] at whole
  have accepted := (Driver.offerMany_of_empty_eq_success_iff automaton
    ⟨goal, startStack goal, none⟩ .empty (before ++ [t]) p).mp whole
  exact ⟨before, t, by simp, accepted.1⟩

theorem wellFormed_of_parsesTo
    (goal : Goal)
    (o : Offset)
    (ts : List Token)
    (v : Tree)
    (parses : ParsesTo goal o ts v) :
    WellFormed goal v := by
  obtain ⟨us, e, _, run⟩ := exists_run_of_parsesTo goal o ts v parses
  exact wellFormed_of_run goal us e v run

end TolerantParser.Mini
