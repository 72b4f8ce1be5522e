import TolerantParser.Mini.Automaton
import TolerantParser.Proofs.Mini.Rewriting

/-! # The stacks that a run comes by

`Begins goal c s` says that the stack `s` ends where a phrase of category `c` is to begin, and that
everything below stands where the grammar has a place for it.  `Viable goal s` describes the stacks
between two steps of a run: at such a place, or above it with a part of the phrase.

Taking up a token leads from a viable stack to a viable one (`Viable.shift`), a reduction finds its
production complete and leads to a viable stack (`Viable.reduce`), and what is accepted is the
phrase of the goal (`Viable.accept`). -/

set_option autoImplicit false

namespace TolerantParser

def Goal.isFile : Goal → Bool
  | .implementation => true
  | .interface => true
  | .useFile => true
  | _ => false

namespace Mini

inductive Category
  | item
  | expr
  | arg
  | type

inductive Begins (goal : Goal) : Category → Stack → Prop
  | expression
      (single : goal = .expression) :
      Begins goal .expr []
  | coreType
      (single : goal = .coreType) :
      Begins goal .type []
  | toplevelPhrase
      (single : goal = .toplevelPhrase) :
      Begins goal .item []
  | items (is : List Tree)
      (isFile : goal.isFile = true) :
      Begins goal .item [.items is true]
  | documented (doc : Token) (s : Stack)
      (outer : Begins goal .item s)
      (documents : doc.tag = .text .docString) :
      Begins goal .item (.token doc :: s)
  | exprItem (s : Stack)
      (outer : Begins goal .item s)
      (values : goal ≠ .interface) :
      Begins goal .expr s
  | bound (kwLet label equal : Token) (s : Stack)
      (outer : Begins goal .item s)
      (values : goal ≠ .interface)
      (lets : kwLet.tag = .reserved .kwLet)
      (names : label.tag = .text .lowerIdent)
      (binds : equal.tag = .reserved .equal) :
      Begins goal .expr (.token equal :: .token label :: .token kwLet :: s)
  | declared (kwLet label colon : Token) (s : Stack)
      (outer : Begins goal .item s)
      (types : goal = .interface)
      (lets : kwLet.tag = .reserved .kwLet)
      (names : label.tag = .text .lowerIdent)
      (declares : colon.tag = .reserved .colon) :
      Begins goal .type (.token colon :: .token label :: .token kwLet :: s)
  | group (left : Token) (s : Stack)
      (outer : Begins goal .expr s)
      (opens : left.tag = .reserved .lparen) :
      Begins goal .expr (.token left :: s)
  | unary (op : Token) (s : Stack)
      (outer : Begins goal .expr s)
      (isUnary : isUnaryOp op.tag = true) :
      Begins goal .expr (.token op :: s)
  | binary (op : Token) (p : BinaryLevels) (a : Tree) (s : Stack)
      (outer : Begins goal .expr s)
      (isBinary : binaryLevels? op.tag = some p) :
      Begins goal .expr (.token op :: .expr a :: s)
  | firstArg (f left : Token) (s : Stack)
      (outer : Begins goal .expr s)
      (callee : f.tag = .text .lowerIdent)
      (opens : left.tag = .reserved .lparen) :
      Begins goal .arg (.args [] :: .token left :: .token f :: s)
  | nextArg (f left comma : Token) (as : List Tree) (s : Stack)
      (outer : Begins goal .expr s)
      (callee : f.tag = .text .lowerIdent)
      (opens : left.tag = .reserved .lparen)
      (nonempty : as ≠ [])
      (parts : comma.tag = .reserved .comma) :
      Begins goal .arg (.token comma :: .args as :: .token left :: .token f :: s)
  | plainArg (s : Stack)
      (outer : Begins goal .arg s) :
      Begins goal .expr s
  | label (tilde label equal : Token) (s : Stack)
      (outer : Begins goal .arg s)
      (marks : tilde.tag = .reserved .tilde)
      (names : label.tag = .text .lowerIdent)
      (binds : equal.tag = .reserved .equal) :
      Begins goal .expr (.token equal :: .token label :: .token tilde :: s)
  | optionalLabel (tilde label equal question : Token) (s : Stack)
      (outer : Begins goal .arg s)
      (marks : tilde.tag = .reserved .tilde)
      (names : label.tag = .text .lowerIdent)
      (binds : equal.tag = .reserved .equal)
      (omits : question.tag = .reserved .question) :
      Begins goal .expr
        (.token question :: .token equal :: .token label :: .token tilde :: s)

inductive Viable (goal : Goal) : Stack → Prop
  | begins (c : Category) (s : Stack)
      (place : Begins goal c s) :
      Viable goal s
  | atom (t : Token) (s : Stack)
      (place : Begins goal .expr s)
      (isAtom : t.tag = .text .int ∨ t.tag = .text .lowerIdent ∨ t.tag = .text .upperIdent) :
      Viable goal (.token t :: s)
  | expr (e : Tree) (s : Stack)
      (place : Begins goal .expr s) :
      Viable goal (.expr e :: s)
  | postfixed (op : Token) (e : Tree) (s : Stack)
      (place : Begins goal .expr s)
      (isPostfix : op.tag = .text .postfixOp) :
      Viable goal (.token op :: .expr e :: s)
  | group (left right : Token) (e : Tree) (s : Stack)
      (place : Begins goal .expr s)
      (opens : left.tag = .reserved .lparen)
      (closes : right.tag = .reserved .rparen) :
      Viable goal (.token right :: .expr e :: .token left :: s)
  | called (f left : Token) (s : Stack)
      (place : Begins goal .expr s)
      (callee : f.tag = .text .lowerIdent)
      (opens : left.tag = .reserved .lparen) :
      Viable goal (.token left :: .token f :: s)
  | args (f left : Token) (as : List Tree) (s : Stack)
      (place : Begins goal .expr s)
      (callee : f.tag = .text .lowerIdent)
      (opens : left.tag = .reserved .lparen)
      (nonempty : as ≠ []) :
      Viable goal (.args as :: .token left :: .token f :: s)
  | call (f left right : Token) (as : List Tree) (s : Stack)
      (place : Begins goal .expr s)
      (callee : f.tag = .text .lowerIdent)
      (opens : left.tag = .reserved .lparen)
      (closes : right.tag = .reserved .rparen) :
      Viable goal (.token right :: .args as :: .token left :: .token f :: s)
  | tilde (tilde : Token) (s : Stack)
      (place : Begins goal .arg s)
      (marks : tilde.tag = .reserved .tilde) :
      Viable goal (.token tilde :: s)
  | label (tilde label : Token) (s : Stack)
      (place : Begins goal .arg s)
      (marks : tilde.tag = .reserved .tilde)
      (names : label.tag = .text .lowerIdent) :
      Viable goal (.token label :: .token tilde :: s)
  | kwLet (kwLet : Token) (s : Stack)
      (place : Begins goal .item s)
      (lets : kwLet.tag = .reserved .kwLet) :
      Viable goal (.token kwLet :: s)
  | binder (kwLet label : Token) (s : Stack)
      (place : Begins goal .item s)
      (lets : kwLet.tag = .reserved .kwLet)
      (names : label.tag = .text .lowerIdent) :
      Viable goal (.token label :: .token kwLet :: s)
  | kwOpen (kwOpen : Token) (s : Stack)
      (place : Begins goal .item s)
      (opens : kwOpen.tag = .reserved .kwOpen) :
      Viable goal (.token kwOpen :: s)
  | opened (kwOpen label : Token) (s : Stack)
      (place : Begins goal .item s)
      (opens : kwOpen.tag = .reserved .kwOpen)
      (names : label.tag = .text .upperIdent) :
      Viable goal (.token label :: .token kwOpen :: s)
  | typeName (t : Token) (s : Stack)
      (place : Begins goal .type s)
      (names : t.tag = .text .lowerIdent ∨ t.tag = .text .upperIdent) :
      Viable goal (.token t :: s)
  | type (ty : Tree) (s : Stack)
      (place : Begins goal .type s) :
      Viable goal (.type ty :: s)
  | typeApplication (t : Token) (ty : Tree) (s : Stack)
      (place : Begins goal .type s)
      (names : t.tag = .text .lowerIdent) :
      Viable goal (.token t :: .type ty :: s)
  | item (i : Tree) (s : Stack)
      (place : Begins goal .item s) :
      Viable goal (.item i :: s)
  | items (is : List Tree) (isOpen : Bool)
      (isFile : goal.isFile = true) :
      Viable goal [.items is isOpen]
  | closed (semi : Token) (is : List Tree) (isOpen : Bool)
      (isFile : goal.isFile = true)
      (parts : semi.tag = .reserved .semi) :
      Viable goal [.token semi, .items is isOpen]

theorem viable_startStack (goal : Goal) : Viable goal (startStack goal) := by
  cases goal with
  | implementation | interface | useFile => exact .items [] true rfl
  | expression => exact .begins .expr [] (.expression rfl)
  | coreType => exact .begins .type [] (.coreType rfl)
  | toplevelPhrase => exact .begins .item [] (.toplevelPhrase rfl)

theorem startStack_of_isFile
    (goal : Goal)
    (isFile : goal.isFile = true) :
    startStack goal = [.items [] true] := by
  cases goal with
  | implementation | interface | useFile => rfl
  | expression | coreType | toplevelPhrase => cases isFile

/-! ## Places -/

section Places
variable (goal : Goal) (s : Stack)

theorem Begins.opening
    (place : Begins goal .item s)
    (values : goal ≠ .interface) :
    Opening goal s.marks := by
  cases place with
  | toplevelPhrase single => exact .bottom (.inr single)
  | items is isFile => exact .items _ values
  | documented doc s outer documents =>
    rw [marks_cons, mark_token, documents]
    exact .documented _ values

theorem Begins.place
    (c : Category)
    (begins : Begins goal c s) :
    (c = .expr → ∃ l, Place goal (.operand l) s.marks)
      ∧ (c = .arg → Place goal .argument s.marks) := by
  induction begins with
  | expression single => exact ⟨fun _ => ⟨_, .opening _ (.bottom (.inl single))⟩, nofun⟩
  | coreType | toplevelPhrase | items | documented | declared => exact ⟨nofun, nofun⟩
  | exprItem s outer values _ =>
    exact ⟨fun _ => ⟨_, .opening _ (outer.opening goal s values)⟩, nofun⟩
  | bound kwLet label equal s _ _ lets names binds =>
    simp only [marks_cons, mark_token, lets, names, binds]
    exact ⟨fun _ => ⟨_, .opening _ (.bound _)⟩, nofun⟩
  | group left s _ opens ih =>
    obtain ⟨l, outer⟩ := ih.1 rfl
    rw [marks_cons, mark_token, opens]
    exact ⟨fun _ => ⟨_, .group l _ outer⟩, nofun⟩
  | unary op s _ isUnary ih =>
    obtain ⟨l, outer⟩ := ih.1 rfl
    exact ⟨fun _ => ⟨_, .unary op.tag l _ isUnary outer⟩, nofun⟩
  | binary op p a s _ isBinary => exact ⟨fun _ => ⟨_, .binary op.tag p _ isBinary⟩, nofun⟩
  | firstArg => exact ⟨nofun, fun _ => .firstArg _⟩
  | nextArg f left comma as s _ _ _ nonempty parts =>
    have notEmpty : as.isEmpty = false := by simp [nonempty]
    rw [marks_cons, mark_token, parts, marks_cons, mark_args, notEmpty]
    exact ⟨nofun, fun _ => .nextArg _⟩
  | plainArg s _ ih => exact ⟨fun _ => ⟨_, .plain _ (ih.2 rfl)⟩, nofun⟩
  | label tilde label equal s _ marks names binds =>
    simp only [marks_cons, mark_token, marks, names, binds]
    exact ⟨fun _ => ⟨_, .label _⟩, nofun⟩
  | optionalLabel tilde label equal question s _ marks names binds omits =>
    simp only [marks_cons, mark_token, marks, names, binds, omits]
    exact ⟨fun _ => ⟨_, .optionalLabel _⟩, nofun⟩

theorem Begins.clear
    (place : Begins goal .expr s) :
    Clear goal s.marks := by
  obtain ⟨l, place⟩ := (place.place goal s .expr).1 rfl
  exact place.clear goal _ _

/-! ## What stands on top -/

theorem Begins.tag_cases
    (c : Category)
    (t : Token)
    (place : Begins goal c (.token t :: s)) :
    t.tag ∈ [.text .docString, .reserved .equal, .reserved .colon, .reserved .lparen,
        .reserved .comma, .reserved .question]
      ∨ isUnaryOp t.tag = true ∨ (binaryLevels? t.tag).isSome = true := by
  generalize whole : Symbol.token t :: s = s' at place
  induction place with
  | exprItem s' _ _ ih | plainArg s' _ ih => exact ih whole
  | expression | coreType | toplevelPhrase | items | firstArg => cases whole
  | documented | bound | declared | group | nextArg | label | optionalLabel =>
    cases whole
    simp [*]
  | unary op s' _ isUnary =>
    cases whole
    exact .inr (.inl isUnary)
  | binary op p a s' _ isBinary =>
    cases whole
    exact .inr (.inr (by rw [isBinary]; rfl))

theorem Begins.of_docString
    (c : Category)
    (t : Token)
    (place : Begins goal c (.token t :: s))
    (documents : t.tag = .text .docString) :
    Begins goal .item (.token t :: s) := by
  generalize whole : Symbol.token t :: s = s' at place ⊢
  induction place with
  | documented doc s' outer isDoc => exact .documented doc s' outer isDoc
  | exprItem s' _ _ ih | plainArg s' _ ih => exact ih whole
  | unary op s' _ isUnary =>
    cases whole
    rw [documents] at isUnary
    cases isUnary
  | binary op p a s' _ isBinary =>
    cases whole
    rw [documents] at isBinary
    cases isBinary
  | _ => cases whole <;> simp_all

theorem Begins.top_ne
    (c : Category)
    (x : Symbol)
    (place : Begins goal c (x :: s)) :
    x.mark ≠ .expr ∧ x.mark ≠ .type ∧ x.mark ≠ .item := by
  generalize whole : x :: s = s' at place
  induction place with
  | exprItem s' _ _ ih | plainArg s' _ ih => exact ih whole
  | expression | coreType | toplevelPhrase => cases whole
  | _ =>
    cases whole
    simp

theorem Viable.place_of_item
    (i : Tree)
    (viable : Viable goal (.item i :: s)) :
    Begins goal .item s := by
  cases viable with
  | item i s place => exact place
  | begins c s place => exact absurd rfl (place.top_ne goal _ c _).2.2

theorem Viable.items_of_semi
    (t : Token)
    (viable : Viable goal (.token t :: s))
    (parts : t.tag = .reserved .semi) :
    goal.isFile = true ∧ ∃ is isOpen, s = [.items is isOpen] := by
  cases viable with
  | closed semi is isOpen isFile _ => exact ⟨isFile, is, isOpen, rfl⟩
  | begins c s place =>
    have impossible := place.tag_cases goal s c t
    rw [parts] at impossible
    exact absurd impossible (by decide)
  | _ => simp_all

theorem Viable.place_of_docString
    (t : Token)
    (viable : Viable goal (.token t :: s))
    (documents : t.tag = .text .docString) :
    Begins goal .item (.token t :: s) := by
  cases viable with
  | begins c s place => exact place.of_docString goal s c t documents
  | _ => simp_all

end Places

end Mini

end TolerantParser
