import TolerantParser.Mini.Tree
import TolerantParser.Token.Basic

/-! # The grammar of expressions, level by level

    e1   ::= e1 (INFIXOP0 | '=') e2 | e2
    e2   ::= e3 INFIXOP1 e2 | e3
    e3   ::= e3 ('+' | '-' | '+.' | '-.') e4 | e4
    e4   ::= ('-' | '-.' | '+' | '+.' | '!') e4 | e5
    e5   ::= e5 POSTFIX | atom
    atom ::= INT | UIDENT | LIDENT | '(' e1 ')' | LIDENT '(' args ')'
    args ::= (arg (',' arg)*)?
    arg  ::= e1 | '~' LIDENT | '~' LIDENT '=' e1 | '~' LIDENT '=' '?' e1

`Yields p us` says that the tokens `us` derive the phrase `p`, tree included: a binary operator
makes a binary node, a prefix operator a unary one, a group none, and a postfix operator a run of
its own or, behind a run, a longer one.  It knows nothing of stacks, decisions and reductions.  Its
tables are `binaryLevels?`, `infixText?` and `prefixText?`, and `right_le_whole_iff` is the fact
about the first of them that makes the grammar unambiguous: an operand between two operators belongs
to one of them. -/

set_option autoImplicit false

namespace TolerantParser.Mini

/-! ## Levels -/

inductive Level
  | e1
  | e2
  | e3
  | e4
  | e5
  | atom
deriving DecidableEq

namespace Level

def rank : Level → Nat
  | e1 => 1
  | e2 => 2
  | e3 => 3
  | e4 => 4
  | e5 => 5
  | atom => 6

instance : LE Level := ⟨fun k l => k.rank ≤ l.rank⟩

instance (k l : Level) : Decidable (k ≤ l) := inferInstanceAs (Decidable (k.rank ≤ l.rank))

theorem le_def (k l : Level) : k ≤ l ↔ k.rank ≤ l.rank := Iff.rfl

theorem le_refl (k : Level) : k ≤ k := Nat.le_refl _

theorem le_trans
    (k l m : Level)
    (first : k ≤ l)
    (second : l ≤ m) :
    k ≤ m :=
  Nat.le_trans first second

theorem e1_le (k : Level) : e1 ≤ k := by cases k <;> decide

theorem le_atom (k : Level) : k ≤ atom := by cases k <;> decide

theorem rank_injective
    (k l : Level)
    (same : k.rank = l.rank) :
    k = l := by
  cases k <;> cases l <;> first | rfl | cases same

/-- What goes on from each level to the next looser one goes on to all looser ones. -/
theorem descend
    (P : Level → Prop)
    (step : ∀ k l : Level, k.rank = l.rank + 1 → P k → P l)
    (k l : Level)
    (looser : l ≤ k)
    (start : P k) :
    P l := by
  induction steps : k.rank - l.rank generalizing l with
  | zero =>
    have bound := (le_def l k).mp looser
    rw [rank_injective l k (by omega)]
    exact start
  | succ n ih =>
    obtain ⟨m, tighter⟩ : ∃ m : Level, m.rank = l.rank + 1 := by
      cases l with
      | e1 => exact ⟨.e2, rfl⟩
      | e2 => exact ⟨.e3, rfl⟩
      | e3 => exact ⟨.e4, rfl⟩
      | e4 => exact ⟨.e5, rfl⟩
      | e5 => exact ⟨.atom, rfl⟩
      | atom => cases k <;> simp [rank] at steps
    refine step m l tighter (ih m ?_ (by omega))
    exact (le_def m k).mpr (by omega)

end Level

/-! ## Operators -/

/-- The levels of the whole and of both operands in a production of a binary operator. -/
structure BinaryLevels where
  whole : Level
  left : Level
  right : Level
deriving DecidableEq

def binaryLevels? : Tag → Option BinaryLevels
  | .text .infixOp0 => some ⟨.e1, .e1, .e2⟩
  | .reserved .equal => some ⟨.e1, .e1, .e2⟩
  | .text .infixOp1 => some ⟨.e2, .e3, .e2⟩
  | .reserved .plus => some ⟨.e3, .e3, .e4⟩
  | .reserved .minus => some ⟨.e3, .e3, .e4⟩
  | .reserved .plusDot => some ⟨.e3, .e3, .e4⟩
  | .reserved .minusDot => some ⟨.e3, .e3, .e4⟩
  | _ => none

/-- The loosest level of an expression that a token after it does not reach into. -/
def leftLevel (t : Tag) : Level :=
  match binaryLevels? t with
  | some p => p.left
  | none => if t = .text .postfixOp then .e5 else .e1

theorem leftLevel_of_binary
    (t : Tag)
    (p : BinaryLevels)
    (binary : binaryLevels? t = some p) :
    leftLevel t = p.left := by
  simp only [leftLevel, binary]

theorem leftLevel_le_e3
    (t : Tag)
    (noPostfix : t ≠ .text .postfixOp) :
    leftLevel t ≤ .e3 := by
  have all : ∀ t ∈ Tag.all, t ≠ .text .postfixOp → leftLevel t ≤ .e3 := by decide
  exact all t t.mem_all noPostfix

/-- Neither operand of a binary operator is looser than the whole, and the right one can be an
application of a unary operator. -/
theorem binaryLevels?_bounds
    (t : Tag)
    (p : BinaryLevels)
    (binary : binaryLevels? t = some p) :
    p.whole ≤ p.left ∧ p.whole ≤ p.right ∧ p.right ≤ .e4 ∧ p.whole ≤ .e3 := by
  have all : ∀ t ∈ Tag.all, ∀ p ∈ binaryLevels? t,
      p.whole ≤ p.left ∧ p.whole ≤ p.right ∧ p.right ≤ .e4 ∧ p.whole ≤ .e3 := by decide
  exact all t t.mem_all p binary

/-- Of two operators around an operand, it belongs to the second if that one's whole can be the
right operand of the first, and to the first if its whole can be the left operand of the second.
Always one of the two holds. -/
theorem right_le_whole_iff
    (first second : Tag)
    (p q : BinaryLevels)
    (binary : binaryLevels? first = some p)
    (binary' : binaryLevels? second = some q) :
    p.right ≤ q.whole ↔ ¬ q.left ≤ p.whole := by
  have all : ∀ t ∈ Tag.all, ∀ u ∈ Tag.all, ∀ p ∈ binaryLevels? t, ∀ q ∈ binaryLevels? u,
      (p.right ≤ q.whole ↔ ¬ q.left ≤ p.whole) := by decide
  exact all first first.mem_all second second.mem_all p binary q binary'

def infixText? : Kind → Option String
  | .text .infixOp0 s => some s
  | .text .infixOp1 s => some s
  | .reserved .equal => some "="
  | .reserved .plus => some "+"
  | .reserved .minus => some "-"
  | .reserved .plusDot => some "+."
  | .reserved .minusDot => some "-."
  | _ => none

def prefixText? : Kind → Option String
  | .reserved .minus => some "-"
  | .reserved .minusDot => some "-."
  | .reserved .plus => some "+"
  | .reserved .plusDot => some "+."
  | .reserved .bang => some "!"
  | _ => none

def Tree.isPostfixed : Tree → Bool
  | .postfixed _ _ => true
  | _ => false

/-! ## Derivations -/

inductive Phrase
  | expr (level : Level) (value : Tree)
  | arg (value : Tree)
  | args (values : List Tree)

/-- The tokens that derive a phrase, one constructor for each production. -/
inductive Yields : Phrase → List Token → Prop
  /-- a level goes on to the next one -/
  | next (k l : Level) (v : Tree) (us : List Token)
      (tighter : k.rank = l.rank + 1)
      (yields : Yields (.expr k v) us) :
      Yields (.expr l v) us
  | binary (op : Token) (p : BinaryLevels) (text : String) (a b : Tree) (us vs : List Token)
      (isBinary : binaryLevels? op.tag = some p)
      (spelled : infixText? op.kind = some text)
      (left : Yields (.expr p.left a) us)
      (right : Yields (.expr p.right b) vs) :
      Yields (.expr p.whole (.binary text a b)) (us ++ op :: vs)
  | unary (op : Token) (text : String) (v : Tree) (us : List Token)
      (spelled : prefixText? op.kind = some text)
      (operand : Yields (.expr .e4 v) us) :
      Yields (.expr .e4 (.unary text v)) (op :: us)
  | postfixed (op : Token) (text : String) (v : Tree) (us : List Token)
      (isPostfix : op.kind = .text .postfixOp text)
      (flat : v.isPostfixed = false)
      (operand : Yields (.expr .e5 v) us) :
      Yields (.expr .e5 (.postfixed v [text])) (us ++ [op])
  | extended (op : Token) (text : String) (v : Tree) (ops : List String) (us : List Token)
      (isPostfix : op.kind = .text .postfixOp text)
      (run : Yields (.expr .e5 (.postfixed v ops)) us) :
      Yields (.expr .e5 (.postfixed v (ops ++ [text]))) (us ++ [op])
  | int (t : Token) (digits : String)
      (kind : t.kind = .text .int digits) :
      Yields (.expr .atom (.int digits)) [t]
  | constr (t : Token) (name : String)
      (kind : t.kind = .text .upperIdent name) :
      Yields (.expr .atom (.constr name)) [t]
  | var (t : Token) (name : String)
      (kind : t.kind = .text .lowerIdent name) :
      Yields (.expr .atom (.var name)) [t]
  | group (l r : Token) (v : Tree) (us : List Token)
      (opens : l.tag = .reserved .lparen)
      (closes : r.tag = .reserved .rparen)
      (inner : Yields (.expr .e1 v) us) :
      Yields (.expr .atom v) (l :: us ++ [r])
  | call (f l r : Token) (name : String) (values : List Tree) (us : List Token)
      (callee : f.kind = .text .lowerIdent name)
      (opens : l.tag = .reserved .lparen)
      (closes : r.tag = .reserved .rparen)
      (inner : Yields (.args values) us) :
      Yields (.expr .atom (.call name values)) (f :: l :: us ++ [r])
  | noArgs : Yields (.args []) []
  | firstArg (v : Tree) (us : List Token)
      (first : Yields (.arg v) us) :
      Yields (.args [v]) us
  | nextArg (comma : Token) (v : Tree) (values : List Tree) (us vs : List Token)
      (parts : comma.tag = .reserved .comma)
      (nonempty : values ≠ [])
      (before : Yields (.args values) us)
      (last : Yields (.arg v) vs) :
      Yields (.args (values ++ [v])) (us ++ comma :: vs)
  | plain (v : Tree) (us : List Token)
      (inner : Yields (.expr .e1 v) us) :
      Yields (.arg v) us
  | punned (tilde label : Token) (name : String)
      (marks : tilde.tag = .reserved .tilde)
      (names : label.kind = .text .lowerIdent name) :
      Yields (.arg (.labeled name false none)) [tilde, label]
  | labeled (tilde label equal : Token) (name : String) (v : Tree) (us : List Token)
      (marks : tilde.tag = .reserved .tilde)
      (names : label.kind = .text .lowerIdent name)
      (binds : equal.tag = .reserved .equal)
      (inner : Yields (.expr .e1 v) us) :
      Yields (.arg (.labeled name false (some v))) (tilde :: label :: equal :: us)
  | optional (tilde label equal question : Token) (name : String) (v : Tree) (us : List Token)
      (marks : tilde.tag = .reserved .tilde)
      (names : label.kind = .text .lowerIdent name)
      (binds : equal.tag = .reserved .equal)
      (omits : question.tag = .reserved .question)
      (inner : Yields (.expr .e1 v) us) :
      Yields (.arg (.labeled name true (some v))) (tilde :: label :: equal :: question :: us)

theorem Yields.loosen
    (k l : Level)
    (v : Tree)
    (us : List Token)
    (yields : Yields (.expr k v) us)
    (looser : l ≤ k) :
    Yields (.expr l v) us :=
  Level.descend (fun l => Yields (.expr l v) us) (fun k l => .next k l v us) k l looser yields

end TolerantParser.Mini
