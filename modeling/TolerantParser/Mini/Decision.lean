import TolerantParser.Goal
import TolerantParser.Mini.Stack

/-! # Decisions of the miniature automaton

The grammar is that of a small language of expressions, types and items:

    items ::= (item (';' item)*)? ';'?
    item  ::= DOC item | 'let' LIDENT '=' expr | 'let' LIDENT ':' type | 'open' UIDENT | expr
    expr  ::= expr binop expr | prefixop expr | expr POSTFIX
            | INT | LIDENT | UIDENT | '(' expr ')' | LIDENT '(' args ')'
    args  ::= (arg (',' arg)*)?
    arg   ::= expr | '~' LIDENT | '~' LIDENT '=' '?'? expr
    type  ::= LIDENT | UIDENT | type LIDENT

An interface has `let` with a type and no expressions; every other goal has `let` with a value.
`nextAction` says what to do from the goal, the marks of the stack and the tag of the token that
was offered.  It refuses a token as soon as the tokens before it cannot go on with one like it. -/

set_option autoImplicit false

namespace TolerantParser.Mini

inductive Reduction
  | atom
  | group
  | openCall
  | closeCall
  | argument
  | punnedLabel
  | labeledArgument
  | unaryOp
  | postfixOp
  | binaryOp
  | typeName
  | typeApplication
  | exprItem
  | letItem
  | valItem
  | openItem
  | docItem
  | appendItem
  | closeItem
deriving DecidableEq

inductive Action
  | shift
  | reduce (r : Reduction)
  | accept
  | error
deriving DecidableEq

namespace Action

def shiftIf (b : Bool) : Action := if b then shift else error

def reduceIf (b : Bool) (r : Reduction) : Action := if b then reduce r else error

theorem shiftIf_eq_shift_iff (b : Bool) : shiftIf b = shift ↔ b = true := by
  cases b <;> simp [shiftIf]

theorem shiftIf_ne_reduce
    (b : Bool)
    (r : Reduction) :
    shiftIf b ≠ reduce r := by
  cases b <;> simp [shiftIf]

theorem shiftIf_ne_accept (b : Bool) : shiftIf b ≠ accept := by
  cases b <;> simp [shiftIf]

theorem reduceIf_eq_reduce_iff
    (b : Bool)
    (r r' : Reduction) :
    reduceIf b r = reduce r' ↔ b = true ∧ r = r' := by
  cases b <;> simp [reduceIf]

theorem reduceIf_ne_shift
    (b : Bool)
    (r : Reduction) :
    reduceIf b r ≠ shift := by
  cases b <;> simp [reduceIf]

theorem reduceIf_ne_accept
    (b : Bool)
    (r : Reduction) :
    reduceIf b r ≠ accept := by
  cases b <;> simp [reduceIf]

end Action

/-! ## Classes of tokens -/

/-- How tightly a binary operator binds, and whether it groups to the right among its equals. -/
structure Binding where
  level : Nat
  isRight : Bool
deriving DecidableEq

/-- Whether an operand between the two operators belongs to the second. -/
def Binding.yieldsTo (left right : Binding) : Bool :=
  left.level < right.level || (left.level == right.level && left.isRight)

def binding? : Tag → Option Binding
  | .text .infixOp0 => some ⟨1, false⟩
  | .reserved .equal => some ⟨1, false⟩
  | .text .infixOp1 => some ⟨2, true⟩
  | .reserved .plus => some ⟨3, false⟩
  | .reserved .minus => some ⟨3, false⟩
  | .reserved .plusDot => some ⟨3, false⟩
  | .reserved .minusDot => some ⟨3, false⟩
  | _ => none

def isUnaryOp : Tag → Bool
  | .reserved .minus => true
  | .reserved .minusDot => true
  | .reserved .plus => true
  | .reserved .plusDot => true
  | .reserved .bang => true
  | _ => false

def startsOperand : Tag → Bool
  | .text .int => true
  | .text .lowerIdent => true
  | .text .upperIdent => true
  | .reserved .lparen => true
  | t => isUnaryOp t

def startsArg (t : Tag) : Bool := startsOperand t || t == .reserved .tilde

def startsType : Tag → Bool
  | .text .lowerIdent => true
  | .text .upperIdent => true
  | _ => false

def startsItem (goal : Goal) : Tag → Bool
  | .reserved .kwLet => true
  | .reserved .kwOpen => true
  | .text .docString => true
  | t => goal != .interface && startsOperand t

def endsItem : Tag → Bool
  | .reserved .semi => true
  | .eof => true
  | _ => false

def endsArg : Tag → Bool
  | .reserved .comma => true
  | .reserved .rparen => true
  | _ => false

/-! ## Contexts -/

/-- Whether a name above these marks is part of a type. -/
def inType (goal : Goal) : List Mark → Bool
  | [] => goal == .coreType
  | .type :: _ => true
  | .token (.reserved .colon) :: _ => true
  | _ => false

def isLabel : List Mark → Bool
  | .token (.text .lowerIdent) :: .token (.reserved .tilde) :: _ => true
  | _ => false

def isBinder : List Mark → Bool
  | _ :: .token (.reserved .kwLet) :: _ => true
  | _ => false

/-! ## Decisions by the top of the stack

In each of these `below` holds the marks under the top one. -/

def onEmpty (goal : Goal) (la : Tag) : Action :=
  match goal with
  | .expression => .shiftIf (startsOperand la)
  | .coreType => .shiftIf (startsType la)
  | .toplevelPhrase => .shiftIf (startsItem goal la)
  | _ => .error

def onLowerIdent (goal : Goal) (la : Tag) (below : List Mark) : Action :=
  match below with
  | .token (.reserved .tilde) :: _ =>
    if la = .reserved .equal then .shift else .reduceIf (endsArg la) .punnedLabel
  | .token (.reserved .kwLet) :: _ =>
    .shiftIf (la == .reserved (if goal = .interface then .colon else .equal))
  | .type :: _ => .reduce .typeApplication
  | _ =>
    if inType goal below then .reduce .typeName
    else if la = .reserved .lparen then .shift
    else .reduce .atom

def onUpperIdent (goal : Goal) (la : Tag) (below : List Mark) : Action :=
  match below with
  | .token (.reserved .kwOpen) :: _ => .reduceIf (endsItem la) .openItem
  | _ => if inType goal below then .reduce .typeName else .reduce .atom

def onLParen (la : Tag) (below : List Mark) : Action :=
  match below with
  | .token (.text .lowerIdent) :: _ => .reduce .openCall
  | _ => .shiftIf (startsOperand la)

def onRParen (below : List Mark) : Action :=
  match below with
  | .args _ :: _ => .reduce .closeCall
  | .expr :: _ => .reduce .group
  | _ => .error

def onSemi (below : List Mark) : Action :=
  match below with
  | .items _ :: _ => .reduce .closeItem
  | _ => .error

def onToken (goal : Goal) (la top : Tag) (below : List Mark) : Action :=
  match top with
  | .text .int => .reduce .atom
  | .text .lowerIdent => onLowerIdent goal la below
  | .text .upperIdent => onUpperIdent goal la below
  | .text .docString => .shiftIf (startsItem goal la)
  | .text .infixOp0 => .shiftIf (startsOperand la)
  | .text .infixOp1 => .shiftIf (startsOperand la)
  | .text .postfixOp => .reduce .postfixOp
  | .reserved .lparen => onLParen la below
  | .reserved .rparen => onRParen below
  | .reserved .semi => onSemi below
  | .reserved .equal =>
    .shiftIf ((isLabel below && la == .reserved .question) || startsOperand la)
  | .reserved .question => .shiftIf (startsOperand la)
  | .reserved .comma => .shiftIf (startsArg la)
  | .reserved .tilde => .shiftIf (la == .text .lowerIdent)
  | .reserved .kwLet => .shiftIf (la == .text .lowerIdent)
  | .reserved .kwOpen => .shiftIf (la == .text .upperIdent)
  | .reserved .colon => .shiftIf (startsType la)
  | _ => .shiftIf (isUnaryOp top && startsOperand la)

/-- Whether the operator under a complete operand takes it.  A binary operator leaves it to one
that binds tighter. -/
def operatorBelow (la : Tag) : List Mark → Option Action
  | .token op :: .expr :: _ => (binding? op).map fun left =>
    if (binding? la).any left.yieldsTo then .shift else .reduce .binaryOp
  | .token op :: _ => if isUnaryOp op then some (.reduce .unaryOp) else none
  | _ => none

/-- What a complete expression is for, where no operator is left to take it. -/
def closeExpr (goal : Goal) (la : Tag) (below : List Mark) : Action :=
  match below with
  | [] =>
    if goal = .expression then if la = .eof then .accept else .error
    else .reduceIf (endsItem la) .exprItem
  | .items _ :: _ => .reduceIf (endsItem la) .exprItem
  | .token (.text .docString) :: _ => .reduceIf (endsItem la) .exprItem
  | .args _ :: _ => .reduceIf (endsArg la) .argument
  | .token (.reserved .comma) :: _ => .reduceIf (endsArg la) .argument
  | .token (.reserved .question) :: _ => .reduceIf (endsArg la) .labeledArgument
  | .token (.reserved .lparen) :: _ => .shiftIf (la == .reserved .rparen)
  | .token (.reserved .equal) :: rest =>
    if isLabel rest then .reduceIf (endsArg la) .labeledArgument
    else if isBinder rest then .reduceIf (endsItem la) .letItem
    else .error
  | _ => .error

def onExpr (goal : Goal) (la : Tag) (below : List Mark) : Action :=
  if la = .text .postfixOp then .shift
  else match operatorBelow la below with
    | some action => action
    | none => if (binding? la).isSome then .shift else closeExpr goal la below

def onArgs (la : Tag) (isEmpty : Bool) : Action :=
  match la with
  | .reserved .rparen => .shift
  | .reserved .comma => .shiftIf (!isEmpty)
  | _ => .shiftIf (isEmpty && startsArg la)

def onType (goal : Goal) (la : Tag) (below : List Mark) : Action :=
  match la, below with
  | .text .lowerIdent, _ => .shift
  | .eof, [] => if goal = .coreType then .accept else .error
  | _, .token (.reserved .colon) :: _ => .reduceIf (endsItem la) .valItem
  | _, _ => .error

def onItem (la : Tag) (below : List Mark) : Action :=
  match below with
  | .token (.text .docString) :: _ => .reduce .docItem
  | .items _ :: _ => .reduce .appendItem
  | [] => if endsItem la then .accept else .error
  | _ => .error

def onItems (goal : Goal) (la : Tag) (isOpen : Bool) : Action :=
  match la with
  | .eof => .accept
  | .reserved .semi => .shift
  | _ => .shiftIf (isOpen && startsItem goal la)

def nextAction (goal : Goal) (la : Tag) : List Mark → Action
  | [] => onEmpty goal la
  | .token top :: below => onToken goal la top below
  | .expr :: below => onExpr goal la below
  | .args isEmpty :: _ => onArgs la isEmpty
  | .type :: below => onType goal la below
  | .item :: below => onItem la below
  | .items isOpen :: _ => onItems goal la isOpen

end TolerantParser.Mini
