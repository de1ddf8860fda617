import NumberedBasic.Token

/-!
# Operators and comparators

The five arithmetic operators with their precedences, and the three comparators of a conditional
jump. Parentheses are grouped with the operators by their tokens alone; they have no precedence.
-/

namespace NumberedBasic

inductive Operator where
  | add
  | subtract
  | multiply
  | divide
  | power
deriving DecidableEq, Repr

namespace Operator

def symbol : Operator → String
  | .add => "+"
  | .subtract => "-"
  | .multiply => "*"
  | .divide => "/"
  | .power => "**"

def precedence : Operator → Nat
  | .add | .subtract => 10
  | .multiply | .divide => 20
  | .power => 30

def ofToken? (token : Token) : Option Operator :=
  match token.text with
  | "+" => some .add
  | "-" => some .subtract
  | "*" => some .multiply
  | "/" => some .divide
  | "**" => some .power
  | _ => none

def token (op : Operator) : Token := ⟨op.symbol⟩

/-- Whether `waiting`, read before `next`, has to be applied first. Equal precedences group to the
left, except that powers group to the right. -/
def appliesBefore (waiting next : Operator) : Bool :=
  next ≠ .power && next.precedence ≤ waiting.precedence

theorem ofToken?_eq_some_iff {token : Token} {op : Operator} :
    ofToken? token = some op ↔ token = op.token := by
  constructor
  · intro h
    cases token with
    | mk text =>
        simp only [ofToken?] at h
        split at h <;> cases h <;> rfl
  · rintro rfl
    cases op <;> rfl

end Operator

inductive Comparator where
  | less
  | greater
  | equal
deriving DecidableEq, Repr

namespace Comparator

def symbol : Comparator → String
  | .less => "<"
  | .greater => ">"
  | .equal => "="

def ofToken? (token : Token) : Option Comparator :=
  match token.text with
  | "<" => some .less
  | ">" => some .greater
  | "=" => some .equal
  | _ => none

def token (comparator : Comparator) : Token := ⟨comparator.symbol⟩

def holds : Comparator → Value → Value → Bool
  | .less, lhs, rhs => lhs < rhs
  | .greater, lhs, rhs => lhs > rhs
  | .equal, lhs, rhs => lhs = rhs

theorem ofToken?_eq_some_iff {token : Token} {comparator : Comparator} :
    ofToken? token = some comparator ↔ token = comparator.token := by
  constructor
  · intro h
    cases token with
    | mk text =>
        simp only [ofToken?] at h
        split at h <;> cases h <;> rfl
  · rintro rfl
    cases comparator <;> rfl

end Comparator

namespace Token

def isOperator (token : Token) : Bool :=
  (Operator.ofToken? token).isSome || token.isOpening || token.isClosing

def isComparator (token : Token) : Bool := (Comparator.ofToken? token).isSome

def precedence? (token : Token) : Option Nat :=
  (Operator.ofToken? token).map Operator.precedence

end Token

end NumberedBasic
