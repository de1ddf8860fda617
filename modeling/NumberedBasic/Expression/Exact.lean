import NumberedBasic.Expression.Evaluation

/-!
# The exact reading of an expression

What an expression is worth on the unbounded integers, and which of its nodes keep it from being a
value. Nodes are visited right subtree first, then left subtree, then the node.
-/

namespace NumberedBasic

/-- Division truncates toward zero, and only a divisor of zero has no result. A negative exponent gives
zero, and an exponent of zero gives one. -/
def Operator.exactValue? (op : Operator) (lhs rhs : Int) : Option Int :=
  match op with
  | .add => some (lhs + rhs)
  | .subtract => some (lhs - rhs)
  | .multiply => some (lhs * rhs)
  | .divide => if rhs = 0 then none else some (lhs.tdiv rhs)
  | .power => if rhs < 0 then some 0 else some (lhs.pow rhs.toNat)

namespace Expression

def exactValue? (bindings : Bindings) : Expression → Option Int
  | constant value => some value.toInt
  | var name => (bindings.fetch? name).map (·.toInt)
  | compound op lhs rhs => do op.exactValue? (← lhs.exactValue? bindings) (← rhs.exactValue? bindings)

/-- All subexpressions in the order in which they are visited. -/
def visits : Expression → List Expression
  | constant value => [constant value]
  | var name => [var name]
  | compound op lhs rhs => rhs.visits ++ lhs.visits ++ [compound op lhs rhs]

/-- The fault of a node whose subexpressions are all values. -/
def nodeFault? (bindings : Bindings) (node : Expression) : Option Fault :=
  match node, node.exactValue? bindings with
  | var name, none => some (.notDeclared name)
  | _, none => some .divisionByZero
  | _, some n => if (Value.ofInt? n).isNone then some .overflow else none

/-- Every variable is declared, no divisor is zero, and what a subexpression is worth is in range. -/
structure Evaluable (bindings : Bindings) (e : Expression) : Prop where
  declared : ∀ name, var name ∈ e.visits → (bindings.fetch? name).isSome
  divisors : ∀ lhs rhs, compound .divide lhs rhs ∈ e.visits → rhs.exactValue? bindings ≠ some 0
  inRange : ∀ node ∈ e.visits, ∀ n, node.exactValue? bindings = some n →
    -2147483648 ≤ n ∧ n ≤ 2147483647

end Expression

end NumberedBasic
