import NumberedBasic.Operator

/-!
# Expressions

Trees over constants, variables and the five operators. The listing text of a compound is fully
parenthesized; the tree text has one node a line, children one level deeper than their parent.
-/

namespace NumberedBasic

inductive Expression where
  | constant (value : Value)
  | var (name : String)
  | compound (op : Operator) (lhs rhs : Expression)
deriving DecidableEq, Repr

/-- The margin of a line at a level of a tree text. -/
def margin (level : Nat) : String := String.ofList (List.replicate (4 * level) ' ')

namespace Expression

/-- The number of nodes on the longest way down to a leaf. -/
def depth : Expression → Nat
  | constant _ | var _ => 1
  | compound _ lhs rhs => 1 + max lhs.depth rhs.depth

def text : Expression → String
  | constant value => toString value
  | var name => name
  | compound op lhs rhs => "(" ++ lhs.text ++ " " ++ op.symbol ++ " " ++ rhs.text ++ ")"

def treeText (level : Nat) : Expression → String
  | constant value => margin level ++ toString value ++ "\n"
  | var name => margin level ++ name ++ "\n"
  | compound op lhs rhs =>
      margin level ++ op.symbol ++ "\n" ++ lhs.treeText (level + 1) ++ rhs.treeText (level + 1)

end Expression

end NumberedBasic
