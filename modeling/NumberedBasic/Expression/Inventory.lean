import NumberedBasic.Expression.Parser
import NumberedBasic.Expression.Writing

/-!
# What an expression is made of

Tokens against the tree that was read from them: a leaf for each number and each name, a zero where a
sign has nothing on its left, a compound for each operator, and parentheses that come in pairs.
-/

namespace NumberedBasic

namespace Expression

/-- The operators of all compounds from left to right. -/
def operators : Expression → List Operator
  | constant _ | var _ => []
  | compound op lhs rhs => lhs.operators ++ op :: rhs.operators

/-- The leaves that tokens ask for, in their order: numbers, names and a zero in the place of every sign
that begins a group and stands before a number or a name. `previous` is the token before the first. -/
def places (previous : Option Token) : List Token → List Form
  | [] => []
  | token :: rest =>
      if Parser.isLeaf token then
        .leaf token :: places (some token) rest
      else if previous.all Token.isOpening && Parser.isSign token && rest.head?.any Parser.isLeaf then
        .zero :: places (some token) rest
      else
        places (some token) rest

/-- Nothing is closed that was not opened before, and all that was opened is closed. -/
structure Balanced (tokens : List Token) : Prop where
  nested : ∀ before, before <+: tokens → before.count ⟨")"⟩ ≤ before.count ⟨"("⟩
  closed : tokens.count ⟨")"⟩ = tokens.count ⟨"("⟩

/-- The tree has the leaves and the operators of the tokens and no others, and what is left of the
tokens is balanced parentheses. -/
structure Inventory (tokens : List Token) (e : Expression) : Prop where
  leaves : e.leaves.map some = (places none tokens).map Form.read?
  operators : e.operators.Perm (tokens.filterMap Operator.ofToken?)
  others : ∀ token ∈ tokens, ¬ IsLeaf token → Operator.ofToken? token = none →
    token = ⟨"("⟩ ∨ token = ⟨")"⟩
  balanced : Balanced tokens

end Expression

end NumberedBasic
