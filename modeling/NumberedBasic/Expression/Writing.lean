import NumberedBasic.Expression.Grammar

/-!
# Written expressions

Which trees have a listing text that could have been typed, and the sentence that this text is.
-/

namespace NumberedBasic

namespace Expression

/-- Constants and variables from left to right. -/
def leaves : Expression → List Expression
  | constant value => [constant value]
  | var name => [var name]
  | compound _ lhs rhs => lhs.leaves ++ rhs.leaves

/-- Nothing negative is a constant, and nothing but a name is a variable. -/
def Writable : Expression → Prop
  | constant value => 0 ≤ value
  | var name => Token.isName ⟨name⟩
  | compound _ lhs rhs => lhs.Writable ∧ rhs.Writable

/-- The tokens of the listing text. -/
def tokens : Expression → List Token
  | constant value => [⟨toString value⟩]
  | var name => [⟨name⟩]
  | compound op lhs rhs => ⟨"("⟩ :: (lhs.tokens ++ op.token :: rhs.tokens) ++ [⟨")"⟩]

def form : Expression → Form
  | constant value => .leaf ⟨toString value⟩
  | var name => .leaf ⟨name⟩
  | compound op lhs rhs => .compound op lhs.form rhs.form

instance decidableWritable : (e : Expression) → Decidable e.Writable
  | constant value => inferInstanceAs (Decidable (0 ≤ value))
  | var name => inferInstanceAs (Decidable (Token.isName ⟨name⟩ = true))
  | compound _ lhs rhs =>
      have := decidableWritable lhs
      have := decidableWritable rhs
      inferInstanceAs (Decidable (lhs.Writable ∧ rhs.Writable))

end Expression

end NumberedBasic
