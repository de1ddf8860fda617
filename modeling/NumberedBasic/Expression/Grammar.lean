import NumberedBasic.Expression

/-!
# The grammar of expressions

Sentences in layers. A sum joins terms, a term joins powers, a power joins atoms, and an atom is a
number, a name or a sentence in parentheses. Sums and terms group to the left, powers to the right. A
sum may begin with a sign if a number or a name comes next; the sign then has a zero on its left.

The tree of a sentence is over its tokens, so that a number which is no value still has its place.
-/

namespace NumberedBasic

namespace Expression

inductive Form where
  | zero
  | leaf (token : Token)
  | compound (op : Operator) (lhs rhs : Form)
deriving DecidableEq, Repr

namespace Form

def depth : Form → Nat
  | zero | leaf _ => 1
  | compound _ lhs rhs => 1 + max lhs.depth rhs.depth

/-- The expression that a form stands for, if all its numbers are values. -/
def read? : Form → Option Expression
  | zero => some (constant 0)
  | leaf token => if token.isName then some (var token.text) else token.value.toOption.map constant
  | compound op lhs rhs => do return Expression.compound op (← lhs.read?) (← rhs.read?)

end Form

/-- A token that is a whole atom. -/
def IsLeaf (token : Token) : Prop := token.isNumber ∨ token.isName

mutual

inductive IsAtom : List Token → Form → Prop where
  | leaf {token : Token} : IsLeaf token → IsAtom [token] (.leaf token)
  | group {tokens : List Token} {form : Form} :
      IsSum tokens form → IsAtom (⟨"("⟩ :: tokens ++ [⟨")"⟩]) form

inductive IsPower : List Token → Form → Prop where
  | atom {tokens : List Token} {form : Form} : IsAtom tokens form → IsPower tokens form
  | join {left right : List Token} {lhs rhs : Form} :
      IsAtom left lhs → IsPower right rhs →
      IsPower (left ++ Operator.power.token :: right) (.compound .power lhs rhs)

inductive IsTerm : List Token → Form → Prop where
  | power {tokens : List Token} {form : Form} : IsPower tokens form → IsTerm tokens form
  | join {left right : List Token} {lhs rhs : Form} {op : Operator} :
      op = .multiply ∨ op = .divide → IsTerm left lhs → IsPower right rhs →
      IsTerm (left ++ op.token :: right) (.compound op lhs rhs)

inductive IsSum : List Token → Form → Prop where
  | term {tokens : List Token} {form : Form} : IsTerm tokens form → IsSum tokens form
  | signed {first : Token} {rest : List Token} {form : Form} {op : Operator} :
      op = .add ∨ op = .subtract → IsLeaf first → IsTerm (first :: rest) form →
      IsSum (op.token :: first :: rest) (.compound op .zero form)
  | join {left right : List Token} {lhs rhs : Form} {op : Operator} :
      op = .add ∨ op = .subtract → IsSum left lhs → IsTerm right rhs →
      IsSum (left ++ op.token :: right) (.compound op lhs rhs)

end

end Expression

end NumberedBasic
