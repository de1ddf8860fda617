import NumberedBasic.Statement.Parser

/-!
# The grammar of statements

The seven forms of a statement, each a sequence of tokens with the parts that it is made of. In a
conditional jump the right side does not hold `THEN`, which as a name may stand on the left.
-/

namespace NumberedBasic

namespace Statement

inductive IsForm : List Token → Statement → Prop where
  | remark (body : List Token) :
      IsForm (Keyword.remark.token :: body) (.remark (" ".intercalate (body.map Token.text)))
  | assign {name : Token} {tokens : List Token} {value : Expression} :
      name.isName → Expression.parse tokens = .ok value →
      IsForm (Keyword.assign.token :: name :: Comparator.equal.token :: tokens)
        (.assign name.text value)
  | print {tokens : List Token} {value : Expression} :
      Expression.parse tokens = .ok value →
      IsForm (Keyword.print.token :: tokens) (.print value)
  | input {name : Token} : name.isName → IsForm [Keyword.input.token, name] (.input name.text)
  | goto {number : Token} {target : LineNumber} :
      number.lineNumber = .ok target → IsForm [Keyword.goto.token, number] (.goto target)
  | branch {left right : List Token} {lhs rhs : Expression} {comparator : Comparator}
      {number : Token} {target : LineNumber} :
      Expression.parse left = .ok lhs → Expression.parse right = .ok rhs →
      number.lineNumber = .ok target → Keyword.target.token ∉ right →
      IsForm
        (Keyword.branch.token :: left ++ comparator.token :: right ++
          [Keyword.target.token, number])
        (.branch lhs comparator rhs target)
  | finish : IsForm [Keyword.finish.token] .finish

/-- The parts of a conditional jump before any of them is read. -/
structure BranchParts where
  left : List Token
  comparator : Comparator
  right : List Token
  number : Token
deriving DecidableEq, Repr

/-- A division of tokens into the parts of a conditional jump, with an expression on either side. -/
structure BranchParts.Divides (parts : BranchParts) (tokens : List Token) : Prop where
  tokens_eq : tokens = Keyword.branch.token :: parts.left ++ parts.comparator.token :: parts.right ++
    [Keyword.target.token, parts.number]
  left_reads : ∃ lhs, Expression.parse parts.left = .ok lhs
  right_reads : ∃ rhs, Expression.parse parts.right = .ok rhs
  target_notMem : Keyword.target.token ∉ parts.right

end Statement

end NumberedBasic
