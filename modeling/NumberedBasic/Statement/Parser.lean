import NumberedBasic.Expression.Parser
import NumberedBasic.Statement

/-!
# Reading statements

The first token has to be a keyword and decides the form of the rest. The parts of a statement are
counted before any of them is read, so a fault inside a part is reported only where all are there.
-/

namespace NumberedBasic

namespace Statement

def incomplete (keyword : Keyword) : Except Fault Statement :=
  .error (.incompleteStatement keyword.usage)

/-- Reads what follows the keyword of a conditional jump. The first comparator ends the left side,
and the first `THEN` after it ends the right side. -/
def parseBranch (body : List Token) : Except Fault Statement :=
  if body.length < 5 then
    incomplete .branch
  else
    match body.dropWhile (!·.isComparator) with
    | [] => incomplete .branch
    | sign :: rest =>
        match Comparator.ofToken? sign, rest.dropWhile (·.text ≠ Keyword.target.text) with
        | some comparator, [_, target] => do
            let lhs ← Expression.parse (body.takeWhile (!·.isComparator))
            let rhs ← Expression.parse (rest.takeWhile (·.text ≠ Keyword.target.text))
            let line ← target.lineNumber
            return branch lhs comparator rhs line
        | _, _ => incomplete .branch

/-- Reads what follows a keyword. -/
def parseBody : Keyword → List Token → Except Fault Statement
  | .remark, body => .ok (remark (" ".intercalate (body.map Token.text)))
  | .assign, body =>
      match body with
      | name :: ⟨"="⟩ :: first :: rest => do
          let name ← name.variableName
          let value ← Expression.parse (first :: rest)
          return assign name value
      | _ => incomplete .assign
  | .print, body => if body.isEmpty then incomplete .print else (Expression.parse body).map print
  | .input, body =>
      match body with
      | [name] => name.variableName.map input
      | _ => incomplete .input
  | .goto, body =>
      match body with
      | [target] => target.lineNumber.map goto
      | _ => incomplete .goto
  | .branch, body => parseBranch body
  | .finish, body => if body.isEmpty then .ok finish else incomplete .finish
  | .target, _ => .error .thenWithoutIf

def parse : List Token → Except Fault Statement
  | [] => .error .noStatement
  | first :: body =>
      match Keyword.ofToken? first with
      | some keyword => parseBody keyword body
      | none => .error .noStatement

end Statement

end NumberedBasic
