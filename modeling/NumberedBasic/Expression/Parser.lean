import NumberedBasic.Expression

/-!
# Reading expressions

Infix text becomes a tree on two stacks, one of the operators and parentheses that still wait and one
of the operands that are complete. Which operators are applied before a new one is pushed depends on
precedence alone, so the reader never asks whether operands and operators alternate; it counts what is
left at the end.

Each operand carries the depth of its tree. Where a limit is given, a tree that would exceed it is
refused when it is built.
-/

namespace NumberedBasic

namespace Expression

/-- The deepest tree that is read. Evaluating and printing recurse once for each level. -/
def depthLimit : Nat := 256

namespace Parser

/-! ### Signs -/

/-- Some opening parenthesis is followed at once by a closing one. -/
def hasEmptyGroup : List Token → Bool
  | [] => false
  | token :: rest => (token.isOpening && rest.head?.any Token.isClosing) || hasEmptyGroup rest

def isSign (token : Token) : Bool := token.text = "+" || token.text = "-"

def isLeaf (token : Token) : Bool := token.isNumber || token.isName

/-- Puts a zero before every sign that begins a group and stands before a number or a name, which
makes the sign an operator like any other. `atStart` tells whether a group begins here. -/
def supplyZeros (atStart : Bool) : List Token → List Token
  | [] => []
  | token :: rest =>
      let read := token :: supplyZeros token.isOpening rest
      if atStart && isSign token && rest.head?.any isLeaf then ⟨"0"⟩ :: read else read

/-! ### The two stacks -/

/-- What a token is to the reader. -/
inductive Symbol where
  | leaf (expression : Expression)
  | operator (op : Operator)
  | opening
  | closing
deriving DecidableEq, Repr

def Symbol.ofToken (token : Token) : Except Fault Symbol :=
  if token.isNumber then
    token.value.map fun value => leaf (constant value)
  else if token.isName then
    .ok (leaf (var token.text))
  else if token.isOpening then
    .ok opening
  else if token.isClosing then
    .ok closing
  else
    match Operator.ofToken? token with
    | some op => .ok (operator op)
    | none => .error (.unexpected token.text)

/-- What waits for its right end: an operator, or a group that is still open. -/
inductive Waiting where
  | operator (op : Operator)
  | opening
deriving DecidableEq, Repr

structure Operand where
  expression : Expression
  depth : Nat
deriving DecidableEq, Repr

/-- Both stacks, the top first. -/
structure Stacks where
  waiting : List Waiting := []
  operands : List Operand := []
deriving DecidableEq, Repr

def exceeds (depth : Nat) : Option Nat → Bool
  | some limit => limit < depth
  | none => false

/-- Applies an operator to the two topmost operands, the right one on top. -/
def combine (limit : Option Nat) (op : Operator) : List Operand → Except Fault (List Operand)
  | rhs :: lhs :: rest =>
      let depth := 1 + max lhs.depth rhs.depth
      if exceeds depth limit then
        .error .tooComplex
      else
        .ok (⟨compound op lhs.expression rhs.expression, depth⟩ :: rest)
  | _ => .error .missingOperand

/-- Applies waiting operators from the top for as long as they satisfy `applies`. An open group
stops it. -/
def reduce (limit : Option Nat) (applies : Operator → Bool) :
    List Waiting → List Operand → Except Fault Stacks
  | .operator op :: waiting, operands =>
      if applies op then
        match combine limit op operands with
        | .ok combined => reduce limit applies waiting combined
        | .error fault => .error fault
      else
        .ok ⟨.operator op :: waiting, operands⟩
  | waiting, operands => .ok ⟨waiting, operands⟩

def push (limit : Option Nat) (state : Stacks) : Symbol → Except Fault Stacks
  | .leaf expression => .ok { state with operands := ⟨expression, 1⟩ :: state.operands }
  | .opening => .ok { state with waiting := .opening :: state.waiting }
  | .operator op =>
      match reduce limit (·.appliesBefore op) state.waiting state.operands with
      | .ok reduced => .ok { reduced with waiting := .operator op :: reduced.waiting }
      | .error fault => .error fault
  | .closing =>
      match reduce limit (fun _ => true) state.waiting state.operands with
      | .ok ⟨.opening :: waiting, operands⟩ => .ok ⟨waiting, operands⟩
      | .ok _ => .error .unopenedParenthesis
      | .error fault => .error fault

def pushAll (limit : Option Nat) : Stacks → List Token → Except Fault Stacks
  | state, [] => .ok state
  | state, token :: rest =>
      match Symbol.ofToken token with
      | .error fault => .error fault
      | .ok symbol =>
          match push limit state symbol with
          | .error fault => .error fault
          | .ok pushed => pushAll limit pushed rest

/-- Applies all that still waits. Exactly one operand must be left. -/
def conclude (limit : Option Nat) (state : Stacks) : Except Fault Expression :=
  match reduce limit (fun _ => true) state.waiting state.operands with
  | .error fault => .error fault
  | .ok ⟨[], [operand]⟩ => .ok operand.expression
  | .ok ⟨[], _⟩ => .error .notOneValue
  | .ok ⟨_ :: _, _⟩ => .error .unclosedParenthesis

end Parser

/-- Reads an expression of any depth up to `limit`, or of any depth at all. -/
def parseWithin (limit : Option Nat) (tokens : List Token) : Except Fault Expression :=
  if Parser.hasEmptyGroup tokens then
    .error .emptyParentheses
  else
    match Parser.pushAll limit {} (Parser.supplyZeros true tokens) with
    | .error fault => .error fault
    | .ok state => Parser.conclude limit state

def parse (tokens : List Token) : Except Fault Expression := parseWithin (some depthLimit) tokens

end Expression

end NumberedBasic
