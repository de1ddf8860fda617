import NumberedBasic.Expression.Parser

/-!
# Reading expressions by merging

The same reading with the tokens themselves on the stack of what waits. The stack may hold any token
here, so a merge has to provide for an empty stack and for a token that is no operator. Before a new
operator is pushed a loop merges what has to be applied first, with its own condition for each level
of precedence.
-/

namespace NumberedBasic

open Expression.Parser

namespace Expression.Merging

/-- Both stacks, the top first. -/
structure State where
  waiting : List Token := []
  operands : List Operand := []
deriving DecidableEq, Repr

/-- Takes the topmost token off its stack and applies it as an operator. -/
def merge (limit : Option Nat) (state : State) : Except Fault State :=
  match state.waiting with
  | [] => .error .operatorStackUnderflow
  | token :: waiting =>
      if token.isOpening then
        .error .unclosedParenthesis
      else
        match Operator.ofToken? token with
        | none => .error (.unexpected token.text)
        | some op =>
            match combine limit op state.operands with
            | .error fault => .error fault
            | .ok operands => .ok ⟨waiting, operands⟩

theorem length_lt_of_merge {limit : Option Nat} {state merged : State}
    (h : merge limit state = .ok merged) : merged.waiting.length < state.waiting.length := by
  unfold merge at h
  split at h
  next => cases h
  next token waiting hwaiting =>
    rw [hwaiting]
    split at h
    next => cases h
    next =>
      split at h
      next => cases h
      next op _ =>
        split at h
        next => cases h
        next operands _ =>
          cases h
          exact Nat.lt_succ_self _

/-- Merges for as long as the stacks satisfy `goesOn`. -/
def mergeWhile (limit : Option Nat) (goesOn : State → Bool) (state : State) : Except Fault State :=
  if goesOn state then
    match _h : merge limit state with
    | .error fault => .error fault
    | .ok merged => mergeWhile limit goesOn merged
  else
    .ok state
termination_by state.waiting.length
decreasing_by exact length_lt_of_merge _h

/-! ### When a merge goes on -/

def isWaiting (state : State) : Bool := !state.waiting.isEmpty

/-- Something waits in the group that was opened last. -/
def isInGroup (state : State) : Bool := state.waiting.head?.any (!·.isOpening)

/-- Something waits in the group that was opened last, and it is no sum. -/
def isInProduct (state : State) : Bool :=
  state.waiting.head?.any fun top =>
    !(top.isOpening || top.precedence? = some Operator.add.precedence)

/-! ### Tokens in order -/

def State.wait (state : State) (token : Token) : State :=
  { state with waiting := token :: state.waiting }

def State.complete (state : State) (expression : Expression) : State :=
  { state with operands := ⟨expression, 1⟩ :: state.operands }

/-- Ends the group that was opened last. -/
def close (limit : Option Nat) (state : State) : Except Fault State :=
  match mergeWhile limit isInGroup state with
  | .error fault => .error fault
  | .ok ⟨[], _⟩ => .error .unopenedParenthesis
  | .ok ⟨_ :: waiting, operands⟩ => .ok ⟨waiting, operands⟩

def push (limit : Option Nat) (state : State) (token : Token) : Except Fault State :=
  if token.isNumber then
    token.value.map fun value => state.complete (constant value)
  else if token.isName then
    .ok (state.complete (var token.text))
  else if token.isOpening || token.precedence? = some Operator.power.precedence then
    .ok (state.wait token)
  else if token.precedence? = some Operator.add.precedence then
    (mergeWhile limit isInGroup state).map (·.wait token)
  else if token.precedence? = some Operator.multiply.precedence then
    (mergeWhile limit isInProduct state).map (·.wait token)
  else if token.isClosing then
    close limit state
  else
    .error (.unexpected token.text)

def pushAll (limit : Option Nat) : State → List Token → Except Fault State
  | state, [] => .ok state
  | state, token :: rest =>
      match push limit state token with
      | .error fault => .error fault
      | .ok pushed => pushAll limit pushed rest

/-- Merges all that still waits. Exactly one operand must be left. -/
def conclude (limit : Option Nat) (state : State) : Except Fault Expression :=
  match mergeWhile limit isWaiting state with
  | .error fault => .error fault
  | .ok ⟨_, [operand]⟩ => .ok operand.expression
  | .ok _ => .error .notOneValue

def parseWithin (limit : Option Nat) (tokens : List Token) : Except Fault Expression :=
  if hasEmptyGroup tokens then
    .error .emptyParentheses
  else
    match pushAll limit {} (supplyZeros true tokens) with
    | .error fault => .error fault
    | .ok state => conclude limit state

end Expression.Merging

end NumberedBasic
