import NumberedBasic.Expression.Merging
import NumberedBasic.Proofs.Expression.Stacks
import NumberedBasic.Proofs.Expression.Symbol

/-!
# Merging never fails inside

Only operators and opening parentheses ever wait, and a merge is reached only where something waits.
Reading by merging is therefore reading on the stacks of symbols, with the same trees and the same
faults.
-/

namespace NumberedBasic

open Expression.Parser

namespace Expression

/-- The token that waits. -/
def Parser.Waiting.token : Waiting → Token
  | .operator op => op.token
  | .opening => ⟨"("⟩

/-- Whether what waits is an operator that is to be applied. -/
def Parser.Waiting.isApplied (applies : Operator → Bool) : Waiting → Bool
  | .operator op => applies op
  | .opening => false

namespace Merging

/-- The stacks with a token for each symbol that waits. -/
def State.ofStacks (symbols : Stacks) : State :=
  ⟨symbols.waiting.map Waiting.token, symbols.operands⟩

variable {limit : Option Nat} {applies : Operator → Bool} {goesOn : State → Bool}
  {waiting : List Waiting} {operands : List Operand}

/-! ### Merges -/

theorem merge_operator (op : Operator) :
    merge limit (.ofStacks ⟨.operator op :: waiting, operands⟩) =
      (combine limit op operands).map fun combined => .ofStacks ⟨waiting, combined⟩ := by
  have hread : Operator.ofToken? op.token = some op := Operator.ofToken?_eq_some_iff.mpr rfl
  simp only [merge, State.ofStacks, List.map_cons, Waiting.token, isOpening_operator, hread]
  cases combine limit op operands <;> rfl

theorem merge_opening :
    merge limit (.ofStacks ⟨.opening :: waiting, operands⟩) = .error .unclosedParenthesis := rfl

theorem mergeWhile_of_stops {state : State} (h : goesOn state = false) :
    mergeWhile limit goesOn state = .ok state := by
  rw [mergeWhile, if_neg (by simp [h])]

theorem mergeWhile_of_goesOn {state : State} (h : goesOn state = true) :
    mergeWhile limit goesOn state = (merge limit state).bind (mergeWhile limit goesOn) := by
  rw [mergeWhile, if_pos h]
  split
  next fault hmerge => rw [hmerge]; rfl
  next merged hmerge => rw [hmerge]; rfl

theorem mergeWhile_operator {op : Operator}
    (h : goesOn (.ofStacks ⟨.operator op :: waiting, operands⟩) = true) :
    mergeWhile limit goesOn (.ofStacks ⟨.operator op :: waiting, operands⟩) =
      (combine limit op operands).bind fun combined =>
        mergeWhile limit goesOn (.ofStacks ⟨waiting, combined⟩) := by
  rw [mergeWhile_of_goesOn h, merge_operator]
  cases combine limit op operands <;> rfl

/-- A loop that stops at an opening parenthesis applies the operators above it. -/
theorem mergeWhile_ofStacks
    (hgoesOn : ∀ waiting operands, goesOn (.ofStacks ⟨waiting, operands⟩) =
      waiting.head?.any (·.isApplied applies)) :
    mergeWhile limit goesOn (.ofStacks ⟨waiting, operands⟩) =
      (reduce limit applies waiting operands).map State.ofStacks := by
  induction waiting generalizing operands with
  | nil => exact mergeWhile_of_stops (hgoesOn [] operands)
  | cons top rest ih =>
      cases top with
      | opening => exact mergeWhile_of_stops (hgoesOn (.opening :: rest) operands)
      | operator op =>
          have hop : goesOn (.ofStacks ⟨.operator op :: rest, operands⟩) = applies op :=
            hgoesOn (.operator op :: rest) operands
          cases happlies : applies op with
          | false =>
              rw [happlies] at hop
              rw [mergeWhile_of_stops hop, reduce_of_stops (by simpa using happlies)]
              rfl
          | true =>
              rw [happlies] at hop
              rw [mergeWhile_operator hop, reduce, if_pos happlies]
              cases combine limit op operands with
              | error fault => rfl
              | ok combined => exact ih

/-- The last loop goes on at an opening parenthesis, and fails there. -/
theorem mergeWhile_isWaiting :
    mergeWhile limit isWaiting (.ofStacks ⟨waiting, operands⟩) =
      (reduce limit (fun _ => true) waiting operands).bind fun reduced =>
        if reduced.waiting = [] then .ok (.ofStacks reduced) else .error .unclosedParenthesis := by
  induction waiting generalizing operands with
  | nil => exact mergeWhile_of_stops rfl
  | cons top rest ih =>
      cases top with
      | opening =>
          have hgoesOn : isWaiting (.ofStacks ⟨.opening :: rest, operands⟩) = true := rfl
          rw [mergeWhile_of_goesOn hgoesOn, merge_opening]
          rfl
      | operator op =>
          have hgoesOn : isWaiting (.ofStacks ⟨.operator op :: rest, operands⟩) = true := rfl
          rw [mergeWhile_operator hgoesOn, reduce, if_pos rfl]
          cases combine limit op operands with
          | error fault => rfl
          | ok combined => exact ih

/-! ### The loops of the levels -/

theorem isInGroup_ofStacks (waiting : List Waiting) (operands : List Operand) :
    isInGroup (.ofStacks ⟨waiting, operands⟩) =
      waiting.head?.any (·.isApplied fun _ => true) := by
  cases waiting with
  | nil => rfl
  | cons top rest =>
      cases top with
      | opening => rfl
      | operator op => cases op <;> rfl

theorem isInProduct_ofStacks (waiting : List Waiting) (operands : List Operand) :
    isInProduct (.ofStacks ⟨waiting, operands⟩) =
      waiting.head?.any (·.isApplied fun op => op.precedence ≠ Operator.add.precedence) := by
  cases waiting with
  | nil => rfl
  | cons top rest =>
      cases top with
      | opening => rfl
      | operator op => cases op <;> rfl

/-- Which loop comes before an operator depends on its level. -/
theorem push_operator (state : Stacks) (op : Operator) :
    push limit (.ofStacks state) op.token =
      (Parser.push limit state (.operator op)).map State.ofStacks := by
  obtain ⟨waiting, operands⟩ := state
  have hgroup := @mergeWhile_ofStacks limit (fun _ => true) isInGroup waiting operands
    isInGroup_ofStacks
  have hproduct := @mergeWhile_ofStacks limit _ isInProduct waiting operands isInProduct_ofStacks
  have hnever : reduce limit (fun _ => false) waiting operands = .ok ⟨waiting, operands⟩ :=
    reduce_of_stops fun _ _ => rfl
  have happlies : ∀ applies : Operator → Bool, (fun waiting => waiting.appliesBefore op) = applies →
      Parser.push limit ⟨waiting, operands⟩ (.operator op) =
        (reduce limit applies waiting operands).map fun reduced =>
          { reduced with waiting := .operator op :: reduced.waiting } := by
    rintro applies rfl
    simp only [Parser.push]
    cases reduce limit (·.appliesBefore op) waiting operands <;> rfl
  cases op with
  | power =>
      rw [happlies (fun _ => false) (funext fun waiting => rfl), hnever]
      rfl
  | add | subtract =>
      rw [happlies (fun _ => true) (funext fun waiting => by cases waiting <;> rfl)]
      change (mergeWhile limit isInGroup (.ofStacks ⟨waiting, operands⟩)).map _ = _
      rw [hgroup]
      cases reduce limit (fun _ => true) waiting operands <;> rfl
  | multiply | divide =>
      rw [happlies (fun op => op.precedence ≠ Operator.add.precedence)
        (funext fun waiting => by cases waiting <;> rfl)]
      change (mergeWhile limit isInProduct (.ofStacks ⟨waiting, operands⟩)).map _ = _
      rw [hproduct]
      cases reduce limit _ waiting operands <;> rfl

/-- A group that is closed, or the whole text, has no operator left to apply. -/
theorem waiting_of_reduce {reduced : Stacks}
    (h : reduce limit (fun _ => true) waiting operands = .ok reduced) :
    reduced.waiting = [] ∨ ∃ rest, reduced.waiting = .opening :: rest := by
  induction waiting generalizing operands with
  | nil =>
      cases h
      exact .inl rfl
  | cons top rest ih =>
      cases top with
      | opening =>
          cases h
          exact .inr ⟨rest, rfl⟩
      | operator op =>
          obtain ⟨combined, -, hrest⟩ := (reduce_ok_iff_of_applies rfl).mp h
          exact ih hrest

theorem push_closing (state : Stacks) :
    push limit (.ofStacks state) ⟨")"⟩ = (Parser.push limit state .closing).map State.ofStacks := by
  obtain ⟨waiting, operands⟩ := state
  have hgroup := @mergeWhile_ofStacks limit (fun _ => true) isInGroup waiting operands
    isInGroup_ofStacks
  change close limit (.ofStacks ⟨waiting, operands⟩) = _
  rw [close, hgroup, Parser.push]
  cases hreduce : reduce limit (fun _ => true) waiting operands with
  | error fault => rfl
  | ok reduced =>
      obtain ⟨left, values⟩ := reduced
      rcases waiting_of_reduce hreduce with hnil | ⟨rest, hopening⟩
      · obtain rfl : left = [] := hnil
        rfl
      · obtain rfl : left = .opening :: rest := hopening
        rfl

theorem push_ofStacks (state : Stacks) (token : Token) :
    push limit (.ofStacks state) token =
      (Symbol.ofToken token).bind fun symbol =>
        (Parser.push limit state symbol).map State.ofStacks := by
  by_cases hnumber : token.isNumber = true
  · rw [push, if_pos hnumber, Symbol.ofToken, if_pos hnumber]
    cases token.value <;> rfl
  by_cases hname : token.isName = true
  · rw [push, if_neg hnumber, if_pos hname, Symbol.ofToken, if_neg hnumber, if_pos hname]
    rfl
  by_cases hopening : token.isOpening = true
  · obtain rfl := Token.isOpening_iff.mp hopening
    rfl
  by_cases hclosing : token.isClosing = true
  · obtain rfl := Token.isClosing_iff.mp hclosing
    exact push_closing state
  cases hop : Operator.ofToken? token with
  | some op =>
      obtain rfl := Operator.ofToken?_eq_some_iff.mp hop
      rw [push_operator, Symbol.ofToken_operator]
      rfl
  | none =>
      have hlevel : token.precedence? = none := by rw [Token.precedence?, hop, Option.map_none]
      simp [push, Symbol.ofToken, hnumber, hname, hopening, hclosing, hop, hlevel, Except.bind]

/-! ### The whole reading -/

theorem pushAll_cons (state : State) (token : Token) (rest : List Token) :
    pushAll limit state (token :: rest) = (push limit state token).bind (pushAll limit · rest) := by
  rw [pushAll]
  cases push limit state token <;> rfl

theorem pushAll_symbol (state : Stacks) (token : Token) (rest : List Token) :
    Parser.pushAll limit state (token :: rest) =
      (Symbol.ofToken token).bind fun symbol =>
        (Parser.push limit state symbol).bind (Parser.pushAll limit · rest) := by
  rw [Parser.pushAll]
  cases Symbol.ofToken token with
  | error fault => rfl
  | ok symbol =>
      change _ = (Parser.push limit state symbol).bind (Parser.pushAll limit · rest)
      dsimp only
      cases Parser.push limit state symbol <;> rfl

theorem pushAll_ofStacks (state : Stacks) (tokens : List Token) :
    pushAll limit (.ofStacks state) tokens =
      (Parser.pushAll limit state tokens).map State.ofStacks := by
  induction tokens generalizing state with
  | nil => rfl
  | cons token rest ih =>
      rw [pushAll_cons, pushAll_symbol, push_ofStacks]
      cases Symbol.ofToken token with
      | error fault => rfl
      | ok symbol =>
          change ((Parser.push limit state symbol).map State.ofStacks).bind _ =
            ((Parser.push limit state symbol).bind _).map State.ofStacks
          cases Parser.push limit state symbol with
          | error fault => rfl
          | ok pushed => exact ih pushed

theorem conclude_ofStacks (state : Stacks) :
    conclude limit (.ofStacks state) = Parser.conclude limit state := by
  obtain ⟨waiting, operands⟩ := state
  rw [conclude, mergeWhile_isWaiting, Parser.conclude]
  cases hreduce : reduce limit (fun _ => true) waiting operands with
  | error fault => rfl
  | ok reduced =>
      obtain ⟨left, values⟩ := reduced
      cases left with
      | cons top rest => rfl
      | nil =>
          match values with
          | [] | [_] | _ :: _ :: _ => rfl

/-- Whatever the tokens, merging gives what is read on the stacks of symbols. -/
theorem parseWithin_eq (limit : Option Nat) (tokens : List Token) :
    parseWithin limit tokens = Expression.parseWithin limit tokens := by
  rw [parseWithin, Expression.parseWithin]
  by_cases hempty : hasEmptyGroup tokens = true
  · rw [if_pos hempty, if_pos hempty]
  · rw [if_neg hempty, if_neg hempty]
    have hpush := @pushAll_ofStacks limit {} (supplyZeros true tokens)
    change pushAll limit {} (supplyZeros true tokens) = _ at hpush
    rw [hpush]
    cases Parser.pushAll limit {} (supplyZeros true tokens) with
    | error fault => rfl
    | ok state => exact conclude_ofStacks state

end Merging

end Expression

end NumberedBasic
