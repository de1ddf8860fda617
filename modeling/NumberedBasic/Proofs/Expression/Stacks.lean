import NumberedBasic.Expression.Parser

/-!
# Runs of the two stacks

When each move of the reader succeeds, and what it leaves. A run over several tokens succeeds if every
token has a symbol and every push succeeds in turn.
-/

namespace NumberedBasic

namespace Expression.Parser

variable {limit : Option Nat} {applies : Operator → Bool} {op : Operator} {e : Expression}
  {waiting : List Waiting} {operands : List Operand} {state after : Stacks}

theorem combine_ok_iff {combined : List Operand} :
    combine limit op operands = .ok combined ↔
      ∃ lhs rhs rest, operands = rhs :: lhs :: rest ∧
        exceeds (1 + max lhs.depth rhs.depth) limit = false ∧
        combined = ⟨compound op lhs.expression rhs.expression, 1 + max lhs.depth rhs.depth⟩ :: rest := by
  constructor
  · intro h
    match operands, h with
    | rhs :: lhs :: rest, h =>
        simp only [combine] at h
        split at h
        next => cases h
        next hexceeds =>
          cases h
          exact ⟨lhs, rhs, rest, rfl, by simpa using hexceeds, rfl⟩
  · rintro ⟨lhs, rhs, rest, rfl, hexceeds, rfl⟩
    simp [combine, hexceeds]

/-! ### Reduction -/

theorem reduce_ok_iff_of_applies (h : applies op) :
    reduce limit applies (.operator op :: waiting) operands = .ok after ↔
      ∃ combined, combine limit op operands = .ok combined ∧
        reduce limit applies waiting combined = .ok after := by
  rw [reduce, if_pos h]
  cases combine limit op operands <;> simp

theorem reduce_of_stops (h : ∀ op, waiting.head? = some (.operator op) → applies op = false) :
    reduce limit applies waiting operands = .ok ⟨waiting, operands⟩ := by
  match waiting, h with
  | [], _ => rfl
  | .opening :: rest, _ => rfl
  | .operator op :: rest, h => simp [reduce, h op rfl]

/-- What every single application keeps is kept by a reduction. -/
theorem invariant_of_reduce {motive : Stacks → Prop}
    (hcombine : ∀ op waiting before combined, combine limit op before = .ok combined →
      motive ⟨.operator op :: waiting, before⟩ → motive ⟨waiting, combined⟩)
    (hreduce : reduce limit applies waiting operands = .ok after) (h : motive ⟨waiting, operands⟩) :
    motive after := by
  induction waiting generalizing operands with
  | nil =>
      cases hreduce
      exact h
  | cons top rest ih =>
      cases top with
      | opening =>
          cases hreduce
          exact h
      | operator op =>
          rcases Bool.eq_false_or_eq_true (applies op) with happlies | happlies
          · obtain ⟨combined, happly, hrest⟩ := (reduce_ok_iff_of_applies happlies).mp hreduce
            exact ih hrest (hcombine op rest operands combined happly h)
          · rw [reduce_of_stops (by simpa using happlies)] at hreduce
            cases hreduce
            exact h

/-! ### Pushing -/

theorem push_operator_ok_iff :
    push limit state (.operator op) = .ok after ↔
      ∃ reduced, reduce limit (·.appliesBefore op) state.waiting state.operands = .ok reduced ∧
        after = { reduced with waiting := .operator op :: reduced.waiting } := by
  simp only [push]
  cases reduce limit (·.appliesBefore op) state.waiting state.operands <;> simp [eq_comm]

theorem push_closing_ok_iff :
    push limit state .closing = .ok after ↔
      reduce limit (fun _ => true) state.waiting state.operands =
        .ok { after with waiting := .opening :: after.waiting } := by
  simp only [push]
  cases h : reduce limit (fun _ => true) state.waiting state.operands with
  | error fault => simp
  | ok reduced =>
      obtain ⟨waiting, operands⟩ := reduced
      cases waiting with
      | nil => simp
      | cons top rest =>
          cases top with
          | operator op => simp
          | opening =>
              obtain ⟨afterWaiting, afterOperands⟩ := after
              simp

theorem pushAll_cons_ok_iff {token : Token} {tokens : List Token} :
    pushAll limit state (token :: tokens) = .ok after ↔
      ∃ symbol pushed, Symbol.ofToken token = .ok symbol ∧ push limit state symbol = .ok pushed ∧
        pushAll limit pushed tokens = .ok after := by
  rw [pushAll]
  cases hsymbol : Symbol.ofToken token with
  | error fault => simp
  | ok symbol => cases hpush : push limit state symbol <;> simp [hpush]

/-- What relates the stacks to the tokens that have been read, and is kept by every push, holds of all
tokens in the end. -/
theorem invariant_of_pushAll {motive : List Token → Stacks → Prop} {read tokens : List Token}
    (hpush : ∀ read token symbol before pushed, Symbol.ofToken token = .ok symbol →
      push limit before symbol = .ok pushed → motive read before → motive (read ++ [token]) pushed)
    (h : pushAll limit state tokens = .ok after) (hstart : motive read state) :
    motive (read ++ tokens) after := by
  induction tokens generalizing read state with
  | nil =>
      cases h
      rwa [List.append_nil]
  | cons token rest ih =>
      obtain ⟨symbol, pushed, hsymbol, hpushed, hrest⟩ := pushAll_cons_ok_iff.mp h
      have hrun := ih hrest (hpush read token symbol state pushed hsymbol hpushed hstart)
      rwa [List.append_assoc, List.singleton_append] at hrun

theorem exists_symbol_of_pushAll {tokens : List Token} (h : pushAll limit state tokens = .ok after) :
    ∀ token ∈ tokens, ∃ symbol, Symbol.ofToken token = .ok symbol := by
  apply @invariant_of_pushAll _ _ _
    (fun read _ => ∀ token ∈ read, ∃ symbol, Symbol.ofToken token = .ok symbol) [] tokens _ h
  · simp
  · intro read token symbol _ _ hsymbol _ hread
    exact List.forall_mem_append.mpr ⟨hread, by simpa using ⟨symbol, hsymbol⟩⟩

/-! ### The whole reading -/

theorem conclude_ok_iff :
    conclude limit state = .ok e ↔
      ∃ depth, reduce limit (fun _ => true) state.waiting state.operands =
        .ok ⟨[], [⟨e, depth⟩]⟩ := by
  unfold conclude
  split
  next fault h => simp [h]
  next operand h =>
    obtain ⟨expression, depth⟩ := operand
    simp [h]
  next operands hne h =>
    simp only [h, reduceCtorEq, false_iff, Except.ok.injEq, Stacks.mk.injEq, true_and, not_exists]
    rintro depth rfl
    exact hne _ rfl
  next top rest operands h => simp [h]

theorem parseWithin_ok_iff {tokens : List Token} :
    parseWithin limit tokens = .ok e ↔
      hasEmptyGroup tokens = false ∧
        ∃ state, pushAll limit {} (supplyZeros true tokens) = .ok state ∧
          conclude limit state = .ok e := by
  unfold parseWithin
  cases hasEmptyGroup tokens with
  | true => simp
  | false => cases pushAll limit {} (supplyZeros true tokens) <;> simp

theorem mem_supplyZeros {token : Token} {tokens : List Token} (begins : Bool)
    (h : token ∈ tokens) : token ∈ supplyZeros begins tokens := by
  induction tokens generalizing begins with
  | nil => cases h
  | cons first rest ih =>
      have hread : token ∈ first :: supplyZeros first.isOpening rest := by
        rcases List.mem_cons.mp h with rfl | hrest
        · exact List.mem_cons_self
        · exact List.mem_cons_of_mem _ (ih _ hrest)
      rw [supplyZeros]
      split
      · exact List.mem_cons_of_mem _ hread
      · exact hread

/-- Every token of what was read is a symbol. -/
theorem exists_symbol_of_parseWithin {tokens : List Token} (h : parseWithin limit tokens = .ok e) :
    ∀ token ∈ tokens, ∃ symbol, Symbol.ofToken token = .ok symbol := by
  obtain ⟨-, state, hpush, -⟩ := parseWithin_ok_iff.mp h
  intro token hmem
  exact exists_symbol_of_pushAll hpush token (mem_supplyZeros true hmem)

end Expression.Parser

end NumberedBasic
