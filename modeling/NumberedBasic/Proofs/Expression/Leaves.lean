import NumberedBasic.Expression.Writing
import NumberedBasic.Proofs.Expression.Completeness

/-!
# The leaves of a tree that was read

No token that stands for a leaf is lost, and their order stays: the operands on the stack, from the
bottom to the top, have at every moment the leaves of the tokens that have been read. A tree that was
read is therefore made of constants and variables that could be written.
-/

namespace NumberedBasic

namespace Expression

namespace Parser

variable {limit : Option Nat} {applies : Operator → Bool} {op : Operator} {e : Expression}
  {waiting : List Waiting} {operands : List Operand} {state after : Stacks} {token : Token}

/-- The leaf that a token stands for. -/
def leaf? (token : Token) : Option Expression :=
  match Symbol.ofToken token with
  | .ok (.leaf e) => some e
  | _ => none

/-- All leaves on the stack, from the bottom to the top. -/
def leavesOn (operands : List Operand) : List Expression :=
  operands.reverse.flatMap (·.expression.leaves)

theorem leavesOn_cons (operand : Operand) (operands : List Operand) :
    leavesOn (operand :: operands) = leavesOn operands ++ operand.expression.leaves := by
  simp [leavesOn]

/-! ### One token -/

theorem leavesOn_combine {combined : List Operand}
    (h : combine limit op operands = .ok combined) : leavesOn combined = leavesOn operands := by
  obtain ⟨lhs, rhs, rest, rfl, -, rfl⟩ := combine_ok_iff.mp h
  simp only [leavesOn_cons, leaves, List.append_assoc]

theorem leavesOn_reduce (h : reduce limit applies waiting operands = .ok after) :
    leavesOn after.operands = leavesOn operands := by
  apply @invariant_of_reduce _ _ _ _ _ (leavesOn ·.operands = leavesOn operands) _ h
  · rfl
  · intro op waiting before combined happly hbefore
    exact (leavesOn_combine happly).trans hbefore

theorem leavesOn_push {symbol : Symbol} (hsymbol : Symbol.ofToken token = .ok symbol)
    (hpush : push limit state symbol = .ok after) :
    leavesOn after.operands = leavesOn state.operands ++ (leaf? token).toList := by
  rw [leaf?, hsymbol]
  cases symbol with
  | leaf e =>
      cases hpush
      have hleaves : e.leaves = [e] := by
        rcases Symbol.leaf_cases hsymbol with ⟨value, -, rfl⟩ | ⟨-, rfl⟩
        · rfl
        · rfl
      rw [leavesOn_cons, hleaves]
      rfl
  | operator op =>
      obtain ⟨reduced, hreduce, rfl⟩ := push_operator_ok_iff.mp hpush
      have hreduced := leavesOn_reduce hreduce
      simp [hreduced]
  | opening =>
      cases hpush
      simp
  | closing =>
      have hreduced := leavesOn_reduce (push_closing_ok_iff.mp hpush)
      have hafter : leavesOn after.operands = leavesOn state.operands := hreduced
      simp [hafter]

/-! ### All tokens -/

theorem leavesOn_pushAll {tokens : List Token} (h : pushAll limit state tokens = .ok after) :
    leavesOn after.operands = leavesOn state.operands ++ tokens.filterMap leaf? := by
  apply @invariant_of_pushAll _ _ _ (fun read after =>
    leavesOn after.operands = leavesOn state.operands ++ read.filterMap leaf?) [] tokens _ h
  · simp
  · intro read token symbol before pushed hsymbol hpushed hread
    rw [leavesOn_push hsymbol hpushed, hread, List.filterMap_append, List.append_assoc]
    cases hleaf : leaf? token with
    | none => simp [hleaf]
    | some e => simp [hleaf]

theorem mem_of_mem_supplyZeros {begins : Bool} {tokens : List Token}
    (h : token ∈ supplyZeros begins tokens) : token = ⟨"0"⟩ ∨ token ∈ tokens := by
  induction tokens generalizing begins with
  | nil => cases h
  | cons first rest ih =>
      have hread : token ∈ first :: supplyZeros first.isOpening rest →
          token = ⟨"0"⟩ ∨ token ∈ first :: rest := by
        intro hmem
        rcases List.mem_cons.mp hmem with rfl | hrest
        · exact .inr List.mem_cons_self
        · exact (ih hrest).imp id (List.mem_cons_of_mem _)
      rw [supplyZeros] at h
      split at h
      · rcases List.mem_cons.mp h with rfl | hmem
        · exact .inl rfl
        · exact hread hmem
      · exact hread h

end Parser

variable {limit : Option Nat} {tokens : List Token} {e : Expression}

theorem leaves_of_parseWithin (h : parseWithin limit tokens = .ok e) :
    e.leaves = (Parser.supplyZeros true tokens).filterMap Parser.leaf? := by
  obtain ⟨-, state, hpush, hconclude⟩ := Parser.parseWithin_ok_iff.mp h
  obtain ⟨depth, hreduce⟩ := Parser.conclude_ok_iff.mp hconclude
  have hpushed := Parser.leavesOn_pushAll hpush
  have hreduced := Parser.leavesOn_reduce hreduce
  rw [Parser.leavesOn_cons] at hreduced
  calc
    e.leaves = Parser.leavesOn state.operands := by simpa [Parser.leavesOn] using hreduced
    _ = _ := by simpa [Parser.leavesOn] using hpushed

/-! ### Writable trees -/

theorem writable_iff_leaves : e.Writable ↔ ∀ leaf ∈ e.leaves, leaf.Writable := by
  induction e with
  | constant value => simp [leaves]
  | var name => simp [leaves]
  | compound op lhs rhs ihl ihr => simp [Writable, leaves, ihl, ihr, or_imp, forall_and]

theorem Parser.writable_of_leaf? {token : Token} (h : leaf? token = some e) : e.Writable := by
  unfold leaf? at h
  split at h
  next leaf hsymbol =>
    cases h
    rcases Symbol.leaf_cases hsymbol with ⟨value, hvalue, rfl⟩ | ⟨hname, rfl⟩
    · obtain ⟨n, -, hn⟩ := Token.value_eq_ok_iff.mp hvalue
      have hnonneg : (0 : Int) ≤ n := Int.natCast_nonneg n
      rw [← Value.ofInt?_eq_some_iff.mp hn] at hnonneg
      exact Int32.le_iff_toInt_le.mpr hnonneg
    · exact hname
  next => cases h

theorem writable_of_parseWithin (h : parseWithin limit tokens = .ok e) : e.Writable := by
  rw [writable_iff_leaves, leaves_of_parseWithin h]
  intro leaf hleaf
  obtain ⟨token, -, htoken⟩ := List.mem_filterMap.mp hleaf
  exact Parser.writable_of_leaf? htoken

/-- A variable of the tree is a token that was read. -/
theorem mem_of_var_mem_leaves {name : String} (h : parseWithin limit tokens = .ok e)
    (hmem : var name ∈ e.leaves) : ⟨name⟩ ∈ tokens := by
  rw [leaves_of_parseWithin h] at hmem
  obtain ⟨token, htoken, hleaf⟩ := List.mem_filterMap.mp hmem
  unfold Parser.leaf? at hleaf
  split at hleaf
  next leaf hsymbol =>
    cases hleaf
    rcases Parser.Symbol.leaf_cases hsymbol with ⟨value, -, heq⟩ | ⟨hname, heq⟩
    · cases heq
    · cases heq
      rcases Parser.mem_of_mem_supplyZeros htoken with rfl | hread
      · exact absurd hname (by decide)
      · exact hread
  next => cases hleaf

end Expression

end NumberedBasic
