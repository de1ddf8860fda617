import NumberedBasic.Expression.Exact

/-!
# Evaluation is exact

An operator computes its result on the integers and gives it, or says that it is out of range. An
expression is therefore worth what it is worth on the integers, as long as all its subexpressions are
in range; and if it is worth nothing, then the first of them that fails says why.
-/

namespace NumberedBasic

theorem Value.ofInt?_eq_none_iff {n : Int} :
    Value.ofInt? n = none ↔ ¬ (-2147483648 ≤ n ∧ n ≤ 2147483647) := by
  unfold Value.ofInt?
  split
  next h => simp [h]
  next h => simp [h]

/-- An operator fails if there is no exact result, or if that is out of range. -/
theorem Operator.apply_eq (op : Operator) (lhs rhs : Value) :
    op.apply lhs rhs =
      (op.exactValue? lhs.toInt rhs.toInt).elim (.error .divisionByZero) checked := by
  cases op with
  | add | subtract | multiply => rfl
  | divide =>
      have hzero : rhs = 0 ↔ rhs.toInt = 0 := Int32.toInt_inj.symm
      rw [apply, exactValue?]
      by_cases h : rhs = 0
      · rw [if_pos h, if_pos (hzero.mp h), Option.elim_none]
      · rw [if_neg h, if_neg fun hrhs => h (hzero.mpr hrhs), Option.elim_some]
  | power =>
      have hnegative : rhs < 0 ↔ rhs.toInt < 0 := Int32.lt_iff_toInt_lt
      rw [apply, exactValue?]
      by_cases h : rhs < 0
      · rw [if_pos h, if_pos (hnegative.mp h), Option.elim_some]
        rfl
      · rw [if_neg h, if_neg fun hrhs => h (hnegative.mpr hrhs), Option.elim_some, raise_eq]

namespace Expression

variable {bindings : Bindings} {e node : Expression}

/-! ### Nodes -/

theorem nodeFault?_of_exactValue? {n : Int} (h : node.exactValue? bindings = some n) :
    nodeFault? bindings node = if (Value.ofInt? n).isNone then some .overflow else none := by
  cases node <;> simp only [nodeFault?, h]

/-- The faults that a node can have. -/
theorem nodeFault?_cases {fault : Fault} (h : nodeFault? bindings node = some fault) :
    (∃ name, fault = .notDeclared name) ∨ fault = .divisionByZero ∨ fault = .overflow := by
  unfold nodeFault? at h
  split at h
  next name _ => exact .inl ⟨name, (Option.some.inj h).symm⟩
  next => exact .inr (.inl (Option.some.inj h).symm)
  next =>
    split at h
    next => exact .inr (.inr (Option.some.inj h).symm)
    next => cases h

/-- A node has no fault just if what it is worth is a value. -/
theorem nodeFault?_eq_none_iff :
    nodeFault? bindings node = none ↔
      ∃ n, node.exactValue? bindings = some n ∧ -2147483648 ≤ n ∧ n ≤ 2147483647 := by
  cases hexact : node.exactValue? bindings with
  | none => cases node <;> simp [nodeFault?, hexact]
  | some n =>
      rw [nodeFault?_of_exactValue? hexact]
      simp [Value.ofInt?_eq_none_iff]

/-- An operator fails on values as its node does. -/
theorem apply_cases {op : Operator} {lhs rhs : Expression} {left right : Value}
    (hleft : lhs.exactValue? bindings = some left.toInt)
    (hright : rhs.exactValue? bindings = some right.toInt) :
    (∃ value, op.apply left right = .ok value ∧ nodeFault? bindings (compound op lhs rhs) = none ∧
      (compound op lhs rhs).exactValue? bindings = some value.toInt) ∨
    ∃ fault, op.apply left right = .error fault ∧
      nodeFault? bindings (compound op lhs rhs) = some fault := by
  have hexact : (compound op lhs rhs).exactValue? bindings =
      op.exactValue? left.toInt right.toInt := by
    rw [exactValue?, hleft, hright]
    rfl
  rw [Operator.apply_eq]
  cases hresult : op.exactValue? left.toInt right.toInt with
  | none =>
      rw [hresult] at hexact
      exact .inr ⟨.divisionByZero, rfl, by simp only [nodeFault?, hexact]⟩
  | some n =>
      rw [hresult] at hexact
      rw [nodeFault?_of_exactValue? hexact, hexact, Option.elim_some, Operator.checked]
      cases hvalue : Value.ofInt? n with
      | none => exact .inr ⟨.overflow, rfl, rfl⟩
      | some value =>
          have hn : value.toInt = n := Value.ofInt?_eq_some_iff.mp hvalue
          exact .inl ⟨value, rfl, rfl, congrArg some hn.symm⟩

/-! ### Trees -/

/-- The value is the exact one and no node fails, or the fault is that of the first node that does. -/
theorem evaluate_cases (bindings : Bindings) (e : Expression) :
    (∃ value, e.evaluate bindings = .ok value ∧ e.visits.findSome? (nodeFault? bindings) = none ∧
      e.exactValue? bindings = some value.toInt) ∨
    ∃ fault, e.evaluate bindings = .error fault ∧
      e.visits.findSome? (nodeFault? bindings) = some fault := by
  induction e with
  | constant value =>
      refine .inl ⟨value, rfl, ?_, rfl⟩
      have hnone : nodeFault? bindings (constant value) = none :=
        nodeFault?_eq_none_iff.mpr ⟨value.toInt, rfl, value.le_toInt, value.toInt_le⟩
      rw [visits, List.findSome?_singleton, hnone]
  | var name =>
      rw [visits, List.findSome?_singleton, evaluate, Bindings.fetch]
      cases hfetch : bindings.fetch? name with
      | none =>
          have hexact : (var name).exactValue? bindings = none := by rw [exactValue?, hfetch]; rfl
          exact .inr ⟨.notDeclared name, rfl, by simp only [nodeFault?, hexact]⟩
      | some value =>
          have hexact : (var name).exactValue? bindings = some value.toInt := by
            rw [exactValue?, hfetch]
            rfl
          refine .inl ⟨value, rfl, ?_, hexact⟩
          exact nodeFault?_eq_none_iff.mpr ⟨value.toInt, hexact, value.le_toInt, value.toInt_le⟩
  | compound op lhs rhs ihl ihr =>
      rw [visits, List.findSome?_append, List.findSome?_append, List.findSome?_singleton, evaluate]
      rcases ihr with ⟨right, hright, hnoneRight, hexactRight⟩ | ⟨fault, hright, hfault⟩
      · rw [hright, hnoneRight]
        rcases ihl with ⟨left, hleft, hnoneLeft, hexactLeft⟩ | ⟨fault, hleft, hfault⟩
        · rw [hleft, hnoneLeft]
          exact apply_cases hexactLeft hexactRight
        · rw [hleft, hfault]
          exact .inr ⟨fault, rfl, rfl⟩
      · rw [hright, hfault]
        exact .inr ⟨fault, rfl, rfl⟩

theorem evaluate_error {fault : Fault} (h : e.evaluate bindings = .error fault) :
    (∃ name, fault = .notDeclared name) ∨ fault = .divisionByZero ∨ fault = .overflow := by
  rcases evaluate_cases bindings e with ⟨value, heq, -⟩ | ⟨found, heq, hfound⟩
  · rw [heq] at h
    cases h
  · rw [heq] at h
    cases h
    obtain ⟨node, -, hnode⟩ := List.exists_of_findSome?_eq_some hfound
    exact nodeFault?_cases hnode

theorem mem_visits_self (e : Expression) : e ∈ e.visits := by
  cases e <;> simp [visits]

/-- Subexpressions of a subexpression are subexpressions. -/
theorem visits_subset (h : node ∈ e.visits) : node.visits ⊆ e.visits := by
  induction e with
  | constant _ | var _ =>
      rw [List.mem_singleton.mp h]
      exact List.Subset.refl _
  | compound op lhs rhs ihl ihr =>
      rw [visits, List.append_assoc, List.mem_append, List.mem_append, List.mem_singleton] at h
      rcases h with hright | hleft | rfl
      · exact List.Subset.trans (ihr hright) (by simp [visits])
      · exact List.Subset.trans (ihl hleft) (by simp [visits])
      · exact List.Subset.refl _

theorem Evaluable.of_mem_visits (h : e.Evaluable bindings) (hnode : node ∈ e.visits) :
    node.Evaluable bindings := by
  have hsubset := visits_subset hnode
  exact ⟨fun name hname => h.declared name (hsubset hname),
    fun lhs rhs hdivide => h.divisors lhs rhs (hsubset hdivide),
    fun inner hinner => h.inRange inner (hsubset hinner)⟩

theorem Evaluable.exists_exactValue? (h : e.Evaluable bindings) :
    ∃ n, e.exactValue? bindings = some n := by
  induction e with
  | constant value => exact ⟨value.toInt, rfl⟩
  | var name =>
      obtain ⟨value, hvalue⟩ := Option.isSome_iff_exists.mp (h.declared name (mem_visits_self _))
      exact ⟨value.toInt, by rw [exactValue?, hvalue]; rfl⟩
  | compound op lhs rhs ihl ihr =>
      have hlhs : lhs ∈ (compound op lhs rhs).visits := by simp [visits, mem_visits_self lhs]
      have hrhs : rhs ∈ (compound op lhs rhs).visits := by simp [visits, mem_visits_self rhs]
      obtain ⟨left, hleft⟩ := ihl (h.of_mem_visits hlhs)
      obtain ⟨right, hright⟩ := ihr (h.of_mem_visits hrhs)
      have hexact : (compound op lhs rhs).exactValue? bindings = op.exactValue? left right := by
        rw [exactValue?, hleft, hright]
        rfl
      rw [hexact]
      cases op with
      | add | subtract | multiply => exact ⟨_, rfl⟩
      | divide =>
          have hdivisor : right ≠ 0 := by
            rintro rfl
            exact h.divisors lhs rhs (mem_visits_self _) hright
          exact ⟨left.tdiv right, if_neg hdivisor⟩
      | power =>
          rw [Operator.exactValue?]
          split
          · exact ⟨0, rfl⟩
          · exact ⟨left.pow right.toNat, rfl⟩

/-- No node fails just if nothing keeps the expression from being evaluated. -/
theorem findSome?_nodeFault?_eq_none_iff :
    e.visits.findSome? (nodeFault? bindings) = none ↔ e.Evaluable bindings := by
  rw [List.findSome?_eq_none_iff]
  constructor
  · intro h
    have hexact := fun node hnode => nodeFault?_eq_none_iff.mp (h node hnode)
    refine ⟨?_, ?_, ?_⟩
    · intro name hname
      obtain ⟨n, hn, -⟩ := hexact _ hname
      obtain ⟨value, hvalue, -⟩ := Option.map_eq_some_iff.mp hn
      rw [hvalue]
      rfl
    · intro lhs rhs hdivide hzero
      obtain ⟨n, hn, -⟩ := hexact _ hdivide
      rw [exactValue?, hzero] at hn
      cases hleft : lhs.exactValue? bindings with
      | none => simp [hleft] at hn
      | some left => simp [hleft, Operator.exactValue?] at hn
    · intro node hnode n hn
      obtain ⟨m, hm, hrange⟩ := hexact node hnode
      rw [hn] at hm
      cases hm
      exact hrange
  · intro h node hnode
    obtain ⟨n, hn⟩ := (h.of_mem_visits hnode).exists_exactValue?
    exact nodeFault?_eq_none_iff.mpr ⟨n, hn, h.inRange node hnode n hn⟩

/-- An expression has a value just if nothing keeps it from having one, and that is what it is worth on
the integers. Its fault is that of the first node that fails. -/
theorem evaluate_exact (bindings : Bindings) (e : Expression) :
    (∀ value, e.evaluate bindings = .ok value ↔
      e.Evaluable bindings ∧ e.exactValue? bindings = some value.toInt) ∧
    ∀ fault, e.evaluate bindings = .error fault ↔
      e.visits.findSome? (nodeFault? bindings) = some fault := by
  rw [← findSome?_nodeFault?_eq_none_iff]
  rcases evaluate_cases bindings e with ⟨found, heq, hnone, hexact⟩ | ⟨found, heq, hfault⟩
  · rw [heq, hnone, hexact]
    refine ⟨fun value => ?_, fun fault => by simp⟩
    rw [Except.ok.injEq, Option.some.injEq, Int32.toInt_inj, eq_self_iff_true, true_and]
  · rw [heq, hfault]
    exact ⟨fun value => by simp, fun fault => by simp⟩

/-- Where both sides fail the right one is blamed. -/
example : (compound .subtract (compound .divide (var "Z") (constant 0))
    (compound .power (constant (-2)) (constant 32))).evaluate {} = .error .overflow := rfl

end Expression

end NumberedBasic
