import NumberedBasic.Expression.Inventory
import NumberedBasic.Proofs.Expression.Leaves

/-!
# The inventory of a tree that was read

Whatever sequence of tokens is accepted, sentence or not, nothing of it is lost and nothing is added.
At every moment the operators that wait and those inside the operands are the operators that have been
read; the leaves and the open groups are counted along the same run.
-/

namespace NumberedBasic

namespace Expression

/-! ### Leaves -/

namespace Parser

variable {token : Token} {tokens : List Token}

theorem exists_leaf?_of_isLeaf (hleaf : IsLeaf token) (hfits : token.Fits) :
    ∃ e, leaf? token = some e ∧ (Form.leaf token).read? = some e := by
  have hatom : IsAtom [token] (.leaf token) := .leaf hleaf
  obtain ⟨e, hread⟩ := hatom.exists_read? (by simpa using hfits)
  refine ⟨e, ?_, hread⟩
  rw [leaf?, Symbol.ofToken_leaf hleaf hread]

theorem leaf?_eq_none (h : ¬ IsLeaf token) : leaf? token = none := by
  unfold leaf?
  split
  next e hsymbol =>
    rcases Symbol.ofToken_cases hsymbol with ⟨hleaf, -⟩ | ⟨_, -, heq⟩ | ⟨-, heq⟩ | ⟨-, heq⟩
    · exact absurd hleaf h
    all_goals cases heq
  next => rfl

/-- The zeros that are supplied have the places that signs give them. -/
theorem leaves_supplyZeros (previous : Option Token)
    (h : ∀ token ∈ tokens, token.Fits) :
    ((supplyZeros (previous.all Token.isOpening) tokens).filterMap leaf?).map some =
      (places previous tokens).map Form.read? := by
  induction tokens generalizing previous with
  | nil => rfl
  | cons token rest ih =>
      obtain ⟨hfits, hrest⟩ := List.forall_mem_cons.mp h
      have htail := ih (some token) hrest
      rw [Option.all_some] at htail
      by_cases hleaf : IsLeaf token
      · obtain ⟨e, hfound, hread⟩ := exists_leaf?_of_isLeaf hleaf hfits
        simp [supplyZeros, places, isLeaf_eq_true_iff.mpr hleaf, hleaf.isSign, hfound, hread, htail]
      · -- A sign is no leaf, so this is the only case in which a zero can stand.
        have hnot : isLeaf token = false := by
          rw [Bool.eq_false_iff, ne_eq, isLeaf_eq_true_iff]
          exact hleaf
        have hzero : leaf? ⟨"0"⟩ = some (constant 0) := rfl
        have hread : Form.zero.read? = some (constant 0) := rfl
        rw [supplyZeros, places, hnot, if_neg Bool.false_ne_true]
        split
        · simp [hzero, hread, leaf?_eq_none hleaf, htail]
        · simp [leaf?_eq_none hleaf, htail]

end Parser

/-! ### Operators -/

namespace Parser

variable {limit : Option Nat} {applies : Operator → Bool} {op : Operator}
  {waiting : List Waiting} {operands : List Operand} {state after : Stacks} {token : Token}

def Waiting.operator? : Waiting → Option Operator
  | .operator op => some op
  | .opening => none

/-- All operators on the stacks, those that wait and those that have been applied. -/
def operatorsOn (state : Stacks) : List Operator :=
  state.waiting.filterMap Waiting.operator? ++ state.operands.flatMap (·.expression.operators)

theorem operatorsOn_operator (op : Operator) (waiting : List Waiting) (operands : List Operand) :
    operatorsOn ⟨.operator op :: waiting, operands⟩ = op :: operatorsOn ⟨waiting, operands⟩ := rfl

theorem operatorsOn_opening (waiting : List Waiting) (operands : List Operand) :
    operatorsOn ⟨.opening :: waiting, operands⟩ = operatorsOn ⟨waiting, operands⟩ := rfl

theorem operatorsOn_combine {combined : List Operand} (h : combine limit op operands = .ok combined) :
    (operatorsOn ⟨waiting, combined⟩).Perm (operatorsOn ⟨.operator op :: waiting, operands⟩) := by
  obtain ⟨lhs, rhs, rest, rfl, -, rfl⟩ := combine_ok_iff.mp h
  have hswap : (lhs.expression.operators ++ op :: rhs.expression.operators).Perm
      (op :: (rhs.expression.operators ++ lhs.expression.operators)) :=
    List.perm_middle.trans (List.perm_append_comm.cons op)
  rw [operatorsOn_operator]
  simp only [operatorsOn, List.flatMap_cons, operators]
  apply List.Perm.trans ((hswap.append_right _).append_left _)
  simp only [List.cons_append, List.append_assoc]
  exact List.perm_middle

theorem operatorsOn_reduce (h : reduce limit applies waiting operands = .ok after) :
    (operatorsOn after).Perm (operatorsOn ⟨waiting, operands⟩) := by
  apply invariant_of_reduce _ h
  · exact .refl _
  · intro op rest before combined hcombine hbefore
    exact (operatorsOn_combine hcombine).trans hbefore

theorem operators_eq_nil_of_leaf {e : Expression} (h : Symbol.ofToken token = .ok (.leaf e)) :
    e.operators = [] := by
  rcases Symbol.leaf_cases h with ⟨value, -, rfl⟩ | ⟨-, rfl⟩
  · rfl
  · rfl

theorem ofToken?_eq_none_of_isLeaf (h : IsLeaf token) : Operator.ofToken? token = none := by
  rw [Option.eq_none_iff_forall_ne_some]
  intro op hop
  obtain rfl := Operator.ofToken?_eq_some_iff.mp hop
  exact not_isLeaf_operator op h

theorem operatorsOn_push {symbol : Symbol} (hsymbol : Symbol.ofToken token = .ok symbol)
    (hpush : push limit state symbol = .ok after) :
    (operatorsOn after).Perm ((Operator.ofToken? token).toList ++ operatorsOn state) := by
  rcases Symbol.ofToken_cases hsymbol with
    ⟨hleaf, -, e, rfl, -⟩ | ⟨op, rfl, rfl⟩ | ⟨rfl, rfl⟩ | ⟨rfl, rfl⟩
  · cases hpush
    rw [ofToken?_eq_none_of_isLeaf hleaf]
    simp [operatorsOn, operators_eq_nil_of_leaf hsymbol]
  · obtain ⟨reduced, hreduce, rfl⟩ := push_operator_ok_iff.mp hpush
    rw [operatorsOn_operator, Operator.ofToken?_eq_some_iff.mpr rfl]
    exact (operatorsOn_reduce hreduce).cons op
  · cases hpush
    exact .refl _
  · have hreduced := operatorsOn_reduce (push_closing_ok_iff.mp hpush)
    rw [operatorsOn_opening] at hreduced
    exact hreduced

theorem operatorsOn_pushAll {tokens : List Token} (h : pushAll limit state tokens = .ok after) :
    (operatorsOn after).Perm (tokens.filterMap Operator.ofToken? ++ operatorsOn state) := by
  apply @invariant_of_pushAll _ _ _ (fun read after => (operatorsOn after).Perm
    (read.filterMap Operator.ofToken? ++ operatorsOn state)) [] tokens _ h
  · exact .refl _
  · intro read token symbol before pushed hsymbol hpushed hread
    apply ((operatorsOn_push hsymbol hpushed).trans (hread.append_left _)).trans
    rw [List.filterMap_append]
    cases hop : Operator.ofToken? token with
    | none => simp [hop]
    | some op =>
        simp only [Option.toList_some, List.filterMap_cons, hop, List.filterMap_nil,
          List.append_assoc, List.singleton_append]
        exact List.perm_middle.symm

/-- No operator is supplied. -/
theorem filterMap_ofToken?_supplyZeros (begins : Bool) (tokens : List Token) :
    (supplyZeros begins tokens).filterMap Operator.ofToken? =
      tokens.filterMap Operator.ofToken? := by
  induction tokens generalizing begins with
  | nil => rfl
  | cons token rest ih =>
      have hzero : Operator.ofToken? ⟨"0"⟩ = none := rfl
      rw [supplyZeros]
      split
      · simp [hzero, List.filterMap_cons, ih]
      · simp [List.filterMap_cons, ih]

end Parser

/-! ### Parentheses -/

theorem forall_prefix_cons_iff {α : Type} {holds : List α → Prop} {first : α} {rest : List α} :
    (∀ before, before <+: first :: rest → holds before) ↔
      holds [] ∧ ∀ before, before <+: rest → holds (first :: before) := by
  constructor
  · intro h
    exact ⟨h [] List.nil_prefix, fun before hbefore =>
      h (first :: before) (List.cons_prefix_cons.mpr ⟨rfl, hbefore⟩)⟩
  · rintro ⟨hnil, hcons⟩ before hbefore
    rcases List.prefix_cons_iff.mp hbefore with rfl | ⟨others, rfl, hothers⟩
    · exact hnil
    · exact hcons others hothers

/-- Those that close never get ahead of those that have opened, and catch up in the end. -/
theorem count_of_closes {tokens : List Token} {opened : Nat} (h : closes opened tokens) :
    (∀ before, before <+: tokens → before.count ⟨")"⟩ ≤ opened + before.count ⟨"("⟩) ∧
      tokens.count ⟨")"⟩ = opened + tokens.count ⟨"("⟩ := by
  induction tokens generalizing opened with
  | nil =>
      obtain rfl := closes_nil h
      simp
  | cons token rest ih =>
      rw [forall_prefix_cons_iff]
      by_cases hopening : token = ⟨"("⟩
      · subst hopening
        rw [closes_opening] at h
        obtain ⟨hnested, hclosed⟩ := ih h
        have hne : (⟨"("⟩ : Token) ≠ ⟨")"⟩ := by decide
        simp only [List.count_cons_self, List.count_cons_of_ne hne]
        refine ⟨⟨by simp, fun before hbefore => ?_⟩, by omega⟩
        have hle := hnested before hbefore
        omega
      by_cases hclosing : token = ⟨")"⟩
      · subst hclosing
        obtain ⟨outer, rfl, hrest⟩ := closes_closing h
        obtain ⟨hnested, hclosed⟩ := ih hrest
        simp only [List.count_cons_self, List.count_cons_of_ne hopening]
        refine ⟨⟨by simp, fun before hbefore => ?_⟩, by omega⟩
        have hle := hnested before hbefore
        omega
      · have hnotOpening : token.isOpening = false :=
          Bool.eq_false_iff.mpr fun hopen => hopening (Token.isOpening_iff.mp hopen)
        have hnotClosing : token.isClosing = false :=
          Bool.eq_false_iff.mpr fun hclose => hclosing (Token.isClosing_iff.mp hclose)
        rw [closes_of_neither hnotOpening hnotClosing] at h
        simp only [List.count_cons_of_ne hopening, List.count_cons_of_ne hclosing]
        exact ⟨⟨by simp, (ih h).1⟩, (ih h).2⟩

/-! ### The whole reading -/

section Whole

variable {limit : Option Nat} {tokens : List Token} {e : Expression}

theorem map_leaves_of_parseWithin (h : parseWithin limit tokens = .ok e) :
    e.leaves.map some = (places none tokens).map Form.read? := by
  have hsupplied := Parser.leaves_supplyZeros none (fits_of_parseWithin h)
  rw [leaves_of_parseWithin h]
  exact hsupplied

theorem operators_of_parseWithin (h : parseWithin limit tokens = .ok e) :
    e.operators.Perm (tokens.filterMap Operator.ofToken?) := by
  obtain ⟨-, state, hpush, hconclude⟩ := Parser.parseWithin_ok_iff.mp h
  obtain ⟨depth, hreduce⟩ := Parser.conclude_ok_iff.mp hconclude
  have hresult := (Parser.operatorsOn_reduce hreduce).trans (Parser.operatorsOn_pushAll hpush)
  rw [Parser.filterMap_ofToken?_supplyZeros] at hresult
  simpa [Parser.operatorsOn] using hresult

theorem token_cases_of_parseWithin (h : parseWithin limit tokens = .ok e) {token : Token}
    (hmem : token ∈ tokens) :
    IsLeaf token ∨ (Operator.ofToken? token).isSome ∨ token = ⟨"("⟩ ∨ token = ⟨")"⟩ := by
  obtain ⟨symbol, hsymbol⟩ := Parser.exists_symbol_of_parseWithin h token hmem
  rcases Parser.Symbol.ofToken_cases hsymbol with ⟨hleaf, -⟩ | ⟨op, rfl, -⟩ | ⟨hopen, -⟩ | ⟨hclose, -⟩
  · exact .inl hleaf
  · exact .inr (.inl (Option.isSome_iff_exists.mpr ⟨op, Operator.ofToken?_eq_some_iff.mpr rfl⟩))
  · exact .inr (.inr (.inl hopen))
  · exact .inr (.inr (.inr hclose))

theorem balanced_of_parseWithin (h : parseWithin limit tokens = .ok e) : Balanced tokens := by
  obtain ⟨hnested, hclosed⟩ := count_of_closes (closes_of_parseWithin h)
  constructor
  · simpa using hnested
  · simpa using hclosed

/-- Of all that is accepted, the tree is made of what was read and of nothing else. -/
theorem inventory_of_parse (h : parse tokens = .ok e) : Inventory tokens e where
  leaves := map_leaves_of_parseWithin h
  operators := operators_of_parseWithin h
  others := by
    intro token hmem hleaf hop
    rcases token_cases_of_parseWithin h hmem with hisLeaf | hisOp | hparenthesis
    · exact absurd hisLeaf hleaf
    · rw [hop] at hisOp
      cases hisOp
    · exact hparenthesis
  balanced := balanced_of_parseWithin h

/-- The product takes an operand from outside its parentheses, and still all is accounted for. -/
theorem inventory_of_parse_displaced :
    parse [⟨"("⟩, ⟨"-"⟩, ⟨"x"⟩, ⟨")"⟩, ⟨"("⟩, ⟨"2"⟩, ⟨"*"⟩, ⟨")"⟩, ⟨"+"⟩, ⟨"3"⟩] =
        .ok (.compound .add (.compound .multiply
          (.compound .subtract (.constant 0) (.var "x")) (.constant 2)) (.constant 3)) ∧
      Inventory [⟨"("⟩, ⟨"-"⟩, ⟨"x"⟩, ⟨")"⟩, ⟨"("⟩, ⟨"2"⟩, ⟨"*"⟩, ⟨")"⟩, ⟨"+"⟩, ⟨"3"⟩]
        (.compound .add (.compound .multiply
          (.compound .subtract (.constant 0) (.var "x")) (.constant 2)) (.constant 3)) :=
  ⟨rfl, inventory_of_parse rfl⟩

end Whole

end Expression

end NumberedBasic
