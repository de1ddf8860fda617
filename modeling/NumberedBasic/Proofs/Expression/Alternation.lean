import NumberedBasic.Proofs.Expression.Stacks
import NumberedBasic.Proofs.Expression.Symbol

/-!
# Alternation

A sentence of the grammar is a sequence in which operands and operators take turns and whose groups are
all closed. The reader checks the groups and never the turns, so it may accept what is no sentence;
among the sequences in which the turns are right it accepts sentences only.
-/

namespace NumberedBasic

namespace Expression

open NumberedBasic.Expression.Parser (isLeaf isSign)

mutual

/-- Operands and operators take turns, an operand first. It may have a sign where a group begins. -/
def operandFirst (begins : Bool) : List Token → Bool
  | [] => false
  | token :: rest =>
      if isLeaf token then
        operatorFirst rest
      else if token.isOpening then
        operandFirst true rest
      else
        begins && isSign token && rest.head?.any isLeaf && operandFirst false rest

/-- Operands and operators take turns, an operator first unless nothing is left. -/
def operatorFirst : List Token → Bool
  | [] => true
  | token :: rest =>
      if token.isClosing then
        operatorFirst rest
      else
        (Operator.ofToken? token).isSome && operandFirst false rest

end

/-- All groups are closed in order, the `opened` ones too. -/
def closes (opened : Nat) : List Token → Bool
  | [] => opened = 0
  | token :: rest =>
      if token.isOpening then
        closes (opened + 1) rest
      else if token.isClosing then
        match opened with
        | 0 => false
        | outer + 1 => closes outer rest
      else
        closes opened rest

/-! ### Sentences alternate -/

section Turns

variable {begins : Bool} {token : Token} {rest : List Token} {op : Operator}

theorem operandFirst_leaf (h : IsLeaf token) :
    operandFirst begins (token :: rest) = operatorFirst rest := by
  rw [operandFirst, if_pos (isLeaf_eq_true_iff.mpr h)]

theorem operandFirst_opening : operandFirst begins (⟨"("⟩ :: rest) = operandFirst true rest := by
  have hleaf : isLeaf ⟨"("⟩ = false := rfl
  rw [operandFirst, hleaf]
  rfl

theorem operatorFirst_closing : operatorFirst (⟨")"⟩ :: rest) = operatorFirst rest := by
  rw [operatorFirst]
  rfl

theorem operatorFirst_operator : operatorFirst (op.token :: rest) = operandFirst false rest := by
  rw [operatorFirst, Operator.ofToken?_eq_some_iff.mpr rfl]
  simp

theorem operandFirst_sign (hop : op = .add ∨ op = .subtract) (hleaf : IsLeaf token) :
    operandFirst true (op.token :: token :: rest) = operandFirst false (token :: rest) := by
  have hnot : isLeaf op.token = false := by
    rw [Bool.eq_false_iff, ne_eq, isLeaf_eq_true_iff]
    exact not_isLeaf_operator op
  have hsign : isSign op.token = true := by rcases hop with rfl | rfl <;> rfl
  rw [operandFirst]
  simp [hnot, hsign, isLeaf_eq_true_iff.mpr hleaf]

end Turns

mutual

theorem IsAtom.operandFirst_append {tokens : List Token} {form : Form} :
    IsAtom tokens form → ∀ (begins : Bool) (rest : List Token),
      operandFirst begins (tokens ++ rest) = operatorFirst rest
  | .leaf hleaf, begins, rest => operandFirst_leaf hleaf
  | .group hsum, begins, rest => by
      rw [List.cons_append, List.cons_append, operandFirst_opening, List.append_assoc,
        hsum.operandFirst_append]
      exact operatorFirst_closing

theorem IsPower.operandFirst_append {tokens : List Token} {form : Form} :
    IsPower tokens form → ∀ (begins : Bool) (rest : List Token),
      operandFirst begins (tokens ++ rest) = operatorFirst rest
  | .atom hatom, begins, rest => hatom.operandFirst_append begins rest
  | .join hleft hright, begins, rest => by
      rw [List.append_assoc, hleft.operandFirst_append, List.cons_append, operatorFirst_operator,
        hright.operandFirst_append]

theorem IsTerm.operandFirst_append {tokens : List Token} {form : Form} :
    IsTerm tokens form → ∀ (begins : Bool) (rest : List Token),
      operandFirst begins (tokens ++ rest) = operatorFirst rest
  | .power hpower, begins, rest => hpower.operandFirst_append begins rest
  | .join _ hleft hright, begins, rest => by
      rw [List.append_assoc, hleft.operandFirst_append, List.cons_append, operatorFirst_operator,
        hright.operandFirst_append]

theorem IsSum.operandFirst_append {tokens : List Token} {form : Form} :
    IsSum tokens form → ∀ rest : List Token,
      operandFirst true (tokens ++ rest) = operatorFirst rest
  | .term hterm, rest => hterm.operandFirst_append true rest
  | .signed hop hleaf hterm, rest => by
      rw [List.cons_append, List.cons_append, operandFirst_sign hop hleaf]
      exact hterm.operandFirst_append false rest
  | .join _ hleft hright, rest => by
      rw [List.append_assoc, hleft.operandFirst_append, List.cons_append, operatorFirst_operator,
        hright.operandFirst_append]

end

theorem IsSum.alternates {tokens : List Token} {form : Form} (h : IsSum tokens form) :
    operandFirst true tokens := by
  have happend := h.operandFirst_append []
  rw [List.append_nil] at happend
  rw [happend]
  rfl

/-! ### Case analysis on the first token -/

theorem operandFirst_cases {begins : Bool} {tokens : List Token} (h : operandFirst begins tokens) :
    ∃ token rest, tokens = token :: rest ∧
      ((IsLeaf token ∧ operatorFirst rest) ∨
        (token = ⟨"("⟩ ∧ operandFirst true rest) ∨
        (begins = true ∧ isSign token ∧ (∃ leaf ∈ rest.head?, IsLeaf leaf) ∧
          operandFirst false rest)) := by
  cases tokens with
  | nil => exact absurd h (by simp [operandFirst])
  | cons token rest =>
      refine ⟨token, rest, rfl, ?_⟩
      rw [operandFirst] at h
      split at h
      next hleaf => exact .inl ⟨isLeaf_eq_true_iff.mp hleaf, h⟩
      next =>
        split at h
        next hopening => exact .inr (.inl ⟨Token.isOpening_iff.mp hopening, h⟩)
        next =>
          simp only [Bool.and_eq_true, Option.any_eq_true] at h
          obtain ⟨⟨⟨hbegins, hsign⟩, leaf, hmem, hleaf⟩, hrest⟩ := h
          exact .inr (.inr ⟨hbegins, hsign, ⟨leaf, hmem, isLeaf_eq_true_iff.mp hleaf⟩, hrest⟩)

theorem operatorFirst_cases {token : Token} {rest : List Token}
    (h : operatorFirst (token :: rest)) :
    (token = ⟨")"⟩ ∧ operatorFirst rest) ∨
      ∃ op : Operator, token = op.token ∧ operandFirst false rest := by
  rw [operatorFirst] at h
  split at h
  next hclosing => exact .inl ⟨Token.isClosing_iff.mp hclosing, h⟩
  next =>
    rw [Bool.and_eq_true, Option.isSome_iff_exists] at h
    obtain ⟨⟨op, hop⟩, hrest⟩ := h
    exact .inr ⟨op, Operator.ofToken?_eq_some_iff.mp hop, hrest⟩

theorem exists_sign_of_isSign {token : Token} (h : isSign token) :
    ∃ op : Operator, (op = .add ∨ op = .subtract) ∧ token = op.token := by
  cases token with
  | mk text =>
      simp only [isSign, Bool.or_eq_true, decide_eq_true_eq] at h
      rcases h with rfl | rfl
      · exact ⟨.add, .inl rfl, rfl⟩
      · exact ⟨.subtract, .inr rfl, rfl⟩

/-- An opening parenthesis is followed by an operand, so no group is empty. -/
theorem hasEmptyGroup_eq_false (tokens : List Token) :
    (∀ begins, operandFirst begins tokens → Parser.hasEmptyGroup tokens = false) ∧
      (operatorFirst tokens → Parser.hasEmptyGroup tokens = false) := by
  induction tokens with
  | nil => simp [Parser.hasEmptyGroup]
  | cons token rest ih =>
      obtain ⟨ihOperand, ihOperator⟩ := ih
      refine ⟨fun begins h => ?_, fun h => ?_⟩
      · obtain ⟨token, rest, ⟨rfl, rfl⟩, h⟩ := operandFirst_cases h
        rcases h with ⟨hleaf, hrest⟩ | ⟨rfl, hrest⟩ | ⟨-, hsign, -, hrest⟩
        · simp [Parser.hasEmptyGroup, hleaf.isOpening, ihOperator hrest]
        · obtain ⟨next, later, rfl, hnext⟩ := operandFirst_cases hrest
          have hclosing : next.isClosing = false := by
            rcases hnext with ⟨hleaf, -⟩ | ⟨rfl, -⟩ | ⟨-, hsign, -, -⟩
            · exact hleaf.isClosing
            · rfl
            · obtain ⟨op, -, rfl⟩ := exists_sign_of_isSign hsign
              exact isClosing_operator op
          rw [Parser.hasEmptyGroup, ihOperand true hrest]
          simp [hclosing]
        · obtain ⟨op, -, rfl⟩ := exists_sign_of_isSign hsign
          simp [Parser.hasEmptyGroup, ihOperand false hrest]
      · rcases operatorFirst_cases h with ⟨rfl, hrest⟩ | ⟨op, rfl, hrest⟩
        · have hopening : Token.isOpening ⟨")"⟩ = false := rfl
          simp [Parser.hasEmptyGroup, hopening, ihOperator hrest]
        · simp [Parser.hasEmptyGroup, ihOperand false hrest]

/-! ### Joining on the left

The grammar grows a sum at its right end, and a sequence is read from its left end. What follows the
first atom is a sum of its own if it has no sign. -/

theorem IsTerm.power_append {left right : List Token} {lhs form : Form} (hleft : IsAtom left lhs) :
    IsTerm right form → ∃ joined, IsTerm (left ++ Operator.power.token :: right) joined
  | .power hright => ⟨_, .power (.join hleft hright)⟩
  | .join hop hfirst hlast => by
      obtain ⟨joined, h⟩ := IsTerm.power_append hleft hfirst
      have hjoin := IsTerm.join hop h hlast
      rw [List.append_assoc, List.cons_append] at hjoin
      exact ⟨_, hjoin⟩

theorem IsTerm.product_append {left right : List Token} {lhs form : Form} {op : Operator}
    (hop : op = .multiply ∨ op = .divide) (hleft : IsTerm left lhs) :
    IsTerm right form → ∃ joined, IsTerm (left ++ op.token :: right) joined
  | .power hright => ⟨_, .join hop hleft hright⟩
  | .join hop' hfirst hlast => by
      obtain ⟨joined, h⟩ := IsTerm.product_append hop hleft hfirst
      have hjoin := IsTerm.join hop' h hlast
      rw [List.append_assoc, List.cons_append] at hjoin
      exact ⟨_, hjoin⟩

theorem IsTerm.atom_append {left right : List Token} {lhs form : Form} (op : Operator)
    (hleft : IsAtom left lhs) (hright : IsTerm right form) :
    ∃ joined, IsSum (left ++ op.token :: right) joined := by
  have hterm : IsTerm left lhs := .power (.atom hleft)
  cases op with
  | add => exact ⟨_, .join (.inl rfl) (.term hterm) hright⟩
  | subtract => exact ⟨_, .join (.inr rfl) (.term hterm) hright⟩
  | multiply =>
      obtain ⟨joined, h⟩ := IsTerm.product_append (.inl rfl) hterm hright
      exact ⟨joined, .term h⟩
  | divide =>
      obtain ⟨joined, h⟩ := IsTerm.product_append (.inr rfl) hterm hright
      exact ⟨joined, .term h⟩
  | power =>
      obtain ⟨joined, h⟩ := hright.power_append hleft
      exact ⟨joined, .term h⟩

theorem IsSum.head_left {left right : List Token} {form : Form} (h : IsSum left form) :
    (left ++ right).head? = left.head? := by
  obtain ⟨token, rest, rfl, -⟩ := operandFirst_cases h.alternates
  rfl

/-- The tokens begin with no sign. -/
def Unsigned (tokens : List Token) : Prop := ∀ token ∈ tokens.head?, isSign token = false

theorem IsSum.atom_append {left right : List Token} {lhs form : Form} (op : Operator)
    (hleft : IsAtom left lhs) : IsSum right form → Unsigned right →
      ∃ joined, IsSum (left ++ op.token :: right) joined
  | .term hright, _ => hright.atom_append op hleft
  | .signed hop _ _, hunsigned => by
      have hsign : isSign _ = false := hunsigned _ rfl
      rcases hop with rfl | rfl <;> cases hsign
  | .join hop hfirst hlast, hunsigned => by
      rw [Unsigned, hfirst.head_left] at hunsigned
      obtain ⟨joined, h⟩ := IsSum.atom_append op hleft hfirst hunsigned
      have hjoin := IsSum.join hop h hlast
      rw [List.append_assoc, List.cons_append] at hjoin
      exact ⟨_, hjoin⟩

theorem IsSum.sign_append {tokens : List Token} {form : Form} {op : Operator}
    (hop : op = .add ∨ op = .subtract) : IsSum tokens form → (∃ leaf ∈ tokens.head?, IsLeaf leaf) →
      ∃ joined, IsSum (op.token :: tokens) joined
  | .term hterm, ⟨leaf, hmem, hleaf⟩ => by
      cases tokens with
      | nil => cases hmem
      | cons first rest =>
          cases hmem
          exact ⟨_, .signed hop hleaf hterm⟩
  | .signed _ _ _, ⟨leaf, hmem, hleaf⟩ => by
      cases hmem
      exact absurd hleaf (not_isLeaf_operator _)
  | .join hop' hfirst hlast, hhead => by
      rw [hfirst.head_left] at hhead
      obtain ⟨joined, h⟩ := IsSum.sign_append hop hfirst hhead
      exact ⟨_, .join hop' h hlast⟩

/-! ### Alternating sequences are sentences -/

theorem closes_nil {opened : Nat} (h : closes opened []) : opened = 0 := by
  simpa [closes] using h

theorem closes_of_neither {opened : Nat} {token : Token} {rest : List Token}
    (hopening : token.isOpening = false) (hclosing : token.isClosing = false) :
    closes opened (token :: rest) = closes opened rest := by
  cases opened <;> simp [closes, hopening, hclosing]

theorem closes_leaf {opened : Nat} {token : Token} {rest : List Token} (h : IsLeaf token) :
    closes opened (token :: rest) = closes opened rest :=
  closes_of_neither h.isOpening h.isClosing

theorem closes_operator {opened : Nat} {op : Operator} {rest : List Token} :
    closes opened (op.token :: rest) = closes opened rest :=
  closes_of_neither (isOpening_operator op) (isClosing_operator op)

theorem closes_opening {opened : Nat} {rest : List Token} :
    closes opened (⟨"("⟩ :: rest) = closes (opened + 1) rest := rfl

theorem closes_closing {opened : Nat} {rest : List Token} (h : closes opened (⟨")"⟩ :: rest)) :
    ∃ outer, opened = outer + 1 ∧ closes outer rest := by
  cases opened with
  | zero => cases h
  | succ outer => exact ⟨outer, rfl, h⟩

/-- What may follow a sum with `opened` groups around it: nothing, or the end of the inner one. -/
def Follows (opened : Nat) (rest : List Token) : Prop :=
  (opened = 0 ∧ rest = []) ∨
    ∃ outer later, opened = outer + 1 ∧ rest = ⟨")"⟩ :: later ∧ operatorFirst later ∧
      closes outer later

/-- The sequence is a sum and what follows it. -/
def Splits (begins : Bool) (opened : Nat) (tokens : List Token) : Prop :=
  ∃ sum rest form, tokens = sum ++ rest ∧ IsSum sum form ∧ (begins = false → Unsigned sum) ∧
    Follows opened rest

theorem IsAtom.unsigned {tokens : List Token} {form : Form} (h : IsAtom tokens form) :
    Unsigned tokens := by
  intro token hmem
  cases h with
  | leaf hleaf =>
      cases hmem
      exact hleaf.isSign
  | group _ =>
      cases hmem
      rfl

/-- An atom goes on with an operator and another sum, or ends the sum. -/
theorem splits_of_atom {begins : Bool} {opened : Nat} {atom rest : List Token} {form : Form}
    (hatom : IsAtom atom form) (hturns : operatorFirst rest) (hcloses : closes opened rest)
    (ih : ∀ later, later.length < rest.length → operandFirst false later → closes opened later →
      Splits false opened later) : Splits begins opened (atom ++ rest) := by
  have hsum : IsSum atom form := .term (.power (.atom hatom))
  cases rest with
  | nil =>
      exact ⟨atom, [], form, rfl, hsum, fun _ => hatom.unsigned, .inl ⟨closes_nil hcloses, rfl⟩⟩
  | cons token later =>
      rcases operatorFirst_cases hturns with ⟨rfl, hlater⟩ | ⟨op, rfl, hlater⟩
      · obtain ⟨outer, rfl, hcloses⟩ := closes_closing hcloses
        exact ⟨atom, _, form, rfl, hsum, fun _ => hatom.unsigned,
          .inr ⟨outer, later, rfl, rfl, hlater, hcloses⟩⟩
      · rw [closes_operator] at hcloses
        obtain ⟨sum, rest, _, rfl, hright, hunsigned, hfollows⟩ :=
          ih later (by simp) hlater hcloses
        obtain ⟨joined, hjoined⟩ := hright.atom_append op hatom (hunsigned rfl)
        refine ⟨atom ++ op.token :: sum, rest, joined, by simp, hjoined, fun _ => ?_, hfollows⟩
        rw [Unsigned, hsum.head_left]
        exact hatom.unsigned

theorem splits_of_operandFirst (tokens : List Token) :
    ∀ begins opened, operandFirst begins tokens → closes opened tokens →
      Splits begins opened tokens := by
  induction hlength : tokens.length using Nat.strongRecOn generalizing tokens with
  | ind length ih =>
      subst hlength
      intro begins opened hturns hcloses
      obtain ⟨token, rest, rfl, h⟩ := operandFirst_cases hturns
      have ihRest : ∀ later begins opened, later.length < (token :: rest).length →
          operandFirst begins later → closes opened later → Splits begins opened later :=
        fun later begins opened hlt => ih later.length hlt later rfl begins opened
      rcases h with ⟨hleaf, hrest⟩ | ⟨rfl, hrest⟩ | ⟨rfl, hsign, hnext, hrest⟩
      · rw [closes_leaf hleaf] at hcloses
        exact splits_of_atom (.leaf hleaf) hrest hcloses fun later hlt =>
          ihRest later false opened (Nat.lt_succ_of_lt hlt)
      · -- The sum inside the group comes first, and what follows it closes the group.
        rw [closes_opening] at hcloses
        obtain ⟨sum, _, form, rfl, hsum, -, hfollows⟩ :=
          ihRest rest true (opened + 1) (Nat.lt_succ_self _) hrest hcloses
        rcases hfollows with ⟨hzero, -⟩ | ⟨outer, later, houter, rfl, hlater, hcloses⟩
        · omega
        · obtain rfl : opened = outer := by omega
          have hgroup : Splits begins opened (⟨"("⟩ :: sum ++ [⟨")"⟩] ++ later) :=
            splits_of_atom (.group hsum) hlater hcloses fun later' hlt =>
              ihRest later' false opened (by simp; omega)
          simpa using hgroup
      · obtain ⟨op, hop, rfl⟩ := exists_sign_of_isSign hsign
        rw [closes_operator] at hcloses
        obtain ⟨sum, later, _, rfl, hsum, -, hfollows⟩ :=
          ihRest rest false opened (Nat.lt_succ_self _) hrest hcloses
        rw [hsum.head_left] at hnext
        obtain ⟨joined, hjoined⟩ := hsum.sign_append hop hnext
        exact ⟨op.token :: sum, later, joined, rfl, hjoined, by simp, hfollows⟩

theorem exists_isSum_of_alternates {tokens : List Token} (hturns : operandFirst true tokens)
    (hcloses : closes 0 tokens) : ∃ form, IsSum tokens form := by
  obtain ⟨sum, rest, form, rfl, hsum, -, hfollows⟩ :=
    splits_of_operandFirst tokens true 0 hturns hcloses
  rcases hfollows with ⟨-, rfl⟩ | ⟨outer, -, hzero, -⟩
  · exact ⟨form, by simpa using hsum⟩
  · omega

/-! ### What the reader accepts is closed -/

namespace Parser

variable {limit : Option Nat} {state after : Stacks}

/-- The number of groups that are still open. -/
def opened (waiting : List Waiting) : Nat := waiting.count .opening

@[simp] theorem opened_nil : opened [] = 0 := rfl

@[simp] theorem opened_opening (waiting : List Waiting) :
    opened (.opening :: waiting) = opened waiting + 1 := List.count_cons_self

@[simp] theorem opened_operator (op : Operator) (waiting : List Waiting) :
    opened (.operator op :: waiting) = opened waiting := by
  simp [opened]

theorem opened_of_reduce {applies : Operator → Bool} {waiting : List Waiting}
    {operands : List Operand} (h : reduce limit applies waiting operands = .ok after) :
    opened after.waiting = opened waiting := by
  apply @invariant_of_reduce _ _ _ _ _ (opened ·.waiting = opened waiting) _ h
  · rfl
  · intro op rest before combined _ hbefore
    exact (opened_operator op rest).symm.trans hbefore

theorem closes_of_pushAll {tokens : List Token} {e : Expression}
    (h : pushAll limit state tokens = .ok after) (hconclude : conclude limit after = .ok e) :
    closes (opened state.waiting) tokens := by
  induction tokens generalizing state with
  | nil =>
      cases h
      obtain ⟨depth, hreduce⟩ := conclude_ok_iff.mp hconclude
      simpa [closes] using (opened_of_reduce hreduce).symm
  | cons token rest ih =>
      obtain ⟨symbol, pushed, hsymbol, hpush, hrest⟩ := pushAll_cons_ok_iff.mp h
      have hcloses := ih hrest
      rcases Symbol.ofToken_cases hsymbol with
        ⟨hleaf, -, _, rfl, -⟩ | ⟨op, rfl, rfl⟩ | ⟨rfl, rfl⟩ | ⟨rfl, rfl⟩
      · cases hpush
        rw [closes_leaf hleaf]
        exact hcloses
      · obtain ⟨reduced, hreduce, rfl⟩ := push_operator_ok_iff.mp hpush
        rw [opened_operator, opened_of_reduce hreduce] at hcloses
        rw [closes_operator]
        exact hcloses
      · cases hpush
        rw [opened_opening] at hcloses
        exact hcloses
      · have hopened := opened_of_reduce (push_closing_ok_iff.mp hpush)
        rw [← hopened, opened_opening]
        exact hcloses

/-- Zeros before signs leave the groups as they are. -/
theorem closes_supplyZeros (begins : Bool) (tokens : List Token) (opened : Nat) :
    closes opened (supplyZeros begins tokens) = closes opened tokens := by
  induction tokens generalizing begins opened with
  | nil => rfl
  | cons token rest ih =>
      have hread : closes opened (token :: supplyZeros token.isOpening rest) =
          closes opened (token :: rest) := by
        cases opened <;> simp only [closes, ih]
      have hzero : IsLeaf ⟨"0"⟩ := .inl rfl
      rw [supplyZeros]
      split
      · rw [closes_leaf hzero, hread]
      · exact hread

end Parser

theorem closes_of_parseWithin {limit : Option Nat} {tokens : List Token} {e : Expression}
    (h : parseWithin limit tokens = .ok e) : closes 0 tokens := by
  obtain ⟨-, state, hpush, hconclude⟩ := Parser.parseWithin_ok_iff.mp h
  rw [← Parser.closes_supplyZeros true]
  exact Parser.closes_of_pushAll hpush hconclude

/-- Of what is accepted, the sentences are what alternates. -/
theorem isSum_iff_alternates_of_parse {tokens : List Token} {e : Expression}
    (h : parse tokens = .ok e) : (∃ form, IsSum tokens form) ↔ operandFirst true tokens := by
  constructor
  · rintro ⟨form, hsum⟩
    exact hsum.alternates
  · intro hturns
    exact exists_isSum_of_alternates hturns (closes_of_parseWithin h)

theorem isSum_iff_alternates_of_parse_group :
    parse [⟨"1"⟩, ⟨"("⟩, ⟨"+"⟩, ⟨"("⟩, ⟨"2"⟩, ⟨")"⟩, ⟨")"⟩] =
        .ok (.compound .add (.constant 1) (.constant 2)) ∧
      ((∃ form, IsSum [⟨"1"⟩, ⟨"("⟩, ⟨"+"⟩, ⟨"("⟩, ⟨"2"⟩, ⟨")"⟩, ⟨")"⟩] form) ↔
        operandFirst true [⟨"1"⟩, ⟨"("⟩, ⟨"+"⟩, ⟨"("⟩, ⟨"2"⟩, ⟨")"⟩, ⟨")"⟩]) :=
  ⟨rfl, isSum_iff_alternates_of_parse rfl⟩

/-- Two values side by side are accepted where an operator comes after them. -/
theorem parse_juxtaposed_values :
    parse [⟨"1"⟩, ⟨"2"⟩, ⟨"+"⟩] = .ok (.compound .add (.constant 1) (.constant 2)) ∧
      ¬ ∃ form, IsSum [⟨"1"⟩, ⟨"2"⟩, ⟨"+"⟩] form := by
  refine ⟨rfl, ?_⟩
  rintro ⟨form, hsum⟩
  exact absurd hsum.alternates (by decide)

end Expression

end NumberedBasic
