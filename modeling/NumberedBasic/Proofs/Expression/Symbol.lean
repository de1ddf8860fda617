import NumberedBasic.Expression.Grammar
import NumberedBasic.Expression.Parser

/-!
# What a token is to the reader

The classes of tokens that the reader tells apart exclude each other: a number is no name, and neither
is a sign or a parenthesis. A number has a symbol as long as its value fits.
-/

namespace NumberedBasic

/-! ### Readings that succeed -/

theorem bind_eq_ok_iff {α β : Type} {read : Except Fault α} {next : α → Except Fault β}
    {result : β} :
    read >>= next = .ok result ↔ ∃ found, read = .ok found ∧ next found = .ok result := by
  cases read with
  | error fault =>
      constructor
      · intro h
        cases h
      · rintro ⟨found, hread, -⟩
        cases hread
  | ok found =>
      constructor
      · intro h
        exact ⟨found, rfl, h⟩
      · rintro ⟨_, hread, hnext⟩
        cases hread
        exact hnext

theorem map_eq_ok_iff {α β : Type} {read : Except Fault α} {make : α → β} {result : β} :
    read.map make = .ok result ↔ ∃ found, read = .ok found ∧ make found = result := by
  cases read with
  | error fault =>
      constructor
      · intro h
        cases h
      · rintro ⟨found, hread, -⟩
        cases hread
  | ok found =>
      constructor
      · intro h
        cases h
        exact ⟨found, rfl, rfl⟩
      · rintro ⟨_, hread, rfl⟩
        cases hread
        rfl

namespace Token

theorem isDigit_eq_false_of_isLetter {c : Char} (h : isLetter c) : c.isDigit = false := by
  rw [Bool.eq_false_iff]
  intro hdigit
  simp only [Char.isDigit, Bool.and_eq_true, decide_eq_true_eq, ge_iff_le,
    UInt32.le_iff_toNat_le] at hdigit
  change 48 ≤ c.val.toNat ∧ c.val.toNat ≤ 57 at hdigit
  simp only [isLetter, Bool.or_eq_true, decide_eq_true_eq] at h
  rcases h with (halpha | rfl) | rfl
  · rcases Bool.or_eq_true_iff.mp halpha with hupper | hlower
    · change decide (c.val ≥ 65 ∧ c.val ≤ 90) = true at hupper
      have hrange := (of_decide_eq_true hupper).1
      change 65 ≤ c.val.toNat at hrange
      omega
    · change (decide (c.val ≥ 97) && decide (c.val ≤ 122)) = true at hlower
      have hrange := of_decide_eq_true (Bool.and_eq_true_iff.mp hlower).1
      change 97 ≤ c.val.toNat at hrange
      omega
  · exact absurd hdigit (by decide)
  · exact absurd hdigit (by decide)

theorem isNumber_eq_false_of_isName {token : Token} (h : token.isName) : token.isNumber = false := by
  unfold isName at h
  unfold isNumber Text.isNumeral
  cases hchars : token.text.toList with
  | nil => rfl
  | cons c rest =>
      rw [hchars] at h
      have hletter : isLetter c := by
        simp only [Bool.and_eq_true] at h
        exact h.1
      simp [isDigit_eq_false_of_isLetter hletter]

/-- What a number stands for, if anything, is a value. -/
def Fits (token : Token) : Prop :=
  ∀ n, Text.numeral? token.text.toList = some n → (n : Int) ≤ 2147483647

instance (token : Token) : Decidable token.Fits :=
  inferInstanceAs (Decidable (∀ n ∈ Text.numeral? token.text.toList, (n : Int) ≤ 2147483647))

theorem value_eq_ok_iff {token : Token} {value : Value} :
    token.value = .ok value ↔
      ∃ n : Nat, Text.numeral? token.text.toList = some n ∧ Value.ofInt? n = some value := by
  -- The range check is a variable here. With the concrete one in place, checking the proof would
  -- count down from the limit.
  have key : ∀ read : Int → Option Value, Value.ofInt? = read → (token.value = .ok value ↔
      ∃ n : Nat, Text.numeral? token.text.toList = some n ∧ read n = some value) := by
    intro read hread
    unfold Token.value
    rw [hread]
    cases Text.numeral? token.text.toList with
    | none => simp
    | some n => cases h : read n <;> simp [h]
  exact key _ rfl

theorem fits_of_value {token : Token} {value : Value} (h : token.value = .ok value) :
    token.Fits := by
  obtain ⟨n, hn, hv⟩ := value_eq_ok_iff.mp h
  intro m hm
  obtain rfl : n = m := Option.some.inj (hn.symm.trans hm)
  rw [← Value.ofInt?_eq_some_iff.mp hv]
  exact Int.le_of_lt_add_one value.toInt_lt

theorem exists_value_of_fits {token : Token} (hnumber : token.isNumber) (h : token.Fits) :
    ∃ value, token.value = .ok value := by
  obtain ⟨n, hn⟩ : ∃ n, Text.numeral? token.text.toList = some n :=
    ⟨_, Text.numeral?_eq_some_iff.mpr ⟨hnumber, rfl⟩⟩
  have hrange := h n hn
  exact ⟨Int32.ofInt n, value_eq_ok_iff.mpr
    ⟨n, hn, Value.ofInt?_eq_some_iff.mpr (Int32.toInt_ofInt_of_le (by omega) (by omega))⟩⟩

theorem fits_of_isNumber_eq_false {token : Token} (h : token.isNumber = false) : token.Fits := by
  intro n hn
  have hnumber : token.isNumber := (Text.numeral?_eq_some_iff.mp hn).1
  rw [hnumber] at h
  cases h

theorem isOpening_iff {token : Token} : token.isOpening = true ↔ token = ⟨"("⟩ := by
  cases token with
  | mk text => simp [isOpening]

theorem isClosing_iff {token : Token} : token.isClosing = true ↔ token = ⟨")"⟩ := by
  cases token with
  | mk text => simp [isClosing]

end Token

namespace Expression

instance (token : Token) : Decidable (IsLeaf token) :=
  inferInstanceAs (Decidable (token.isNumber ∨ token.isName))

/-! ### Parentheses and operators are no leaves -/

theorem not_isLeaf_of_mem :
    ∀ text ∈ ["+", "-", "*", "/", "**", "(", ")"], ¬ IsLeaf ⟨text⟩ := by
  decide

theorem not_isLeaf_operator (op : Operator) : ¬ IsLeaf op.token :=
  not_isLeaf_of_mem op.symbol (by cases op <;> decide)

theorem IsLeaf.text_ne {token : Token} (h : IsLeaf token) (text : String)
    (hmem : text ∈ ["+", "-", "*", "/", "**", "(", ")"]) : token.text ≠ text := by
  rintro rfl
  exact not_isLeaf_of_mem token.text hmem h

theorem IsLeaf.isSign {token : Token} (h : IsLeaf token) : Parser.isSign token = false := by
  have hplus := h.text_ne "+" (by decide)
  have hminus := h.text_ne "-" (by decide)
  simp [Parser.isSign, hplus, hminus]

theorem IsLeaf.isOpening {token : Token} (h : IsLeaf token) : token.isOpening = false := by
  have hne := h.text_ne "(" (by decide)
  simp [Token.isOpening, hne]

theorem IsLeaf.isClosing {token : Token} (h : IsLeaf token) : token.isClosing = false := by
  have hne := h.text_ne ")" (by decide)
  simp [Token.isClosing, hne]

@[simp] theorem isOpening_operator (op : Operator) : op.token.isOpening = false := by
  cases op <;> rfl

@[simp] theorem isClosing_operator (op : Operator) : op.token.isClosing = false := by
  cases op <;> rfl

theorem isLeaf_eq_true_iff {token : Token} : Parser.isLeaf token = true ↔ IsLeaf token := by
  simp [Parser.isLeaf, IsLeaf]

/-! ### Symbols -/

namespace Parser.Symbol

theorem ofToken_operator (op : Operator) : ofToken op.token = .ok (operator op) := by
  cases op <;> rfl

theorem ofToken_opening : ofToken ⟨"("⟩ = .ok opening := rfl

theorem ofToken_closing : ofToken ⟨")"⟩ = .ok closing := rfl

/-- The tree of a leaf is read off its symbol. -/
theorem ofToken_leaf {token : Token} {e : Expression} (hleaf : IsLeaf token)
    (h : (Form.leaf token).read? = some e) : ofToken token = .ok (leaf e) := by
  unfold Form.read? at h
  rcases Bool.eq_false_or_eq_true token.isName with hname | hname
  · rw [if_pos hname] at h
    cases h
    simp [ofToken, Token.isNumber_eq_false_of_isName hname, hname]
  · have hnumber : token.isNumber := hleaf.resolve_right (by simp [hname])
    rw [if_neg (by simp [hname])] at h
    cases hvalue : token.value with
    | error fault => simp [hvalue, Except.toOption] at h
    | ok value =>
        obtain rfl : constant value = e := by simpa [hvalue, Except.toOption] using h
        simp [ofToken, hnumber, hvalue, Except.map]

theorem ofToken_cases {token : Token} {symbol : Symbol} (h : ofToken token = .ok symbol) :
    (IsLeaf token ∧ token.Fits ∧ ∃ e, symbol = leaf e ∧ e.depth = 1) ∨
      (∃ op : Operator, token = op.token ∧ symbol = operator op) ∨
      (token = ⟨"("⟩ ∧ symbol = opening) ∨ (token = ⟨")"⟩ ∧ symbol = closing) := by
  unfold ofToken at h
  split at h
  next hnumber =>
    cases hvalue : token.value with
    | error fault => simp [hvalue, Except.map] at h
    | ok value =>
        have hsymbol : leaf (constant value) = symbol := by simpa [hvalue, Except.map] using h
        exact .inl ⟨.inl hnumber, Token.fits_of_value hvalue, _, hsymbol.symm, rfl⟩
  next =>
    split at h
    next hname =>
      cases h
      exact .inl ⟨.inr hname,
        Token.fits_of_isNumber_eq_false (Token.isNumber_eq_false_of_isName hname), _, rfl, rfl⟩
    next =>
      split at h
      next hopening =>
        cases h
        exact .inr (.inr (.inl ⟨Token.isOpening_iff.mp hopening, rfl⟩))
      next =>
        split at h
        next hclosing =>
          cases h
          exact .inr (.inr (.inr ⟨Token.isClosing_iff.mp hclosing, rfl⟩))
        next =>
          split at h
          next op hop =>
            cases h
            exact .inr (.inl ⟨op, Operator.ofToken?_eq_some_iff.mp hop, rfl⟩)
          next => cases h

/-- A leaf is the value of a number or a name. -/
theorem leaf_cases {token : Token} {e : Expression} (h : ofToken token = .ok (leaf e)) :
    (∃ value, token.value = .ok value ∧ e = constant value) ∨ (token.isName ∧ e = var token.text) := by
  by_cases hnumber : token.isNumber = true
  · left
    rw [ofToken, if_pos hnumber] at h
    obtain ⟨value, hvalue, heq⟩ := map_eq_ok_iff.mp h
    cases heq
    exact ⟨value, hvalue, rfl⟩
  · right
    rcases ofToken_cases h with ⟨hleaf, -⟩ | ⟨_, -, heq⟩ | ⟨-, heq⟩ | ⟨-, heq⟩
    · have hname : token.isName := hleaf.resolve_left hnumber
      rw [ofToken, if_neg hnumber, if_pos hname] at h
      cases h
      exact ⟨hname, rfl⟩
    all_goals cases heq

/-- Only a number can fail to fit. -/
theorem fits_of_ofToken {token : Token} {symbol : Symbol} (h : ofToken token = .ok symbol) :
    token.Fits := by
  rcases ofToken_cases h with ⟨-, hfits, -⟩ | ⟨op, rfl, -⟩ | ⟨rfl, -⟩ | ⟨rfl, -⟩
  · exact hfits
  · exact Token.fits_of_isNumber_eq_false (by cases op <;> rfl)
  · exact Token.fits_of_isNumber_eq_false rfl
  · exact Token.fits_of_isNumber_eq_false rfl

end Parser.Symbol

end Expression

end NumberedBasic
