import NumberedBasic.Proofs.Expression.Symbol
import NumberedBasic.Proofs.Text.Trimming

/-!
# Printed numbers

A printed number reads back as itself, with or without a sign. It holds no blank, so that nothing is
lost when it is trimmed.
-/

namespace NumberedBasic

namespace Text

/-! ### Characters of a number -/

theorem isDigit_range {c : Char} (h : c.isDigit) : 48 ≤ c.toNat ∧ c.toNat ≤ 57 := by
  simp only [Char.isDigit, Bool.and_eq_true, decide_eq_true_eq, ge_iff_le,
    UInt32.le_iff_toNat_le] at h
  exact h

theorem isBlank_eq_false_of_isDigit {c : Char} (h : c.isDigit) : isBlank c = false := by
  have hrange := isDigit_range h
  simp only [isBlank, blankRanges, List.any_cons, List.any_nil, Bool.or_false, Bool.or_eq_false_iff,
    Bool.and_eq_false_iff, decide_eq_false_iff_not]
  omega

theorem isDigit_of_mem {cs : List Char} {c : Char} (h : isNumeral cs) (hmem : c ∈ cs) : c.isDigit := by
  simp only [isNumeral, Bool.and_eq_true, List.all_eq_true] at h
  exact h.2 c hmem

/-! ### Signs -/

theorem signedNumeral?_of_isNumeral {cs : List Char} (h : isNumeral cs) :
    signedNumeral? cs = (numeral? cs).map Int.ofNat := by
  unfold signedNumeral?
  split
  next digits => exact absurd (isDigit_of_mem h List.mem_cons_self) (by decide)
  next digits => exact absurd (isDigit_of_mem h List.mem_cons_self) (by decide)
  next => rfl

theorem signedNumeral?_repr (n : Int) : signedNumeral? n.repr.toList = some n := by
  cases n with
  | ofNat n =>
      change signedNumeral? n.repr.toList = _
      rw [Nat.toList_repr, signedNumeral?_of_isNumeral (isNumeral_toDigits n), numeral?_toDigits]
      rfl
  | negSucc n =>
      change signedNumeral? ("-" ++ (n + 1).repr).toList = _
      have hsign : "-".toList = ['-'] := rfl
      rw [String.toList_append, Nat.toList_repr, hsign, List.singleton_append, signedNumeral?,
        numeral?_toDigits]
      rfl

theorem isBlank_eq_false_of_mem_repr {n : Int} {c : Char} (h : c ∈ n.repr.toList) :
    isBlank c = false := by
  have hdigits : ∀ k : Nat, c ∈ k.repr.toList → isBlank c = false := by
    intro k hmem
    rw [Nat.toList_repr] at hmem
    exact isBlank_eq_false_of_isDigit (isDigit_of_mem (isNumeral_toDigits k) hmem)
  cases n with
  | ofNat n => exact hdigits n h
  | negSucc n =>
      change c ∈ ("-" ++ (n + 1).repr).toList at h
      rw [String.toList_append] at h
      rcases List.mem_append.mp h with hsign | hdigit
      · obtain rfl := List.mem_singleton.mp hsign
        rfl
      · exact hdigits (n + 1) hdigit

end Text

theorem Value.ofInt?_toInt (value : Value) : Value.ofInt? value.toInt = some value :=
  Value.ofInt?_eq_some_iff.mpr rfl

/-! ### Tokens -/

namespace Token

theorem toList_toString_value {value : Value} (h : 0 ≤ value) :
    (toString value).toList = Nat.toDigits 10 value.toInt.toNat := by
  have hnonneg : 0 ≤ value.toInt := Int32.le_iff_toInt_le.mp h
  change value.toInt.repr.toList = _
  rw [← Int.toNat_of_nonneg hnonneg]
  exact Nat.toList_repr

theorem toList_toString_lineNumber (line : LineNumber) :
    (toString line).toList = Nat.toDigits 10 line.toNat :=
  Nat.toList_repr

theorem isNumber_toString_value {value : Value} (h : 0 ≤ value) :
    isNumber ⟨toString value⟩ := by
  rw [isNumber, toList_toString_value h]
  exact Text.isNumeral_toDigits _

theorem isNumber_toString_lineNumber (line : LineNumber) : isNumber ⟨toString line⟩ := by
  rw [isNumber, toList_toString_lineNumber]
  exact Text.isNumeral_toDigits _

theorem notMem_toString_lineNumber {c : Char} (hc : c.isDigit = false) (line : LineNumber) :
    c ∉ (toString line).toList := by
  intro hmem
  rw [Text.isDigit_of_mem (isNumber_toString_lineNumber line) hmem] at hc
  cases hc

theorem toString_lineNumber_inj {line line' : LineNumber} :
    toString line = toString line' ↔ line = line' := by
  refine ⟨fun h => ?_, congrArg _⟩
  have hread := Text.numeral?_toDigits line.toNat
  rw [← toList_toString_lineNumber, h, toList_toString_lineNumber, Text.numeral?_toDigits] at hread
  exact UInt32.toNat_inj.mp (Option.some.inj hread).symm

theorem value_toString {value : Value} (h : 0 ≤ value) :
    Token.value ⟨toString value⟩ = .ok value := by
  have hnonneg : 0 ≤ value.toInt := Int32.le_iff_toInt_le.mp h
  refine value_eq_ok_iff.mpr ⟨value.toInt.toNat, ?_, ?_⟩
  · rw [toList_toString_value h, Text.numeral?_toDigits]
  · rw [Int.toNat_of_nonneg hnonneg]
    exact Value.ofInt?_toInt value

theorem lineNumber_eq_ok_iff {token : Token} {line : LineNumber} :
    token.lineNumber = .ok line ↔
      ∃ n, Text.numeral? token.text.toList = some n ∧ 0 < n ∧ line.toNat = n := by
  have hread : token.lineNumber = .ok line ↔
      (Text.numeral? token.text.toList).bind LineNumber.ofNat? = some line := by
    unfold Token.lineNumber
    cases (Text.numeral? token.text.toList).bind LineNumber.ofNat? with
    | none => simp
    | some other => simp
  rw [hread, Option.bind_eq_some_iff]
  simp only [LineNumber.ofNat?_eq_some_iff]

theorem pos_of_lineNumber {token : Token} {line : LineNumber} (h : token.lineNumber = .ok line) :
    0 < line := by
  obtain ⟨n, -, hpos, hline⟩ := lineNumber_eq_ok_iff.mp h
  apply UInt32.lt_iff_toNat_lt.mpr
  rw [hline]
  exact hpos

theorem lineNumber_toString {line : LineNumber} (h : 0 < line) :
    Token.lineNumber ⟨toString line⟩ = .ok line := by
  apply lineNumber_eq_ok_iff.mpr
  refine ⟨line.toNat, ?_, UInt32.lt_iff_toNat_lt.mp h, rfl⟩
  rw [toList_toString_lineNumber, Text.numeral?_toDigits]

end Token

end NumberedBasic
