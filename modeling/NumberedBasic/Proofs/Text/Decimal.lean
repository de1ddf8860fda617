import Mathlib.Data.List.DropRight
import NumberedBasic.Proofs.Text.Numerals
import NumberedBasic.Text.Decimal

/-!
# Numerals are read exactly

A token is read as the number that its digits stand for in decimal notation, as long as that number is in
range. Zeros at the beginning say nothing, and everything else does.
-/

namespace NumberedBasic

namespace Text

variable {cs other : List Char} {n : Nat}

/-! ### Digits -/

theorem digitChar_of_isDigit {c : Char} (h : c.isDigit) :
    c.toNat - 48 < 10 ∧ Nat.digitChar (c.toNat - 48) = c := by
  have hrange := isDigit_range h
  have hlt : c.toNat - 48 < 10 := by omega
  refine ⟨hlt, Char.toNat_inj.mp ?_⟩
  rw [Nat.toNat_digitChar_of_lt_ten hlt]
  omega

/-- Reading from the highest digit down gives the sum of the weighted digits. -/
theorem ofDigitChars_eq_ofDigits {digits : List Nat} (h : ∀ digit ∈ digits, digit < 10) :
    Nat.ofDigitChars 10 (digits.map Nat.digitChar).reverse 0 = Nat.ofDigits 10 digits := by
  induction digits with
  | nil => rfl
  | cons digit rest ih =>
      obtain ⟨hdigit, hrest⟩ := List.forall_mem_cons.mp h
      rw [List.map_cons, List.reverse_cons, Nat.ofDigitChars_append, ih hrest,
        Nat.ofDigitChars_cons_digitChar_of_lt_ten hdigit, Nat.ofDigitChars_nil, Nat.ofDigits_cons,
        Nat.add_comm]

theorem isNumeral_of_digits {digits : List Nat} (hne : digits ≠ [])
    (h : ∀ digit ∈ digits, digit < 10) : isNumeral (digits.map Nat.digitChar).reverse := by
  have hdigits : ∀ c ∈ (digits.map Nat.digitChar).reverse, c.isDigit := by
    intro c hc
    obtain ⟨digit, hdigit, rfl⟩ := List.mem_map.mp (List.mem_reverse.mp hc)
    rw [Nat.isDigit_digitChar]
    exact decide_eq_true (h digit hdigit)
  simpa [isNumeral, hne] using hdigits

theorem numeral?_eq_some_iff_denotes : numeral? cs = some n ↔ Denotes cs n := by
  constructor
  · intro h
    obtain ⟨hnumeral, rfl⟩ := numeral?_eq_some_iff.mp h
    have hdigit : ∀ c ∈ cs, c.toNat - 48 < 10 ∧ Nat.digitChar (c.toNat - 48) = c :=
      fun c hc => digitChar_of_isDigit (isDigit_of_mem hnumeral hc)
    let digits : List Nat := (cs.map fun c => c.toNat - 48).reverse
    have hne : digits ≠ [] := by
      rintro hnil
      have hcs : cs = [] := by simpa [digits] using hnil
      rw [hcs] at hnumeral
      cases hnumeral
    have hlt : ∀ digit ∈ digits, digit < 10 := by
      intro digit hmem
      obtain ⟨c, hc, rfl⟩ := List.mem_map.mp (List.mem_reverse.mp hmem)
      exact (hdigit c hc).1
    have hcs : cs = (digits.map Nat.digitChar).reverse := by
      rw [List.map_reverse, List.reverse_reverse, List.map_map]
      exact ((List.map_congr_left fun c hc => (hdigit c hc).2).trans (List.map_id cs)).symm
    refine ⟨digits, hne, hlt, hcs, ?_⟩
    rw [← ofDigitChars_eq_ofDigits hlt, ← hcs]
  · rintro ⟨digits, hne, hlt, rfl, rfl⟩
    exact numeral?_eq_some_iff.mpr ⟨isNumeral_of_digits hne hlt, ofDigitChars_eq_ofDigits hlt⟩

/-! ### Zeros at the beginning -/

theorem ofDigits_rdropWhile (digits : List Nat) :
    Nat.ofDigits 10 (digits.rdropWhile (· = 0)) = Nat.ofDigits 10 digits := by
  induction digits using List.reverseRecOn with
  | nil => rfl
  | append_singleton digits top ih =>
      rw [List.rdropWhile_concat]
      split
      next htop =>
        rw [ih, of_decide_eq_true htop, Nat.ofDigits_append, Nat.ofDigits_singleton, Nat.mul_zero,
          Nat.add_zero]
      next => rfl

/-- The digits of a number, without the zeros of high weight, are those of its shortest numeral. -/
theorem rdropWhile_eq_digits {digits : List Nat} (h : ∀ digit ∈ digits, digit < 10) :
    digits.rdropWhile (· = 0) = Nat.digits 10 (Nat.ofDigits 10 digits) := by
  rw [← ofDigits_rdropWhile digits]
  refine (Nat.digits_ofDigits 10 (by decide) _ ?_ fun hne => ?_).symm
  · exact fun digit hmem => h digit ((List.rdropWhile_prefix _ _).subset hmem)
  · simpa using List.rdropWhile_last_not _ _ hne

theorem stripZeros_map_digitChar (digits : List Nat) :
    stripZeros (digits.map Nat.digitChar).reverse =
      ((digits.rdropWhile (· = 0)).map Nat.digitChar).reverse := by
  have hzero : (fun c : Char => decide (c = '0')) ∘ Nat.digitChar = fun digit => decide (digit = 0) :=
    funext fun digit => decide_eq_decide.mpr Nat.digitChar_eq_zero
  rw [stripZeros, ← List.map_reverse, List.dropWhile_map, hzero, List.rdropWhile, List.map_reverse,
    List.reverse_reverse]

theorem stripZeros_of_denotes (h : Denotes cs n) :
    stripZeros cs = ((Nat.digits 10 n).map Nat.digitChar).reverse := by
  obtain ⟨digits, -, hlt, rfl, rfl⟩ := h
  rw [stripZeros_map_digitChar, rdropWhile_eq_digits hlt]

/-- No value is lost with the zeros. -/
theorem ofDigitChars_stripZeros (h : Denotes cs n) : Nat.ofDigitChars 10 (stripZeros cs) 0 = n := by
  rw [stripZeros_of_denotes h,
    ofDigitChars_eq_ofDigits fun _ hdigit => Nat.digits_lt_base (by decide) hdigit,
    Nat.ofDigits_digits]

theorem exists_denotes_of_isNumeral (h : isNumeral cs) : ∃ n, Denotes cs n :=
  ⟨_, numeral?_eq_some_iff_denotes.mp (numeral?_eq_some_iff.mpr ⟨h, rfl⟩)⟩

theorem Denotes.isNumeral (h : Denotes cs n) : isNumeral cs :=
  (numeral?_eq_some_iff.mp (numeral?_eq_some_iff_denotes.mpr h)).1

theorem exists_denotes_both_iff :
    (∃ n, Denotes cs n ∧ Denotes other n) ↔
      isNumeral cs ∧ isNumeral other ∧ stripZeros cs = stripZeros other := by
  constructor
  · rintro ⟨n, hcs, hother⟩
    exact ⟨hcs.isNumeral, hother.isNumeral,
      (stripZeros_of_denotes hcs).trans (stripZeros_of_denotes hother).symm⟩
  · rintro ⟨hcs, hother, hstrip⟩
    obtain ⟨n, hn⟩ := exists_denotes_of_isNumeral hcs
    obtain ⟨m, hm⟩ := exists_denotes_of_isNumeral hother
    have hsame : m = n := by rw [← ofDigitChars_stripZeros hm, ← hstrip, ofDigitChars_stripZeros hn]
    exact ⟨n, hn, hsame ▸ hm⟩

end Text

namespace Token

open Text (Denotes stripZeros)

variable {token : Token}

/-! ### Values -/

theorem value_eq_ok_iff_denotes {value : Value} :
    token.value = .ok value ↔
      ∃ n : Nat, Denotes token.text.toList n ∧ n ≤ 2147483647 ∧ value.toInt = n := by
  rw [value_eq_ok_iff]
  refine exists_congr fun n => and_congr Text.numeral?_eq_some_iff_denotes ?_
  rw [Value.ofInt?_eq_some_iff]
  refine ⟨fun hn => ⟨?_, hn⟩, And.right⟩
  have hlt := value.toInt_lt
  omega

theorem exists_value_iff_denotes :
    (∃ value, token.value = .ok value) ↔ ∃ n : Nat, Denotes token.text.toList n ∧ n ≤ 2147483647 := by
  constructor
  · rintro ⟨value, h⟩
    obtain ⟨n, hn, hle, -⟩ := value_eq_ok_iff_denotes.mp h
    exact ⟨n, hn, hle⟩
  · rintro ⟨n, hn, hle⟩
    exact ⟨Int32.ofInt n, value_eq_ok_iff_denotes.mpr
      ⟨n, hn, hle, Int32.toInt_ofInt_of_le (by omega) (by omega)⟩⟩

/-- The printed form of a value reads back unless it has a sign. -/
theorem value_toString_iff {value : Value} : Token.value ⟨toString value⟩ = .ok value ↔ 0 ≤ value := by
  refine ⟨fun h => ?_, value_toString⟩
  obtain ⟨n, -, -, hn⟩ := value_eq_ok_iff_denotes.mp h
  rw [Int32.le_iff_toInt_le, hn]
  exact Int.natCast_nonneg n

/-! ### Line numbers -/

theorem lineNumber_eq_ok_iff_denotes {line : LineNumber} :
    token.lineNumber = .ok line ↔
      ∃ n : Nat, Denotes token.text.toList n ∧ 1 ≤ n ∧ n ≤ 4294967295 ∧ line.toNat = n := by
  rw [lineNumber_eq_ok_iff]
  refine exists_congr fun n => and_congr Text.numeral?_eq_some_iff_denotes (and_congr_right fun _ => ?_)
  refine ⟨fun hn => ⟨?_, hn⟩, And.right⟩
  have hlt := line.toNat_lt
  omega

theorem exists_lineNumber_iff_denotes :
    (∃ line, token.lineNumber = .ok line) ↔
      ∃ n : Nat, Denotes token.text.toList n ∧ 1 ≤ n ∧ n ≤ 4294967295 := by
  constructor
  · rintro ⟨line, h⟩
    obtain ⟨n, hn, hpos, hle, -⟩ := lineNumber_eq_ok_iff_denotes.mp h
    exact ⟨n, hn, hpos, hle⟩
  · rintro ⟨n, hn, hpos, hle⟩
    exact ⟨UInt32.ofNat n, lineNumber_eq_ok_iff_denotes.mpr
      ⟨n, hn, hpos, hle, UInt32.toNat_ofNat_of_lt' (Nat.lt_succ_of_le hle)⟩⟩

theorem lineNumber_toString_iff {line : LineNumber} :
    Token.lineNumber ⟨toString line⟩ = .ok line ↔ 0 < line :=
  ⟨pos_of_lineNumber, lineNumber_toString⟩

/-! ### Exactness -/

/-- A token is read as a value or as a line number exactly where its digits stand for a number that is
in range. The number read is that one, what is printed reads back, and two numerals stand for one number
exactly where they differ in zeros at the beginning alone. -/
theorem reads_numerals_exactly (token other : Token) :
    (∀ value, token.value = .ok value ↔
      ∃ n : Nat, Denotes token.text.toList n ∧ n ≤ 2147483647 ∧ value.toInt = n) ∧
    ((∃ value, token.value = .ok value) ↔
      ∃ n : Nat, Denotes token.text.toList n ∧ n ≤ 2147483647) ∧
    (∀ line, token.lineNumber = .ok line ↔
      ∃ n : Nat, Denotes token.text.toList n ∧ 1 ≤ n ∧ n ≤ 4294967295 ∧ line.toNat = n) ∧
    ((∃ line, token.lineNumber = .ok line) ↔
      ∃ n : Nat, Denotes token.text.toList n ∧ 1 ≤ n ∧ n ≤ 4294967295) ∧
    (∀ value : Value, Token.value ⟨toString value⟩ = .ok value ↔ 0 ≤ value) ∧
    (∀ line : LineNumber, Token.lineNumber ⟨toString line⟩ = .ok line ↔ 0 < line) ∧
    ((∃ n, Denotes token.text.toList n ∧ Denotes other.text.toList n) ↔
      token.isNumber ∧ other.isNumber ∧
        stripZeros token.text.toList = stripZeros other.text.toList) :=
  ⟨fun _ => value_eq_ok_iff_denotes, exists_value_iff_denotes, fun _ => lineNumber_eq_ok_iff_denotes,
    exists_lineNumber_iff_denotes, fun _ => value_toString_iff, fun _ => lineNumber_toString_iff,
    Text.exists_denotes_both_iff⟩

/-- The limit, the limit behind a zero, and the first number above it. -/
example : ["2147483647", "02147483647", "2147483648"].map (fun text => (Token.value ⟨text⟩).toOption) =
    [some 2147483647, some 2147483647, none] := by
  decide +kernel

end Token

end NumberedBasic
