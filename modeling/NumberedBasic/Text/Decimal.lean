import Mathlib.Data.Nat.Digits.Defs

/-!
# Decimal notation

What a run of decimal digits stands for, however many zeros it begins with.
-/

namespace NumberedBasic.Text

/-- There are digits that the text writes down, at least one of them, and they have the value `n`. They
are written from the last one, which has the highest weight, to the first one, which counts the ones. -/
def Denotes (cs : List Char) (n : Nat) : Prop :=
  ∃ digits : List Nat, digits ≠ [] ∧ (∀ digit ∈ digits, digit < 10) ∧
    cs = (digits.map Nat.digitChar).reverse ∧ Nat.ofDigits 10 digits = n

/-- What is left of a numeral without the zeros at its beginning. -/
def stripZeros (cs : List Char) : List Char := cs.dropWhile (· = '0')

end NumberedBasic.Text
