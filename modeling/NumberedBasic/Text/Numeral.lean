/-!
# Decimal numerals

An unsigned numeral is a non-empty run of ASCII digits, with any number of leading zeros. A signed
one may carry one sign in front. Reading is exact: no numeral is too long to have a value, and
limits are the business of whoever reads it.
-/

namespace NumberedBasic.Text

def isNumeral (cs : List Char) : Bool :=
  !cs.isEmpty && cs.all Char.isDigit

/-- The value of an unsigned numeral. -/
def numeral? (cs : List Char) : Option Nat :=
  if isNumeral cs then some (Nat.ofDigitChars 10 cs 0) else none

/-- The value of a numeral with at most one sign. -/
def signedNumeral? : List Char → Option Int
  | '+' :: digits => (numeral? digits).map Int.ofNat
  | '-' :: digits => (numeral? digits).map fun n => -(n : Int)
  | digits => (numeral? digits).map Int.ofNat

theorem numeral?_eq_some_iff {cs : List Char} {n : Nat} :
    numeral? cs = some n ↔ isNumeral cs ∧ Nat.ofDigitChars 10 cs 0 = n := by
  unfold numeral?
  split
  next h => simp [h]
  next h => simp [h]

theorem isNumeral_toDigits (n : Nat) : isNumeral (Nat.toDigits 10 n) := by
  have nonempty : Nat.toDigits 10 n ≠ [] := Nat.toDigits_ne_nil
  have digits : ∀ c ∈ Nat.toDigits 10 n, c.isDigit := fun c hc =>
    Nat.isDigit_of_mem_toDigits (by decide) (by decide) hc
  simpa [isNumeral, nonempty] using digits

/-- A printed natural number reads back as itself. -/
theorem numeral?_toDigits (n : Nat) : numeral? (Nat.toDigits 10 n) = some n :=
  numeral?_eq_some_iff.mpr ⟨isNumeral_toDigits n, Nat.ofDigitChars_toDigits (by decide) (by decide)⟩

end NumberedBasic.Text
