/-!
# Line numbers and values

Lines are numbered by 32-bit words, and a stored line never has number 0. Values are signed 32-bit
integers; a result outside their range is refused, never wrapped.
-/

namespace NumberedBasic

abbrev LineNumber := UInt32

abbrev Value := Int32

/-- The line number that `n` denotes, if a stored line can have it. -/
def LineNumber.ofNat? (n : Nat) : Option LineNumber :=
  if 0 < n ∧ n < UInt32.size then some (UInt32.ofNat n) else none

/-- The value that `n` denotes, if `n` is in range. -/
def Value.ofInt? (n : Int) : Option Value :=
  if -2147483648 ≤ n ∧ n ≤ 2147483647 then some (Int32.ofInt n) else none

theorem LineNumber.ofNat?_eq_some_iff {n : Nat} {line : LineNumber} :
    LineNumber.ofNat? n = some line ↔ 0 < n ∧ line.toNat = n := by
  unfold LineNumber.ofNat?
  split
  next h =>
    rw [Option.some.injEq]
    refine ⟨fun e => ⟨h.1, e ▸ UInt32.toNat_ofNat_of_lt' h.2⟩, fun ⟨_, e⟩ => ?_⟩
    rw [← e, UInt32.ofNat_toNat]
  next h =>
    have : line.toNat < UInt32.size := line.toNat_lt
    simp only [reduceCtorEq, false_iff]
    omega

theorem Value.ofInt?_eq_some_iff {n : Int} {value : Value} :
    Value.ofInt? n = some value ↔ value.toInt = n := by
  unfold Value.ofInt?
  split
  next h =>
    rw [Option.some.injEq]
    refine ⟨fun e => e ▸ Int32.toInt_ofInt_of_le (by omega) (by omega), fun e => ?_⟩
    rw [← e, Int32.ofInt_toInt]
  next h =>
    have := value.le_toInt
    have := value.toInt_lt
    simp only [reduceCtorEq, false_iff]
    omega

end NumberedBasic
