import NumberedBasic.Expression
import NumberedBasic.Bindings

/-!
# Evaluation

Arithmetic is exact. A result is computed on the integers and handed out if it is a value; division
truncates toward zero, and a negative exponent gives zero.

The right operand is evaluated before the left one, which decides between two faults.
-/

namespace NumberedBasic

namespace Operator

/-- A result that has to be a value. -/
def checked (n : Int) : Except Fault Value :=
  match Value.ofInt? n with
  | some value => .ok value
  | none => .error .overflow

/-- The power of a base to an exponent that is not negative. Past 31 no base but 0, 1 and -1 has a
power in range, and the powers of these repeat with period two. -/
def raise (base : Int) (exponent : Nat) : Except Fault Value :=
  if exponent < 32 then
    checked (base.pow exponent)
  else if base.natAbs ≤ 1 then
    checked (base.pow (2 + exponent % 2))
  else
    .error .overflow

def apply (op : Operator) (lhs rhs : Value) : Except Fault Value :=
  match op with
  | .add => checked (lhs.toInt + rhs.toInt)
  | .subtract => checked (lhs.toInt - rhs.toInt)
  | .multiply => checked (lhs.toInt * rhs.toInt)
  | .divide =>
      if rhs = 0 then .error .divisionByZero else checked (lhs.toInt.tdiv rhs.toInt)
  | .power =>
      if rhs < 0 then .ok 0 else raise lhs.toInt rhs.toInt.toNat

theorem checked_of_lt_natAbs {n : Int} (h : 2147483648 < n.natAbs) :
    checked n = .error .overflow := by
  unfold checked Value.ofInt?
  rw [if_neg (by omega)]

theorem pow_eq_pow_parity {base : Int} (small : base.natAbs ≤ 1) (exponent : Nat)
    (positive : 0 < exponent) : base.pow exponent = base.pow (2 + exponent % 2) := by
  change base ^ exponent = base ^ (2 + exponent % 2)
  have cases : base = 0 ∨ base = 1 ∨ base = -1 := by omega
  rcases cases with rfl | rfl | rfl
  · rw [Int.zero_pow (by omega), Int.zero_pow (by omega)]
  · rw [Int.one_pow, Int.one_pow]
  · have square : ((-1 : Int) ^ 2) = 1 := rfl
    conv => lhs; rw [← Nat.div_add_mod exponent 2]
    rw [Int.pow_add, Int.pow_add, Int.pow_mul, square, Int.one_pow]

/-- Raising is exact. -/
theorem raise_eq (base : Int) (exponent : Nat) : raise base exponent = checked (base.pow exponent) := by
  unfold raise
  split
  next => rfl
  next large =>
    split
    next small => rw [pow_eq_pow_parity small exponent (by omega)]
    next big =>
      rw [checked_of_lt_natAbs]
      change 2147483648 < (base ^ exponent).natAbs
      rw [Int.natAbs_pow]
      calc
        2147483648 < 2 ^ 32 := by decide
        _ ≤ 2 ^ exponent := Nat.pow_le_pow_right (by decide) (by omega)
        _ ≤ base.natAbs ^ exponent := Nat.pow_le_pow_left (by omega) exponent

end Operator

namespace Expression

def evaluate (bindings : Bindings) : Expression → Except Fault Value
  | constant value => .ok value
  | var name => bindings.fetch name
  | compound op lhs rhs =>
      match rhs.evaluate bindings with
      | .error fault => .error fault
      | .ok right =>
          match lhs.evaluate bindings with
          | .error fault => .error fault
          | .ok left => op.apply left right

end Expression

end NumberedBasic
