/-!
# Decimal digits

* `digitCount n` — how many digits a number has; zero has none.
* `fixedDigits width n` — the last `width` digits of a number, zeros in front where it is shorter.
* `digits n` — all digits of a number, one zero for zero.

`lt_pow_iff` is what the count is for: it finds the power of ten just above a number.
-/

set_option autoImplicit false

namespace Screening.Decimal

-- Powers of natural numbers are those of core here, whatever other power is in scope.
attribute [local instance (2000)] instPowNat

/-- The number of digits of a number, none for zero. -/
def digitCount (n : Nat) : Nat := if n = 0 then 0 else digitCount (n / 10) + 1

/-- The last `width` digits of a number. -/
def fixedDigits : Nat → Nat → List Char
  | 0, _ => []
  | width + 1, n => fixedDigits width (n / 10) ++ [Nat.digitChar (n % 10)]

/-- The digits of a number, at least `least` of them. -/
def digitsAtLeast (least n : Nat) : List Char := fixedDigits (Nat.max least (digitCount n)) n

/-- The digits of a number. -/
def digits (n : Nat) : List Char := digitsAtLeast 1 n

@[simp] theorem digitCount_zero : digitCount 0 = 0 := by
  rw [digitCount, if_pos rfl]

theorem digitCount_of_pos {n : Nat} (h : 0 < n) : digitCount n = digitCount (n / 10) + 1 := by
  rw [digitCount, if_neg (by omega)]

@[simp] theorem length_fixedDigits (width n : Nat) : (fixedDigits width n).length = width := by
  induction width generalizing n with
  | zero => rfl
  | succ width ih => rw [fixedDigits, List.length_append, ih]; rfl

/-- **The count of digits finds the power of ten above a number.** -/
theorem lt_pow_iff {n k : Nat} : n < 10 ^ k ↔ digitCount n ≤ k := by
  induction k generalizing n with
  | zero =>
    rcases Nat.eq_zero_or_pos n with rfl | h
    · simp
    · rw [digitCount_of_pos h, Nat.pow_zero]
      omega
  | succ k ih =>
    rcases Nat.eq_zero_or_pos n with rfl | h
    · exact iff_of_true (Nat.pow_pos (by decide)) (by simp)
    · rw [digitCount_of_pos h, Nat.pow_succ, Nat.add_le_add_iff_right, ← ih,
        Nat.div_lt_iff_lt_mul (by decide)]

theorem pow_le_iff {n k : Nat} : 10 ^ k ≤ n ↔ k < digitCount n := by
  rw [← Nat.not_lt, lt_pow_iff, Nat.not_le]

end Screening.Decimal
