import Screening.Decimal.Rounding
import Mathlib.Data.Int.Log
import Mathlib.Data.Rat.Floor
import Mathlib.Tactic.FieldSimp
import Mathlib.Tactic.Linarith
import Mathlib.Tactic.NormNum
import Mathlib.Tactic.Positivity
import Mathlib.Tactic.Ring

/-!
# Decimal digits are rounded correctly

The digits of a quotient are found with whole numbers: the place of the first digit by counting
digits, and the others by one rounded division.  Here they are set against the quotient itself.

* `RoundsTo value n` — a whole number is the nearest one to a value, the even one of two.
* `leadingExponent_eq_log` — the place of the first digit is the logarithm.
* `Rounded places value m e` — the digits `m`, the first of them at `10 ^ e`, are a value rounded to
  one digit and `places` more.
* `rounded_roundedDigits` — the digits that are found are.
-/

set_option autoImplicit false

namespace Screening

-- Powers of natural numbers are those of core here, whatever other power is in scope.
attribute [local instance (2000)] instPowNat

/-! ## Rounding to whole numbers -/

/-- A whole number is the nearest one to a value; a half goes to the even one. -/
structure RoundsTo (value : ℚ) (n : ℕ) : Prop where
  /-- It is no further than a half. -/
  near : |(n : ℚ) - value| ≤ 1 / 2
  /-- It is even if another one is as near. -/
  even : |(n : ℚ) - value| = 1 / 2 → n % 2 = 0

/-- What is a half away from the rounded quotient is halfway between two whole numbers. -/
theorem two_mod_of_tie {num den : ℕ} (hden : 0 < den)
    (h : 2 * num = 2 * (roundDiv num den * den) + den ∨
      2 * (roundDiv num den * den) = 2 * num + den) : 2 * (num % den) = den := by
  have split := Nat.div_add_mod num den
  have small := Nat.mod_lt num hden
  have same : num / den * den = den * (num / den) := Nat.mul_comm _ _
  have next : (num / den + 1) * den = den * (num / den) + den := by rw [Nat.succ_mul, same]
  by_contra hno
  unfold roundDiv at h
  dsimp only at h
  split at h
  · rw [same] at h
    omega
  · rw [if_pos (by omega), next] at h
    omega

/-- **Quotients are rounded to the nearest whole number.** -/
theorem roundsTo_roundDiv (num : ℕ) {den : ℕ} (h : 0 < den) :
    RoundsTo (num / den) (roundDiv num den) := by
  have hden : (0 : ℚ) < den := by exact_mod_cast h
  have hscaled : ((roundDiv num den : ℚ) - num / den) * (2 * den) =
      2 * (roundDiv num den * den) - 2 * num := by
    field_simp
  obtain ⟨hlow, hhigh⟩ := roundDiv_near num h
  have hlow' : (2 : ℚ) * num ≤ 2 * (roundDiv num den * den) + den := by exact_mod_cast hlow
  have hhigh' : (2 : ℚ) * (roundDiv num den * den) ≤ 2 * num + den := by exact_mod_cast hhigh
  constructor
  · rw [abs_le]
    constructor <;> nlinarith
  · intro htie
    refine roundDiv_even (two_mod_of_tie h ?_)
    rcases eq_or_eq_neg_of_abs_eq htie with hup | hdown
    · right
      have hcast : (2 : ℚ) * (roundDiv num den * den) = 2 * num + den := by
        rw [hup] at hscaled
        linarith
      exact_mod_cast hcast
    · left
      have hcast : (2 : ℚ) * num = 2 * (roundDiv num den * den) + den := by
        rw [hdown] at hscaled
        linarith
      exact_mod_cast hcast

namespace RoundsTo

variable {value : ℚ} {n bound : ℕ}

/-- Rounding does not fall below a whole number. -/
theorem le_of_le (h : RoundsTo value n) (hbound : (bound : ℚ) ≤ value) : bound ≤ n := by
  have hnear := (abs_le.1 h.near).1
  have hlt : (bound : ℚ) < n + 1 := by linarith
  exact Nat.lt_succ_iff.1 (by exact_mod_cast hlt)

/-- Nor does it rise above one. -/
theorem le_of_lt (h : RoundsTo value n) (hbound : value < bound) : n ≤ bound := by
  have hnear := (abs_le.1 h.near).2
  have hlt : (n : ℚ) < bound + 1 := by linarith
  exact Nat.lt_succ_iff.1 (by exact_mod_cast hlt)

/-- Rounding a scaled value to a whole number rounds the value itself to a multiple of the scale. -/
theorem scaled {power : ℤ} (h : RoundsTo (value * 10 ^ (-power)) n) :
    |(n : ℚ) * 10 ^ power - value| ≤ 10 ^ power / 2 ∧
      (|(n : ℚ) * 10 ^ power - value| = 10 ^ power / 2 → n % 2 = 0) := by
  have hscale : (0 : ℚ) < 10 ^ power := zpow_pos (by norm_num) _
  have hback : value * 10 ^ (-power) * 10 ^ power = value := by
    rw [mul_assoc, ← zpow_add₀ (by norm_num), neg_add_cancel, zpow_zero, mul_one]
  have hoff : |(n : ℚ) * 10 ^ power - value| =
      |(n : ℚ) - value * 10 ^ (-power)| * 10 ^ power := by
    rw [← abs_of_pos hscale, ← abs_mul, abs_of_pos hscale, sub_mul, hback]
  rw [hoff]
  constructor
  · have := mul_le_mul_of_nonneg_right h.near hscale.le
    linarith
  · intro htie
    refine h.even (mul_right_cancel₀ hscale.ne' ?_)
    linarith

end RoundsTo

/-- A power is the quotient of two, of which one is that of zero. -/
theorem pow_toNat_div (base : ℕ) (power : ℤ) :
    ((base ^ power.toNat : ℕ) : ℚ) / ((base ^ (-power).toNat : ℕ) : ℚ) = (base : ℚ) ^ power := by
  obtain ⟨n, rfl | rfl⟩ := power.eq_nat_or_neg
  · have hdown : (-(n : ℤ)).toNat = 0 := by omega
    rw [hdown, Int.toNat_natCast, Nat.pow_zero, Nat.cast_one, div_one, Nat.cast_pow, zpow_natCast]
  · have hup : (-(n : ℤ)).toNat = 0 := by omega
    rw [hup, neg_neg, Int.toNat_natCast, Nat.pow_zero, Nat.cast_one, one_div, Nat.cast_pow, zpow_neg,
      zpow_natCast]

namespace Decimal

/-! ## The first digit -/

/-- A quotient is scaled by a power of ten. -/
theorem scale_eq (power : ℤ) (num den : ℕ) :
    ((scale power num den).1 : ℚ) / (scale power num den).2 = num / den * 10 ^ power := by
  rw [scale, Nat.cast_mul, Nat.cast_mul, mul_div_mul_comm, pow_toNat_div]
  norm_cast

theorem scale_den_pos (power : ℤ) (num : ℕ) {den : ℕ} (h : 0 < den) :
    0 < (scale power num den).2 :=
  Nat.mul_pos h (Nat.pow_pos (by decide))

/-- A value between two powers of ten that follow each other has the lower one as its logarithm. -/
theorem log_eq {value : ℚ} {k : ℤ} (hlow : (10 : ℚ) ^ k ≤ value) (hhigh : value < 10 ^ (k + 1)) :
    Int.log 10 value = k := by
  have hpos : 0 < value := lt_of_lt_of_le (zpow_pos (by norm_num) k) hlow
  have hle := (Int.zpow_le_iff_le_log (b := 10) (by decide) hpos).1 (by exact_mod_cast hlow)
  have hlt := (Int.lt_zpow_iff_log_lt (b := 10) (by decide) hpos).1 (by exact_mod_cast hhigh)
  omega

/-- Counting digits finds the two powers of ten around a number. -/
theorem exists_digitCount_eq {n : ℕ} (h : 0 < n) :
    ∃ k, digitCount n = k + 1 ∧ 10 ^ k ≤ n ∧ n < 10 ^ (k + 1) := by
  have hcount := digitCount_of_pos h
  exact ⟨digitCount (n / 10), hcount, pow_le_iff.2 (by omega), lt_pow_iff.2 (Nat.le_of_eq hcount)⟩

/-- **The first digit is found at the logarithm.** -/
theorem leadingExponent_eq_log {num den : ℕ} (hnum : 0 < num) (hden : 0 < den) :
    leadingExponent num den = Int.log 10 (num / den : ℚ) := by
  have hpos : (0 : ℚ) < den := by exact_mod_cast hden
  rw [leadingExponent]
  split
  · rename_i hle
    obtain ⟨k, hk, hlow, hhigh⟩ := exists_digitCount_eq (Nat.div_pos hle hden)
    rw [Nat.le_div_iff_mul_le hden] at hlow
    rw [Nat.div_lt_iff_lt_mul hden] at hhigh
    have hexponent : (digitCount (num / den) : ℤ) - 1 = k := by omega
    rw [hexponent]
    refine (log_eq ?_ ?_).symm
    · rw [zpow_natCast, le_div_iff₀ hpos]
      exact_mod_cast hlow
    · rw [← Nat.cast_succ, zpow_natCast, div_lt_iff₀ hpos]
      exact_mod_cast hhigh
  · rename_i hlt
    have hle : num ≤ den - 1 := by omega
    obtain ⟨k, hk, hlow, hhigh⟩ := exists_digitCount_eq (Nat.div_pos hle hnum)
    rw [Nat.le_div_iff_mul_le hnum] at hlow
    rw [Nat.div_lt_iff_lt_mul hnum] at hhigh
    have hlow' : (10 : ℚ) ^ k * num < den := by
      have : 10 ^ k * num < den := by omega
      exact_mod_cast this
    have hhigh' : (den : ℚ) ≤ 10 ^ (k + 1) * num := by
      have : den ≤ 10 ^ (k + 1) * num := by omega
      exact_mod_cast this
    rw [hk]
    refine (log_eq ?_ ?_).symm
    · rw [zpow_neg, zpow_natCast, inv_eq_one_div, div_le_div_iff₀ (by positivity) hpos]
      linarith
    · have hnext : -((k + 1 : ℕ) : ℤ) + 1 = -(k : ℤ) := by omega
      rw [hnext, zpow_neg, zpow_natCast, inv_eq_one_div, div_lt_div_iff₀ hpos (by positivity)]
      linarith

/-! ## All digits -/

/-- The digits `m`, the first of them at `10 ^ e`, are a value rounded to one digit and `places`
more: they are as many, the first one is at the logarithm of the value or the value was rounded up
to the next power of ten, and they are as near to the value as such digits can be. -/
structure Rounded (places : ℕ) (value : ℚ) (m : ℕ) (e : ℤ) : Prop where
  /-- There are as many digits. -/
  digits : 10 ^ places ≤ m ∧ m < 10 ^ (places + 1)
  /-- The place of the first one. -/
  exponent : e = Int.log 10 value ∨ e = Int.log 10 value + 1 ∧ m = 10 ^ places
  /-- They are off by half of the last place of the value at most. -/
  near : |(m : ℚ) * 10 ^ (e - places) - value| ≤ 10 ^ (Int.log 10 value - places) / 2
  /-- Of two that are as near, they are the even ones. -/
  even : |(m : ℚ) * 10 ^ (e - places) - value| = 10 ^ (Int.log 10 value - places) / 2 → m % 2 = 0

/-- Nor are they off by more than half of their own last place. -/
theorem Rounded.near_last {places m : ℕ} {value : ℚ} {e : ℤ} (h : Rounded places value m e) :
    |(m : ℚ) * 10 ^ (e - places) - value| ≤ 10 ^ (e - places) / 2 ∧
      (|(m : ℚ) * 10 ^ (e - places) - value| = 10 ^ (e - places) / 2 → m % 2 = 0) := by
  have hnear := h.near
  rcases h.exponent with rfl | ⟨rfl, -⟩
  · exact ⟨hnear, h.even⟩
  · have hless : (10 : ℚ) ^ (Int.log 10 value - places) < 10 ^ (Int.log 10 value + 1 - places) :=
      zpow_lt_zpow_right₀ (by norm_num) (by omega)
    constructor
    · linarith
    · intro htie
      linarith

section

variable {places num den : ℕ}

/-- A value and its scaled form, of which the digits before the point are wanted. -/
theorem scaled_bounds {value : ℚ} (hpos : 0 < value) (places : ℕ) :
    ((10 ^ places : ℕ) : ℚ) ≤ value * 10 ^ (places - Int.log 10 value) ∧
      value * 10 ^ (places - Int.log 10 value) < ((10 ^ (places + 1) : ℕ) : ℚ) := by
  have hlow : (10 : ℚ) ^ Int.log 10 value ≤ value := by
    exact_mod_cast Int.zpow_log_le_self (b := 10) (by decide) hpos
  have hhigh : value < (10 : ℚ) ^ (Int.log 10 value + 1) := by
    exact_mod_cast Int.lt_zpow_succ_log_self (b := 10) (by decide) value
  have hscale : (0 : ℚ) < 10 ^ (places - Int.log 10 value) := zpow_pos (by norm_num) _
  have hten : (10 : ℚ) ≠ 0 := by norm_num
  constructor
  · calc ((10 ^ places : ℕ) : ℚ)
        = 10 ^ Int.log 10 value * 10 ^ (places - Int.log 10 value) := by
          rw [← zpow_add₀ hten, add_sub_cancel, zpow_natCast]
          push_cast
          rfl
      _ ≤ _ := by gcongr
  · calc value * 10 ^ (places - Int.log 10 value)
        < 10 ^ (Int.log 10 value + 1) * 10 ^ (places - Int.log 10 value) := by gcongr
      _ = ((10 ^ (places + 1) : ℕ) : ℚ) := by
          have hexponent : Int.log 10 value + 1 + (places - Int.log 10 value) =
              ((places + 1 : ℕ) : ℤ) := by
            push_cast
            ring
          rw [← zpow_add₀ hten, hexponent, zpow_natCast]
          push_cast
          rfl

/-- **The digits that are found are those of the quotient, correctly rounded.** -/
theorem rounded_roundedDigits (hplaces : 0 < places) (hnum : 0 < num) (hden : 0 < den) :
    Rounded places (num / den) (roundedDigits places num den).1
      (roundedDigits places num den).2 := by
  have hvalue : (0 : ℚ) < num / den := div_pos (by exact_mod_cast hnum) (by exact_mod_cast hden)
  have hround := roundsTo_roundDiv (scale (places - leadingExponent num den) num den).1
    (scale_den_pos (places - leadingExponent num den) num hden)
  rw [roundedDigits, if_neg hnum.ne']
  dsimp only
  rw [scale_eq, leadingExponent_eq_log hnum hden] at hround
  rw [leadingExponent_eq_log hnum hden]
  generalize (num / den : ℚ) = value at *
  obtain ⟨hlow, hhigh⟩ := scaled_bounds hvalue places
  generalize roundDiv _ _ = rounded at *
  have hle := hround.le_of_le hlow
  have hge := hround.le_of_lt hhigh
  rw [← neg_sub] at hround
  obtain ⟨hnear, heven⟩ := hround.scaled
  split
  · rename_i hcarry
    have hsame : ((10 ^ places : ℕ) : ℚ) * 10 ^ (Int.log 10 value + 1 - places) =
        rounded * 10 ^ (Int.log 10 value - places) := by
      rw [hcarry, add_sub_right_comm, zpow_add_one₀ (by norm_num)]
      push_cast
      ring
    have hten : 10 ^ places % 2 = 0 := by
      obtain ⟨rest, rfl⟩ := Nat.exists_eq_add_of_le' hplaces
      rw [Nat.pow_succ]
      omega
    exact ⟨⟨Nat.le_refl _, Nat.pow_lt_pow_right (by decide) (Nat.lt_succ_self _)⟩, .inr ⟨rfl, rfl⟩,
      hsame ▸ hnear, fun _ => hten⟩
  · rename_i hno
    exact ⟨⟨hle, lt_of_le_of_ne hge hno⟩, .inl rfl, hnear, heven⟩

end

end Decimal

end Screening
