import Screening.Binary64.Nearest
import Screening.Proofs.NumberOrder

/-!
# Rounding to doubles

A quotient is rounded by counting bits and one rounded division.  Here the outcome is set against
the quotient itself: it is near, and it is finite unless the quotient is half a step beyond the
largest number.

* `Binary64.floorLog2_eq_log` — the bits are counted right.
* `Binary64.overflowBound` — half a step beyond the largest number.
* `Binary64.nearest_rounds` — the outcome is off by half of its last bit at most.
* `Binary64.abs_nearest_le` — so it is not larger by more than one part in `2 ^ 53`.
-/

set_option autoImplicit false

namespace Screening.Binary64

-- Powers of natural numbers are those of core here, whatever other power is in scope.
attribute [local instance (2000)] instPowNat

/-! ## Counting bits -/

/-- A value between two powers of two that follow each other has the lower one as its logarithm. -/
theorem log_two_eq {value : ℚ} {k : ℤ} (hlow : (2 : ℚ) ^ k ≤ value) (hhigh : value < 2 ^ (k + 1)) :
    Int.log 2 value = k := by
  have hpos : 0 < value := lt_of_lt_of_le (zpow_pos (by norm_num) k) hlow
  have hle := (Int.zpow_le_iff_le_log (b := 2) (by decide) hpos).1 (by exact_mod_cast hlow)
  have hlt := (Int.lt_zpow_iff_log_lt (b := 2) (by decide) hpos).1 (by exact_mod_cast hhigh)
  omega

/-- The number of bits puts a number between two powers of two. -/
theorem log2_bounds {n : ℕ} (h : 0 < n) :
    (2 : ℚ) ^ (n.log2 : ℤ) ≤ n ∧ (n : ℚ) < 2 ^ ((n.log2 : ℤ) + 1) := by
  constructor
  · rw [zpow_natCast]
    exact_mod_cast Nat.log2_self_le h.ne'
  · rw [← Nat.cast_succ, zpow_natCast]
    exact_mod_cast Nat.lt_log2_self

/-- **The bits of a quotient are counted right.** -/
theorem floorLog2_eq_log {num den : ℕ} (hnum : 0 < num) (hden : 0 < den) :
    floorLog2 num den = Int.log 2 (num / den : ℚ) := by
  have hpos : (0 : ℚ) < den := by exact_mod_cast hden
  obtain ⟨hnumLow, hnumHigh⟩ := log2_bounds hnum
  obtain ⟨hdenLow, hdenHigh⟩ := log2_bounds hden
  have htwo : (2 : ℚ) ≠ 0 := by norm_num
  have hlow : (2 : ℚ) ^ ((num.log2 : ℤ) - den.log2 - 1) ≤ num / den := by
    rw [le_div_iff₀ hpos]
    calc (2 : ℚ) ^ ((num.log2 : ℤ) - den.log2 - 1) * den
        ≤ 2 ^ ((num.log2 : ℤ) - den.log2 - 1) * 2 ^ ((den.log2 : ℤ) + 1) :=
          mul_le_mul_of_nonneg_left hdenHigh.le (zpow_pos (by norm_num) _).le
      _ = 2 ^ (num.log2 : ℤ) := by
          rw [← zpow_add₀ htwo]
          congr 1
          omega
      _ ≤ num := hnumLow
  have hhigh : (num / den : ℚ) < 2 ^ ((num.log2 : ℤ) - den.log2 + 1) := by
    rw [div_lt_iff₀ hpos]
    calc (num : ℚ) < 2 ^ ((num.log2 : ℤ) + 1) := hnumHigh
      _ = 2 ^ ((num.log2 : ℤ) - den.log2 + 1) * 2 ^ (den.log2 : ℤ) := by
          rw [← zpow_add₀ htwo]
          congr 1
          omega
      _ ≤ 2 ^ ((num.log2 : ℤ) - den.log2 + 1) * den :=
          mul_le_mul_of_nonneg_left hdenLow (zpow_pos (by norm_num) _).le
  have hguess := powerOfTwo_eq ((num.log2 : ℤ) - den.log2)
  obtain ⟨hup, hdown⟩ := powerOfTwo_pos ((num.log2 : ℤ) - den.log2)
  have hdown' : (0 : ℚ) < (powerOfTwo ((num.log2 : ℤ) - den.log2)).2 := by exact_mod_cast hdown
  rw [floorLog2]
  dsimp only
  split
  · rename_i hless
    refine (log_two_eq hlow ?_).symm
    rw [sub_add_cancel, ← hguess, div_lt_div_iff₀ hpos hdown', mul_comm (Nat.cast _) (den : ℚ)]
    exact_mod_cast hless
  · rename_i hmore
    refine (log_two_eq ?_ hhigh).symm
    rw [← hguess, div_le_div_iff₀ hdown' hpos, mul_comm (Nat.cast _) (den : ℚ)]
    exact_mod_cast Nat.not_lt.1 hmore

/-! ## The number that is put together -/

/-- The number with so many steps of `2 ^ e` of the smallest one, where these are as many as a
significand has or one more than any has. -/
theorem units_ofNat {e n : ℕ} (hn : n ≤ 2 * exponentWeight) (hleading : exponentWeight ≤ n ∨ e = 0)
    (hlt : e * exponentWeight + n < 2047 * exponentWeight) :
    let x : Binary64 := ⟨UInt64.ofNat (e * exponentWeight + n)⟩
    x.isFinite = true ∧ x.units = n * 2 ^ e := by
  have hword : e * exponentWeight + n < UInt64.size := Nat.lt_trans hlt (by decide)
  intro x
  have hbits : x.bits.toNat = e * exponentWeight + n := UInt64.toNat_ofNat_of_lt' hword
  have hunsigned : x.unsignedBits = e * exponentWeight + n := by
    have hweight : 2047 * exponentWeight < signWeight := by decide
    rw [unsignedBits, hbits, Nat.mod_eq_of_lt (hlt.trans hweight)]
  have hpos : 0 < exponentWeight := by decide
  have hfields := x.unsignedBits_eq
  have hfraction := x.fraction_lt
  rw [hunsigned] at hfields
  have hfinite : x.isFinite = true := by
    have hexponent : x.biasedExponent < 2047 := by
      rw [biasedExponent, hunsigned]
      exact (Nat.div_lt_iff_lt_mul hpos).2 hlt
    simp [isFinite, hexponent.ne]
  refine ⟨hfinite, ?_⟩
  -- how many steps there are decides over the exponent
  rcases Nat.lt_or_ge n exponentWeight with hsmall | hlarge
  · obtain rfl : e = 0 := hleading.resolve_left (by omega)
    have hzero : x.biasedExponent = 0 := by
      rw [biasedExponent, hunsigned, Nat.zero_mul, Nat.zero_add, Nat.div_eq_of_lt hsmall]
    rw [hzero] at hfields
    rw [units, significand, if_pos hzero, hzero]
    show x.fraction * 1 = n * 1
    omega
  · rcases Nat.lt_or_ge n (2 * exponentWeight) with hless | hmost
    · have hexponent : x.biasedExponent = e + 1 := by
        rw [biasedExponent, hunsigned, Nat.div_eq_iff hpos]
        constructor
        · rw [Nat.succ_mul]
          omega
        · rw [Nat.succ_mul]
          omega
      rw [hexponent, Nat.succ_mul] at hfields
      rw [units, significand, if_neg (by omega), hexponent, Nat.max_eq_max,
        Nat.max_eq_right (by omega), Nat.add_sub_cancel]
      congr 1
      omega
    · obtain rfl : n = 2 * exponentWeight := Nat.le_antisymm hn hmost
      have hexponent : x.biasedExponent = e + 2 := by
        rw [biasedExponent, hunsigned, ← Nat.add_mul, Nat.mul_div_cancel _ hpos]
      rw [hexponent, ← Nat.add_mul] at hfields
      have hzero : x.fraction = 0 := by omega
      rw [units, significand, if_neg (by omega), hexponent, hzero, Nat.zero_add, Nat.max_eq_max,
        Nat.max_eq_right (by omega), show e + 2 - 1 = e + 1 from rfl, Nat.pow_succ']
      ring

/-! ## The number that is found -/

/-- Half a step beyond the largest number: from here on quotients are rounded to the infinity. -/
def overflowBound : ℚ := (2 ^ 53 - 1 / 2) * 2 ^ (971 : ℤ)

theorem overflowBound_lt : overflowBound < 2 ^ (1024 : ℤ) := by
  have hsplit : (2 : ℚ) ^ (1024 : ℤ) = 2 ^ 53 * 2 ^ (971 : ℤ) := by
    rw [← zpow_natCast, ← zpow_add₀ (by norm_num)]
    rfl
  rw [overflowBound, hsplit]
  exact mul_lt_mul_of_pos_right (by norm_num) (zpow_pos (by norm_num) _)

/-- A value in steps of its last bit: the steps are those of a significand, and they stay below the
infinity if the value does. -/
theorem steps_bounds {value : ℚ} {e n : ℕ} (hpos : 0 < value)
    (he : (e - 1074 : ℤ) = Max.max (Int.log 2 value - 52) (-1074))
    (hround : RoundsTo (value * 2 ^ (-(e - 1074 : ℤ))) n) :
    n ≤ 2 * exponentWeight ∧ (exponentWeight ≤ n ∨ e = 0) ∧
      (value < overflowBound → e * exponentWeight + n < 2047 * exponentWeight) := by
  have htwo : (2 : ℚ) ≠ 0 := by norm_num
  have hlow : (2 : ℚ) ^ Int.log 2 value ≤ value := by
    exact_mod_cast Int.zpow_log_le_self (b := 2) (by decide) hpos
  have hhigh : value < (2 : ℚ) ^ (Int.log 2 value + 1) := by
    exact_mod_cast Int.lt_zpow_succ_log_self (b := 2) (by decide) value
  have hscale : (0 : ℚ) < 2 ^ (-(e - 1074 : ℤ)) := zpow_pos (by norm_num) _
  have hmost : n ≤ 2 * exponentWeight := by
    refine hround.le_of_lt ?_
    calc value * 2 ^ (-(e - 1074 : ℤ))
        < 2 ^ (Int.log 2 value + 1) * 2 ^ (-(e - 1074 : ℤ)) := mul_lt_mul_of_pos_right hhigh hscale
      _ = 2 ^ (Int.log 2 value + 1 + -(e - 1074 : ℤ)) := (zpow_add₀ htwo _ _).symm
      _ ≤ 2 ^ (53 : ℤ) := zpow_le_zpow_right₀ (by norm_num) (by omega)
      _ = ((2 * exponentWeight : ℕ) : ℚ) := by norm_num [exponentWeight]
  refine ⟨hmost, ?_, fun hbound => ?_⟩
  · by_cases hzero : e = 0
    · exact .inr hzero
    · refine .inl (hround.le_of_le ?_)
      have hexponent : (52 : ℤ) = Int.log 2 value + -(e - 1074 : ℤ) := by omega
      calc (exponentWeight : ℚ) = 2 ^ (52 : ℤ) := by norm_num [exponentWeight]
        _ = 2 ^ Int.log 2 value * 2 ^ (-(e - 1074 : ℤ)) := by rw [hexponent, zpow_add₀ htwo]
        _ ≤ value * 2 ^ (-(e - 1074 : ℤ)) := mul_le_mul_of_nonneg_right hlow hscale.le
  · have hlog : Int.log 2 value < 1024 :=
      (Int.lt_zpow_iff_log_lt (b := 2) (by decide) hpos).1
        (by exact_mod_cast hbound.trans overflowBound_lt)
    rcases Nat.lt_or_ge e 2045 with hsmall | hlarge
    · have hle : e * exponentWeight ≤ 2044 * exponentWeight := Nat.mul_le_mul_right _ (by omega)
      have hweight : exponentWeight = 2 ^ 52 := rfl
      omega
    · -- the last exponent there is: one step less than the bound is left
      obtain rfl : e = 2045 := by omega
      have hless : value * 2 ^ (-((2045 : ℕ) - 1074 : ℤ)) < 2 ^ 53 - 1 / 2 := by
        rw [overflowBound] at hbound
        calc value * 2 ^ (-((2045 : ℕ) - 1074 : ℤ))
            < (2 ^ 53 - 1 / 2) * 2 ^ (971 : ℤ) * 2 ^ (-((2045 : ℕ) - 1074 : ℤ)) :=
              mul_lt_mul_of_pos_right hbound hscale
          _ = 2 ^ 53 - 1 / 2 := by
              rw [mul_assoc, ← zpow_add₀ htwo]
              norm_num
      have hnear := (abs_le.1 hround.near).2
      have hsteps : (n : ℚ) < (2 ^ 53 : ℕ) := by
        push_cast
        linarith
      have hn : n < 2 ^ 53 := by exact_mod_cast hsteps
      have hweight : exponentWeight = 2 ^ 52 := rfl
      omega

variable {num den : ℕ}

/-- **A quotient is rounded to the nearest number of steps of its last bit.** -/
theorem nearest_rounds (hnum : 0 < num) (hden : 0 < den)
    (hbound : (num / den : ℚ) < overflowBound) : ∃ e n : ℕ,
      (e - 1074 : ℤ) = Max.max (Int.log 2 (num / den : ℚ) - 52) (-1074) ∧
      RoundsTo (num / den * 2 ^ (-(e - 1074 : ℤ))) n ∧ (nearest num den).isFinite = true ∧
      (nearest num den).units = n * 2 ^ e := by
  have hpos : (0 : ℚ) < num / den := div_pos (by exact_mod_cast hnum) (by exact_mod_cast hden)
  have hlast : lastBit num den = Max.max (Int.log 2 (num / den : ℚ) - 52) (-1074) := by
    rw [lastBit, floorLog2_eq_log hnum hden]
  obtain ⟨e, he⟩ : ∃ e : ℕ, lastBit num den = e - 1074 :=
    ⟨(lastBit num den + 1074).toNat, by omega⟩
  have hbit := powerOfTwo_eq (e - 1074)
  obtain ⟨hup, -⟩ := powerOfTwo_pos (e - 1074)
  have hround := roundsTo_roundDiv (num * (powerOfTwo (e - 1074)).2) (Nat.mul_pos hden hup)
  rw [Nat.cast_mul, Nat.cast_mul, mul_div_mul_comm,
    ← inv_div ((powerOfTwo (e - 1074)).1 : ℚ), hbit, ← zpow_neg] at hround
  obtain ⟨hmost, hleading, hlt⟩ := steps_bounds hpos (he ▸ hlast) hround
  obtain ⟨hfinite, hunits⟩ := units_ofNat hmost hleading (hlt hbound)
  have hnearest : nearest num den = ⟨UInt64.ofNat (e * exponentWeight +
      roundDiv (num * (powerOfTwo (e - 1074)).2) (den * (powerOfTwo (e - 1074)).1))⟩ := by
    have htoNat : ((e : ℤ) - 1074 + 1074).toNat = e := by omega
    have hinfinity : infinity.bits.toNat = 2047 * exponentWeight := by decide
    rw [nearest, if_neg hnum.ne', he]
    dsimp only
    rw [htoNat, hinfinity, if_pos (hlt hbound)]
  rw [hnearest]
  exact ⟨e, _, he ▸ hlast, hround, hfinite, hunits⟩

/-- **What is rounded stays finite** below half a step beyond the largest number. -/
theorem isFinite_nearest (hden : 0 < den) (hbound : (num / den : ℚ) < overflowBound) :
    (nearest num den).isFinite = true := by
  rcases Nat.eq_zero_or_pos num with rfl | hnum
  · rw [nearest, if_pos rfl]
    decide
  · obtain ⟨-, -, -, -, hfinite, -⟩ := nearest_rounds hnum hden hbound
    exact hfinite

/-- **What is rounded is hardly larger than it was**: by no more than one part in `2 ^ 53`, unless
it is less than the normal numbers. -/
theorem abs_nearest_le (hnum : 0 < num) (hden : 0 < den) (hbound : (num / den : ℚ) < overflowBound)
    (hnormal : (2 : ℚ) ^ (-1022 : ℤ) ≤ num / den) :
    |(nearest num den).value| ≤ num / den * (1 + 2 ^ (-53 : ℤ)) := by
  have hpos : (0 : ℚ) < num / den := div_pos (by exact_mod_cast hnum) (by exact_mod_cast hden)
  obtain ⟨e, n, he, hround, -, hunits⟩ := nearest_rounds hnum hden hbound
  generalize (num / den : ℚ) = value at *
  have htwo : (2 : ℚ) ≠ 0 := by norm_num
  have hlow : (2 : ℚ) ^ Int.log 2 value ≤ value := by
    exact_mod_cast Int.zpow_log_le_self (b := 2) (by decide) hpos
  have hlog : (-1022 : ℤ) ≤ Int.log 2 value :=
    (Int.zpow_le_iff_le_log (b := 2) (by decide) hpos).1 (by exact_mod_cast hnormal)
  have hvalue : |(nearest num den).value| = n * 2 ^ (e - 1074 : ℤ) := by
    rw [abs_value_eq_units, hunits, sub_eq_add_neg, zpow_add₀ htwo, zpow_natCast, Nat.cast_mul,
      Nat.cast_pow, Nat.cast_ofNat, mul_assoc]
  have hscale : (0 : ℚ) < 2 ^ (e - 1074 : ℤ) := zpow_pos (by norm_num) _
  have hsteps : (n : ℚ) ≤ value * 2 ^ (-(e - 1074 : ℤ)) + 1 / 2 := by
    linarith [(abs_le.1 hround.near).2]
  have hexponent : (e - 1074 : ℤ) = Int.log 2 value + -53 + 1 := by omega
  calc |(nearest num den).value| = n * 2 ^ (e - 1074 : ℤ) := hvalue
    _ ≤ (value * 2 ^ (-(e - 1074 : ℤ)) + 1 / 2) * 2 ^ (e - 1074 : ℤ) :=
        mul_le_mul_of_nonneg_right hsteps hscale.le
    _ = value + 1 / 2 * 2 ^ (e - 1074 : ℤ) := by
        rw [add_mul, zpow_neg, mul_assoc, inv_mul_cancel₀ hscale.ne', mul_one]
    _ = value + 2 ^ Int.log 2 value * 2 ^ (-53 : ℤ) := by
        rw [hexponent, zpow_add_one₀ htwo, zpow_add₀ htwo]
        ring
    _ ≤ value + value * 2 ^ (-53 : ℤ) :=
        add_le_add_right (mul_le_mul_of_nonneg_right hlow (zpow_pos (by norm_num) _).le) value
    _ = value * (1 + 2 ^ (-53 : ℤ)) := by rw [mul_add, mul_one]

end Screening.Binary64
