import Screening.Proofs.ScientificText

/-!
# The order of numbers

Numbers are compared by their rank, an integer that is read off their bits.  That is the order of
their exact values: between neighbours of the same sign the value grows with the bits, also where
the exponent changes and where the leading bit is no longer written.

* `Binary64.units` — the absolute value in steps of the smallest number there is.
* `Binary64.units_lt` — it grows with the bits below the sign.
* `Binary64.value_le_value_iff` — ranks are ordered as values.
* `Binary64.sameNumber_iff` — numbers are the same exactly if their values are.
-/

set_option autoImplicit false

namespace Screening.Binary64

-- Powers of natural numbers are those of core here, whatever other power is in scope.
attribute [local instance (2000)] instPowNat

variable {x y : Binary64}

theorem powerOfTwo_eq (q : ℤ) : ((powerOfTwo q).1 / (powerOfTwo q).2 : ℚ) = 2 ^ q := by
  rw [powerOfTwo, pow_toNat_div]
  norm_cast

theorem powerOfTwo_pos (q : ℤ) : 0 < (powerOfTwo q).1 ∧ 0 < (powerOfTwo q).2 :=
  ⟨Nat.two_pow_pos _, Nat.two_pow_pos _⟩

/-- The absolute value of a finite number in steps of the smallest number there is. -/
def units (x : Binary64) : Nat := x.significand * 2 ^ (Nat.max 1 x.biasedExponent - 1)

theorem abs_value_eq_units (x : Binary64) : |x.value| = x.units * 2 ^ (-1074 : ℤ) := by
  have hexponent : x.exponent = ((Nat.max 1 x.biasedExponent - 1 : ℕ) : ℤ) + -1074 := by
    rw [exponent, Nat.max_eq_max]
    omega
  rw [abs_value, hexponent, zpow_add₀ (by norm_num), units, zpow_natCast, Nat.cast_mul,
    Nat.cast_pow, Nat.cast_ofNat, mul_assoc]

theorem value_eq_units (x : Binary64) :
    x.value = (if x.isNegative then -(x.units : ℚ) else x.units) * 2 ^ (-1074 : ℤ) := by
  have habs := abs_value_eq_units x
  rw [abs_value] at habs
  rw [value, habs]
  split
  · rw [neg_one_mul, neg_mul]
  · rw [one_mul]

theorem unsignedBits_eq (x : Binary64) :
    x.unsignedBits = x.biasedExponent * exponentWeight + x.fraction := by
  have hweight : signWeight = 2048 * exponentWeight := rfl
  have hpos : 0 < exponentWeight := by decide
  rw [biasedExponent, fraction, unsignedBits, hweight,
    ← Nat.mod_mul_left_mod x.bits.toNat 2048 exponentWeight, Nat.div_add_mod']

theorem fraction_lt (x : Binary64) : x.fraction < exponentWeight := Nat.mod_lt _ (by decide)

theorem significand_lt_double (x : Binary64) : x.significand < 2 * exponentWeight := by
  have hfraction := x.fraction_lt
  rw [significand]
  split <;> omega

/-- **The absolute value grows with the bits below the sign.** -/
theorem units_lt (h : x.unsignedBits < y.unsignedBits) : x.units < y.units := by
  have hle : x.biasedExponent ≤ y.biasedExponent := Nat.div_le_div_right (Nat.le_of_lt h)
  rcases Nat.eq_or_lt_of_le hle with heq | hlt
  · -- the exponent is the same, so it is the fraction that grows
    have hfraction : x.fraction < y.fraction := by
      rw [unsignedBits_eq, unsignedBits_eq, heq] at h
      omega
    have hsignificand : x.significand < y.significand := by
      rw [significand, significand, heq]
      split <;> omega
    rw [units, units, heq]
    exact Nat.mul_lt_mul_of_pos_right hsignificand (Nat.two_pow_pos _)
  · have hleading : exponentWeight ≤ y.significand := by
      rw [significand, if_neg (by omega)]
      exact Nat.le_add_left _ _
    by_cases hzero : x.biasedExponent = 0
    · have hx : x.units = x.fraction := by
        rw [units, significand, if_pos hzero, hzero]
        exact Nat.mul_one _
      calc x.units = x.fraction := hx
        _ < exponentWeight := x.fraction_lt
        _ ≤ y.significand := hleading
        _ ≤ y.units := Nat.le_mul_of_pos_right _ (Nat.two_pow_pos _)
    · have hstep : Nat.max 1 y.biasedExponent - 1 =
          Nat.max 1 x.biasedExponent - 1 + 1 + (y.biasedExponent - x.biasedExponent - 1) := by
        rw [Nat.max_eq_max, Nat.max_eq_max]
        omega
      calc x.units < 2 * exponentWeight * 2 ^ (Nat.max 1 x.biasedExponent - 1) :=
            Nat.mul_lt_mul_of_pos_right x.significand_lt_double (Nat.two_pow_pos _)
        _ = exponentWeight * 2 ^ (Nat.max 1 x.biasedExponent - 1 + 1) := by
            rw [Nat.pow_succ']
            ring
        _ ≤ exponentWeight * 2 ^ (Nat.max 1 y.biasedExponent - 1) :=
            Nat.mul_le_mul_left _ (Nat.pow_le_pow_right (by decide) (by omega))
        _ ≤ y.units := Nat.mul_le_mul_right _ hleading

theorem units_congr (h : x.unsignedBits = y.unsignedBits) : x.units = y.units := by
  have hexponent : x.biasedExponent = y.biasedExponent := by
    rw [biasedExponent, biasedExponent, h]
  have hfraction : x.fraction = y.fraction := by
    rw [unsignedBits_eq, unsignedBits_eq, hexponent] at h
    omega
  rw [units, units, significand, significand, hexponent, hfraction]

theorem units_le_iff : x.units ≤ y.units ↔ x.unsignedBits ≤ y.unsignedBits := by
  constructor
  · intro h
    by_contra hlt
    exact Nat.not_lt.2 h (units_lt (Nat.not_le.1 hlt))
  · intro h
    rcases Nat.eq_or_lt_of_le h with heq | hlt
    · exact Nat.le_of_eq (units_congr heq)
    · exact Nat.le_of_lt (units_lt hlt)

/-- **The bits below the sign are ordered as the absolute values.** -/
theorem abs_value_le_iff : |x.value| ≤ |y.value| ↔ x.unsignedBits ≤ y.unsignedBits := by
  rw [abs_value_eq_units, abs_value_eq_units, mul_le_mul_iff_left₀ (zpow_pos (by norm_num) _),
    Nat.cast_le, units_le_iff]

theorem units_eq_zero_iff : x.units = 0 ↔ x.unsignedBits = 0 := by
  have hzero : (⟨0⟩ : Binary64).units = 0 ∧ (⟨0⟩ : Binary64).unsignedBits = 0 := by decide
  have hle := units_le_iff (x := x) (y := ⟨0⟩)
  rwa [hzero.1, hzero.2, Nat.le_zero, Nat.le_zero] at hle

/-! ## Signed numbers -/

/-- **Ranks are ordered as the exact values.** -/
theorem value_le_value_iff : x.value ≤ y.value ↔ x.rank ≤ y.rank := by
  have hsteps (z : Binary64) : z.value =
      ((if z.isNegative then -(z.units : ℤ) else z.units : ℤ) : ℚ) * 2 ^ (-1074 : ℤ) := by
    rw [value_eq_units]
    split
    · rw [Int.cast_neg, Int.cast_natCast]
    · rw [Int.cast_natCast]
  have hle := units_le_iff (x := x) (y := y)
  have hge := units_le_iff (x := y) (y := x)
  have hx := units_eq_zero_iff (x := x)
  have hy := units_eq_zero_iff (x := y)
  rw [hsteps, hsteps, mul_le_mul_iff_left₀ (zpow_pos (by norm_num) _), Int.cast_le, rank, rank]
  split <;> split <;> omega

theorem eq_of_fields (hsign : x.isNegative = y.isNegative)
    (hbits : x.unsignedBits = y.unsignedBits) : x = y := by
  have hx := x.bits.toNat_lt
  have hy := y.bits.toNat_lt
  rw [isNegative, isNegative, decide_eq_decide] at hsign
  rw [unsignedBits, unsignedBits] at hbits
  rw [signWeight] at hsign hbits
  have hall : x.bits.toNat = y.bits.toNat := by omega
  cases x
  cases y
  exact congrArg mk (UInt64.toNat_inj.1 hall)

/-- **Numbers are the same exactly if they have the same rank**: the same bits, or both are zero. -/
theorem sameNumber_iff (hx : x.isNaN = false) (hy : y.isNaN = false) :
    x.sameNumber y = true ↔ x.rank = y.rank := by
  simp only [sameNumber, hx, hy, isZero, Bool.not_false, Bool.true_and, Bool.or_eq_true,
    beq_iff_eq, Bool.and_eq_true]
  constructor
  · rintro (rfl | ⟨hzero, hzero'⟩)
    · rfl
    · rw [rank, rank, hzero, hzero']
      simp
  · intro hrank
    by_cases hsign : x.isNegative = y.isNegative
    · refine .inl (eq_of_fields hsign ?_)
      rw [rank, rank, hsign] at hrank
      split at hrank <;> omega
    · -- a number and one of the other sign
      have hother : y.isNegative = !x.isNegative := Bool.eq_not.2 (Ne.symm hsign)
      rw [rank, rank, hother] at hrank
      right
      cases hnegative : x.isNegative <;> simp [hnegative] at hrank <;> omega

end Screening.Binary64
