import Screening.Proofs.FloatFields

/-!
# Rounding in arithmetic

A result is cut down to the bits that are kept, rounded by what was cut off, and cut once more where
rounding made it longer.  All that is asked here is how large it can become: to grow beyond a power
of two, it has to be half a step above it already.

* `Binary64.halves` — a significand and the bit behind it.
* `Binary64.roundWithAccuracy_eq` — the two steps of rounding.
* `Binary64.fits_roundWithAccuracy` — results stay below powers of two.
* `Binary64.exists_roundWithAccuracy_of_le` — and above them.
-/

set_option autoImplicit false

namespace Screening.Binary64

-- Powers of natural numbers are those of core here, whatever other power is in scope.
attribute [local instance (2000)] instPowNat

open Float.Model (Format UnpackedFloat totalExponent)
open Float.Model.UnpackedFloat

variable {s : Sign} {m : ℕ} {e q : ℤ} {accuracy : Accuracy}

/-- The last bit that is kept of a number whose first one is known. -/
theorem targetExponent_eq (first : ℤ) :
    Format.binary64.targetExponent first = Max.max (first - 53) (-1074) := rfl

theorem targetExponent_totalExponent (m : ℕ) (e : ℤ) :
    Format.binary64.targetExponent (totalExponent m e) = lastKept m e := by
  have hfirst : totalExponent m e = m.log2 + 1 + e := rfl
  rw [targetExponent_eq, hfirst, lastKept]
  omega

/-! ## Bits that are dropped -/

/-- A significand in halves of its last bit, as far as it is known. -/
def halves (significand : ExtendedMantissa) : ℕ :=
  2 * significand.mantissa + significand.roundBit.toNat

theorem shiftRight_succ (significand : ExtendedMantissa) (n : ℕ) :
    significand >>> (n + 1) = (significand >>> n).shiftRightOne := rfl

theorem mantissa_shiftRight (significand : ExtendedMantissa) (n : ℕ) :
    (significand >>> n).mantissa = significand.mantissa / 2 ^ n := by
  induction n with
  | zero => exact (Nat.div_one _).symm
  | succ n ih =>
    rw [shiftRight_succ, ExtendedMantissa.shiftRightOne, ih, Nat.div_div_eq_div_mul, Nat.pow_succ]

theorem halves_shiftRightOne (significand : ExtendedMantissa) :
    halves significand.shiftRightOne = significand.mantissa := by
  rw [halves, ExtendedMantissa.shiftRightOne]
  dsimp only
  rcases Nat.mod_two_eq_zero_or_one significand.mantissa with h | h <;> rw [h]
  · show 2 * (significand.mantissa / 2) + 0 = _
    omega
  · show 2 * (significand.mantissa / 2) + 1 = _
    omega

/-- Dropping bits makes nothing larger. -/
theorem halves_shiftRight_mul_le (significand : ExtendedMantissa) (n : ℕ) :
    halves (significand >>> n) * 2 ^ n ≤ halves significand := by
  induction n with
  | zero => exact Nat.le_of_eq (Nat.mul_one _)
  | succ n ih =>
    rw [shiftRight_succ, halves_shiftRightOne, Nat.pow_succ', ← Nat.mul_assoc]
    refine le_trans (Nat.mul_le_mul_right _ ?_) ih
    rw [halves]
    omega

/-- Rounding adds half of the last bit at most. -/
theorem roundedMantissa_bounds (significand : ExtendedMantissa) :
    significand.mantissa ≤ significand.roundedMantissa ∧
      2 * significand.roundedMantissa ≤ halves significand + 1 := by
  obtain ⟨mantissa, roundBit, stickyBit⟩ := significand
  cases roundBit <;> cases stickyBit <;>
    simp only [ExtendedMantissa.roundedMantissa, ExtendedMantissa.accuracy,
      Accuracy.roundToNearestEven, halves, Bool.toNat_false, Bool.toNat_true] <;> omega

/-! ## Rounding -/

/-- A significand and what is known of the bits behind it. -/
def known (m : ℕ) (accuracy : Accuracy) : ExtendedMantissa := .ofMantissaAndAccuracy m accuracy

theorem mantissa_known (m : ℕ) (accuracy : Accuracy) : (known m accuracy).mantissa = m := by
  rw [known, ExtendedMantissa.ofMantissaAndAccuracy.eq_def]
  split <;> rfl

/-- The significand that is left of one, and where its last bit is. -/
def shortened (m : ℕ) (e : ℤ) : ℕ × ℤ :=
  (m / 2 ^ (lastKept m e - e).toNat, e + (lastKept m e - e).toNat)

/-- The significand that is rounded to. -/
def roundedAt (m : ℕ) (e : ℤ) (accuracy : Accuracy) : ℕ :=
  (known m accuracy >>> (lastKept m e - e).toNat).roundedMantissa

/-- **A significand is rounded at the last bit that is kept**, and shortened once more. -/
theorem roundWithAccuracy_eq (hkept : e ≤ lastKept m e) (s : Sign) (accuracy : Accuracy) :
    roundWithAccuracy Format.binary64 s m e accuracy =
      signed s (shortened (roundedAt m e accuracy) (lastKept m e)).1
        (shortened (roundedAt m e accuracy) (lastKept m e)).2 := by
  have hfirst : e + ((lastKept m e - e).toNat : ℤ) = lastKept m e := by omega
  -- the definition, both shifts written out
  have htwice : roundWithAccuracy Format.binary64 s m e accuracy =
      let last := Format.binary64.targetExponent (totalExponent m e)
      let first := e + ((last - e).toNat : ℤ)
      let rounded := (known m accuracy >>> (last - e).toNat).roundedMantissa
      let dropped := (Format.binary64.targetExponent (totalExponent rounded first) - first).toNat
      signed s (known rounded .exact >>> dropped).mantissa (first + dropped) := rfl
  rw [htwice]
  dsimp only
  rw [mantissa_shiftRight, mantissa_known, targetExponent_totalExponent,
    targetExponent_totalExponent, hfirst, shortened, roundedAt]

/-- Dropping bits leaves the first bit where it is. -/
theorem log2_div_two_pow (m k : ℕ) : (m / 2 ^ k).log2 = m.log2 - k := by
  rw [Nat.log2_eq_log_two, Nat.log2_eq_log_two]
  exact Nat.log_div_base_pow 2 m k

/-- A number that is no smaller than the smallest one keeps its first bit. -/
theorem dropped_le_log2 (hlow : -1074 ≤ m.log2 + e) : (lastKept m e - e).toNat ≤ m.log2 := by
  rw [lastKept]
  omega

theorem div_two_pow_dropped_pos (hpos : 0 < m) (hlow : -1074 ≤ m.log2 + e) :
    0 < m / 2 ^ (lastKept m e - e).toNat :=
  Nat.div_pos ((Nat.pow_le_pow_right (by decide) (dropped_le_log2 hlow)).trans
    (Nat.log2_self_le hpos.ne')) (Nat.two_pow_pos _)

/-- **What is left of a significand is stored.**  It is worth no more, and its first bit is where it
was. -/
theorem shortened_spec (hpos : 0 < m) (hlow : -1074 ≤ e) (hkept : e ≤ lastKept m e) :
    0 < (shortened m e).1 ∧ Stored (shortened m e).1 (shortened m e).2 ∧
      ((shortened m e).1 * 2 ^ (shortened m e).2 : ℚ) ≤ m * 2 ^ e ∧
        (shortened m e).1.log2 + (shortened m e).2 = m.log2 + e := by
  have hleft := div_two_pow_dropped_pos (e := e) hpos (by omega)
  have hlog := log2_div_two_pow m (lastKept m e - e).toNat
  have hmost := dropped_le_log2 (m := m) (e := e) (by omega)
  rw [shortened]
  generalize hdropped : (lastKept m e - e).toNat = dropped at hleft hlog hmost
  have hsum : ((m / 2 ^ dropped).log2 + (e + dropped) : ℤ) = m.log2 + e := by omega
  refine ⟨hleft, ?_, ?_, hsum⟩
  · rw [Stored, lastKept, hsum, ← lastKept]
    omega
  · have hdiv : ((m / 2 ^ dropped * 2 ^ dropped : ℕ) : ℚ) ≤ m := by
      exact_mod_cast Nat.div_mul_le_self m (2 ^ dropped)
    rw [Nat.cast_mul, Nat.cast_pow, Nat.cast_ofNat] at hdiv
    rw [add_comm e, zpow_add₀ (by norm_num), zpow_natCast, ← mul_assoc]
    exact mul_le_mul_of_nonneg_right hdiv (zpow_pos (by norm_num) e).le

theorem least_le_lastKept (m : ℕ) (e : ℤ) : -1074 ≤ lastKept m e := le_max_right _ _

/-- Where the last bit is that is kept does not move back by rounding. -/
theorem lastKept_le_of_div_le {rounded : ℕ} (hkept : e ≤ lastKept m e)
    (hrounded : m / 2 ^ (lastKept m e - e).toNat ≤ rounded) :
    lastKept m e ≤ lastKept rounded (lastKept m e) := by
  rcases (least_le_lastKept m e).eq_or_lt with hleast | hmore
  · rw [← hleast]
    exact least_le_lastKept _ _
  · have hpos : m ≠ 0 := by
      rintro rfl
      rw [lastKept, Nat.log2_zero] at hkept hmore
      omega
    have hkeeps : lastKept m e = m.log2 + e - 52 := by
      rw [lastKept] at hmore ⊢
      omega
    have hbits : 2 ^ 52 ≤ m / 2 ^ (lastKept m e - e).toNat := by
      rw [Nat.le_div_iff_mul_le (Nat.two_pow_pos _), ← Nat.pow_add]
      exact le_trans (Nat.pow_le_pow_right (by decide) (by omega)) (Nat.log2_self_le hpos)
    have hlog : 52 ≤ rounded.log2 :=
      (Nat.le_log2 (by omega)).2 (hbits.trans hrounded)
    rw [lastKept.eq_1 rounded]
    omega

theorem mantissa_le_roundedAt (m : ℕ) (e : ℤ) (accuracy : Accuracy) :
    m / 2 ^ (lastKept m e - e).toNat ≤ roundedAt m e accuracy := by
  refine le_trans (Nat.le_of_eq ?_) (roundedMantissa_bounds _).1
  rw [mantissa_shiftRight, mantissa_known]

theorem two_mul_roundedAt_le (m : ℕ) (e : ℤ) (accuracy : Accuracy) :
    2 * roundedAt m e accuracy ≤
      halves (known m accuracy >>> (lastKept m e - e).toNat) + 1 :=
  (roundedMantissa_bounds _).2

theorem two_mul_le_halves_known (m : ℕ) (accuracy : Accuracy) :
    2 * m ≤ halves (known m accuracy) := by
  rw [halves, mantissa_known]
  omega

theorem zpow_eq_two_mul (e : ℤ) : (2 : ℚ) ^ e = 2 * 2 ^ (e - 1) := by
  rw [zpow_sub_one₀ (by norm_num)]
  ring

/-- In halves of the last bit that is kept, what is left of less than half a step above a power of
two is no more than the power. -/
theorem halves_shiftRight_le {steps : ℕ} (hkept : e ≤ lastKept m e) (hsteps : 52 ≤ steps)
    (hless : (halves (known m accuracy) * 2 ^ (e - 1) : ℚ) <
      2 ^ (lastKept m e + steps) + 2 ^ (lastKept m e + steps - 53)) :
    halves (known m accuracy >>> (lastKept m e - e).toNat) ≤ 2 * 2 ^ steps := by
  have htwo : (2 : ℚ) ≠ 0 := by norm_num
  rcases hsteps.eq_or_lt with rfl | hmore
  · -- the power is the first number of a new length: half a step above it is half of the last bit
    have hdropped : (halves (known m accuracy >>> (lastKept m e - e).toNat) *
        2 ^ (lastKept m e - e).toNat : ℚ) ≤ halves (known m accuracy) := by
      exact_mod_cast halves_shiftRight_mul_le (known m accuracy) (lastKept m e - e).toNat
    have hscale : (0 : ℚ) < 2 ^ (lastKept m e - 1) := zpow_pos (by norm_num) _
    have hbound : (halves (known m accuracy >>> (lastKept m e - e).toNat) : ℚ) < 2 ^ 53 + 1 := by
      have hexponent : lastKept m e - 1 = (lastKept m e - e).toNat + (e - 1) := by omega
      refine (mul_lt_mul_iff_left₀ hscale).1 ?_
      calc (halves (known m accuracy >>> (lastKept m e - e).toNat) * 2 ^ (lastKept m e - 1) : ℚ)
          = halves (known m accuracy >>> (lastKept m e - e).toNat) *
              2 ^ (lastKept m e - e).toNat * 2 ^ (e - 1) := by
            rw [mul_assoc, ← zpow_natCast, ← zpow_add₀ htwo, ← hexponent]
        _ ≤ halves (known m accuracy) * 2 ^ (e - 1) :=
            mul_le_mul_of_nonneg_right hdropped (zpow_pos (by norm_num) _).le
        _ < 2 ^ (lastKept m e + (52 : ℕ)) + 2 ^ (lastKept m e + (52 : ℕ) - 53) := hless
        _ = (2 ^ 53 + 1) * 2 ^ (lastKept m e - 1) := by
            have hpower : lastKept m e + (52 : ℕ) = ((53 : ℕ) : ℤ) + (lastKept m e - 1) := by
              push_cast
              ring
            have hhalf : lastKept m e + (52 : ℕ) - 53 = lastKept m e - 1 := by
              push_cast
              ring
            rw [hhalf, hpower, zpow_add₀ htwo, zpow_natCast]
            ring
    have hcast : halves (known m accuracy >>> (lastKept m e - e).toNat) < 2 ^ 53 + 1 := by
      exact_mod_cast hbound
    omega
  · have hlog : m.log2 + 1 ≤ steps + (lastKept m e - e).toNat := by
      have hlast : (m.log2 + e - 52 : ℤ) ≤ lastKept m e := le_max_left _ _
      omega
    have hmantissa : m / 2 ^ (lastKept m e - e).toNat < 2 ^ steps := by
      rw [Nat.div_lt_iff_lt_mul (Nat.two_pow_pos _), ← Nat.pow_add]
      exact Nat.lt_of_lt_of_le Nat.lt_log2_self (Nat.pow_le_pow_right (by decide) hlog)
    rw [halves, mantissa_shiftRight, mantissa_known]
    have hbit := Bool.toNat_le (known m accuracy >>> (lastKept m e - e).toNat).roundBit
    omega

/-- **A significand is rounded to no more than a power of two** as long as it is less than half a
step above it. -/
theorem roundedAt_mul_le (hkept : e ≤ lastKept m e) (hq : -1022 ≤ q)
    (hless : (halves (known m accuracy) * 2 ^ (e - 1) : ℚ) < 2 ^ q + 2 ^ (q - 53)) :
    (roundedAt m e accuracy * 2 ^ lastKept m e : ℚ) ≤ 2 ^ q := by
  have htwo : (2 : ℚ) ≠ 0 := by norm_num
  have hvalue : (m * 2 ^ e : ℚ) ≤ halves (known m accuracy) * 2 ^ (e - 1) := by
    have hcast : (2 * m : ℚ) ≤ halves (known m accuracy) := by
      exact_mod_cast two_mul_le_halves_known m accuracy
    rw [zpow_eq_two_mul e, ← mul_assoc, mul_comm (m : ℚ)]
    exact mul_le_mul_of_nonneg_right hcast (zpow_pos (by norm_num) _).le
  have hlast : lastKept m e ≤ q - 52 := by
    rcases Nat.eq_zero_or_pos m with rfl | hpos
    · rw [lastKept, Nat.log2_zero] at hkept ⊢
      omega
    · have hfirst : (2 : ℚ) ^ (m.log2 + e : ℤ) < 2 ^ (q + 1) := by
        calc (2 : ℚ) ^ (m.log2 + e : ℤ) ≤ m * 2 ^ e := two_zpow_log2_add_le hpos e
          _ ≤ halves (known m accuracy) * 2 ^ (e - 1) := hvalue
          _ < 2 ^ q + 2 ^ (q - 53) := hless
          _ ≤ 2 ^ q + 2 ^ q :=
              add_le_add_right (zpow_le_zpow_right₀ (by norm_num) (by omega)) _
          _ = 2 ^ (q + 1) := by rw [zpow_add_one₀ htwo, mul_two]
      have hlog := (zpow_lt_zpow_iff_right₀ (show (1 : ℚ) < 2 by norm_num)).1 hfirst
      rw [lastKept]
      omega
  obtain ⟨steps, hsteps⟩ : ∃ steps : ℕ, q = lastKept m e + steps :=
    ⟨(q - lastKept m e).toNat, by omega⟩
  have hhalves := halves_shiftRight_le hkept (by omega) (hsteps ▸ hless)
  have hrounded : (roundedAt m e accuracy : ℚ) ≤ 2 ^ steps := by
    have htwice := two_mul_roundedAt_le m e accuracy
    have hcast : roundedAt m e accuracy ≤ 2 ^ steps := by omega
    exact_mod_cast hcast
  rw [hsteps, zpow_add₀ htwo, mul_comm, zpow_natCast]
  exact mul_le_mul_of_nonneg_left hrounded (zpow_pos (by norm_num) _).le

/-- **A result that is less than half a step above a power of two is rounded to no more than it**,
and has the form of a stored number. -/
theorem fits_roundWithAccuracy (hkept : e ≤ lastKept m e) (hq : -1022 ≤ q)
    (hless : (halves (known m accuracy) * 2 ^ (e - 1) : ℚ) < 2 ^ q + 2 ^ (q - 53)) :
    Fits q (roundWithAccuracy Format.binary64 s m e accuracy) := by
  have hle := roundedAt_mul_le hkept hq hless
  have hmore := lastKept_le_of_div_le hkept (mantissa_le_roundedAt m e accuracy)
  rw [roundWithAccuracy_eq hkept]
  rcases Nat.eq_zero_or_pos (roundedAt m e accuracy) with hzero | hpos
  · rw [hzero, shortened, Nat.zero_div, signed_zero]
    trivial
  · obtain ⟨hshort, hstored, hvalue, -⟩ := shortened_spec hpos (least_le_lastKept m e) hmore
    rw [signed_of_pos _ _ hshort]
    exact ⟨hstored, hvalue.trans hle⟩

/-- **A result that is no less than a power of two is rounded to no less than it.** -/
theorem exists_roundWithAccuracy_of_le (s : Sign) (accuracy : Accuracy)
    (hkept : e ≤ lastKept m e) (hq : -1022 ≤ q) (hle : q ≤ m.log2 + e) (hpos : 0 < m) :
    ∃ M E, ∃ h : 0 < M, roundWithAccuracy Format.binary64 s m e accuracy = .finite s M E h ∧
      (2 ^ q : ℚ) ≤ M * 2 ^ E := by
  have hdropped := dropped_le_log2 (m := m) (e := e) (by omega)
  have hleft := div_two_pow_dropped_pos (e := e) hpos (by omega)
  have hrounded := mantissa_le_roundedAt m e accuracy
  have hmore := lastKept_le_of_div_le hkept hrounded
  have hlog : m.log2 - (lastKept m e - e).toNat ≤ (roundedAt m e accuracy).log2 := by
    rw [Nat.le_log2 (by omega), ← log2_div_two_pow]
    exact (Nat.log2_self_le hleft.ne').trans hrounded
  obtain ⟨hshort, -, -, hsum⟩ :=
    shortened_spec (Nat.lt_of_lt_of_le hleft hrounded) (least_le_lastKept m e) hmore
  rw [roundWithAccuracy_eq hkept, signed_of_pos _ _ hshort]
  refine ⟨_, _, hshort, rfl, le_trans ?_ (two_zpow_log2_add_le hshort _)⟩
  exact zpow_le_zpow_right₀ (by norm_num) (by omega)

end Screening.Binary64
