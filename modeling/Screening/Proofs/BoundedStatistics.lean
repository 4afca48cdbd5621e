import Screening.Proofs.FloatOperations
import Screening.Statistics

/-!
# Statistics of bounded values

Sums may leave the range, but not those of values that are far enough from its end.  A sum never
exceeds the power of two that is fifty-four places above its summands, however many there are:
beside it they are too small to move it.  So the mean stays in range, the differences from it do,
and where there is room for their squares and the sum of these, the deviation does.

* `Binary64.Within` — a number of arithmetic is finite and bounded.
* `Binary64.within_sumFrom` — how large sums become.
* `PartStatistics.SumsInRange` — mean and deviation are finite.
* `PartStatistics.sumsInRange_of_bounded` — they are if no value is above `2 ^ 430`.
-/

set_option autoImplicit false

namespace Screening

-- Powers of natural numbers are those of core here, whatever other power is in scope.
attribute [local instance (2000)] instPowNat

open Float.Model (Format UnpackedFloat)

namespace Binary64

variable {x y : Float} {p q r : ℤ}

/-! ## Numbers of arithmetic -/

/-- What arithmetic sees of one of its numbers. -/
def operand (x : Float) : UnpackedFloat := (ofFloat x).unpacked

/-- A number is finite, and its absolute value is no more than a power of two. -/
def Within (q : ℤ) (x : Float) : Prop := Fits q (operand x)

theorem within_iff : Within q x ↔ (ofFloat x).isFinite = true ∧ |(ofFloat x).value| ≤ 2 ^ q :=
  fits_unpacked_iff

/-- A bounded result is the operand of the next operation. -/
theorem operand_eq {u : UnpackedFloat} (hx : ofFloat x = ofUnpacked u) (hu : Fits q u)
    (hq : q ≤ 1023) : operand x = u := by
  rw [operand, hx, unpacked_ofUnpacked_of_fits hu hq]

/-- A number that is taken into arithmetic is what it was. -/
theorem operand_toFloat {v : Binary64} (hv : Fits q v.unpacked) (hq : q ≤ 1023) :
    operand v.toFloat = v.unpacked :=
  operand_eq (u := v.unpacked) rfl hv hq

theorem within_toFloat {v : Binary64} (hfinite : v.isFinite = true) (hle : |v.value| ≤ 2 ^ q)
    (hq : q ≤ 1023) : Within q v.toFloat := by
  have hfits : Fits q v.unpacked := fits_unpacked_iff.2 ⟨hfinite, hle⟩
  rwa [Within, operand_toFloat hfits hq]

theorem Within.add (hx : Within p x) (hy : Within r y) (h : Together p r q) (hq : q ≤ 1023) :
    Within q (x + y) := by
  have hfits := fits_add hx hy h
  rwa [Within, operand_eq rfl hfits hq]

theorem Within.sub (hx : Within p x) (hy : Within r y) (h : Together p r q) (hq : q ≤ 1023) :
    Within q (x - y) := by
  have hfits := fits_sub hx hy h
  rwa [Within, operand_eq rfl hfits hq]

theorem Within.mul (hx : Within p x) (hy : Within r y) (h : p + r = q) (hlow : -1022 ≤ q)
    (hq : q ≤ 1023) : Within q (x * y) := by
  subst h
  have hfits := fits_mul hx hy hlow
  rwa [Within, operand_eq rfl hfits hq]

theorem Within.div (hx : Within q x) (hy : AtLeastOne (operand y)) (hlow : -1022 ≤ q)
    (hq : q ≤ 1023) : Within q (x / y) := by
  obtain ⟨m, e, h, hoperand, hone⟩ := hy
  have hfits := fits_div .positive h hx hlow hone
  rw [← hoperand] at hfits
  rwa [Within, operand_eq rfl hfits hq]

theorem Within.nonNegative_mul_self (hx : Within p x) (hlow : -1022 ≤ p + p)
    (hq : p + p ≤ 1023) : NonNegative (operand (x * x)) := by
  rw [operand_eq rfl (fits_mul hx hx hlow) hq]
  exact Binary64.nonNegative_mul_self hx

theorem Within.nonNegative_div (hx : Within q x) (hsign : NonNegative (operand x))
    (hy : AtLeastOne (operand y)) (hlow : -1022 ≤ q) (hq : q ≤ 1023) :
    NonNegative (operand (x / y)) := by
  obtain ⟨m, e, h, hoperand, hone⟩ := hy
  have hfits := fits_div .positive h hx hlow hone
  have hquotient := Binary64.nonNegative_div e h hsign hx
  rw [← hoperand] at hfits hquotient
  rwa [operand_eq rfl hfits hq]

theorem Within.sqrt (hx : Within p x) (hsign : NonNegative (operand x)) (h : 2 * q = p)
    (hlow : -1022 ≤ q) (hq : q ≤ 1023) : Within q x.sqrt := by
  subst h
  have hfits := fits_sqrt hx hsign hlow
  rwa [Within, operand_eq rfl hfits hq]

/-! ## Counts -/

theorem ofNat_eq (n : ℕ) : Float.ofNat n =
    if n < 2 ^ 53 then n.toUInt64.toFloat * Float.ofBits 0x3ff0000000000000
    else .ofModel (.ofScientific n 0) := by
  rw [Float.ofNat]
  show Float.ofScientific n false 0 = _
  rw [Float.ofScientific]
  by_cases hsmall : n < 2 ^ 53
  · rw [dif_pos ⟨hsmall, by decide⟩, if_pos hsmall]
    rfl
  · rw [dif_neg (fun h => hsmall h.1), if_neg hsmall]
    rfl

/-- The number one, by which small counts are multiplied. -/
def one : Binary64 := ⟨0x3ff0000000000000⟩

theorem operand_one : operand one.toFloat = .finite .positive (2 ^ 52) (-52) (by decide) := rfl

theorem fits_operand_one : Fits 0 (operand one.toFloat) := by
  rw [operand_one]
  refine ⟨rfl, ?_⟩
  norm_num

theorem atLeastOne_operand_one : AtLeastOne (operand one.toFloat) := by
  refine ⟨_, _, _, operand_one, ?_⟩
  norm_num

/-- **A count is no less than one as an operand.** -/
theorem atLeastOne_operand_ofNat {n : ℕ} (hpos : 0 < n) (hlt : n < UInt64.size) :
    AtLeastOne (operand (Float.ofNat n)) := by
  have hle : (n : ℚ) ≤ 2 ^ (64 : ℤ) := by
    have hcast : (n : ℚ) ≤ (UInt64.size : ℕ) := by exact_mod_cast hlt.le
    exact hcast.trans (by norm_num [UInt64.size])
  rw [ofNat_eq]
  by_cases hsmall : n < 2 ^ 53
  · obtain ⟨hone, hfits⟩ := ofNat_spec hpos (by norm_num) hle
    have hword : ofFloat n.toUInt64.toFloat =
        ofUnpacked (UnpackedFloat.ofNat Format.binary64 n) := by
      have hn : n.toUInt64.toNat = n := UInt64.toNat_ofNat_of_lt' hlt
      show ofUnpacked (UnpackedFloat.ofNat Format.binary64 n.toUInt64.toNat) = _
      rw [hn]
    have hoperand := operand_eq hword hfits (by norm_num)
    rw [← hoperand] at hone hfits
    rw [if_pos hsmall]
    show AtLeastOne (operand (n.toUInt64.toFloat * one.toFloat))
    rw [operand_eq rfl (fits_mul hfits fits_operand_one (by norm_num)) (by norm_num)]
    exact atLeastOne_mul hone atLeastOne_operand_one hfits fits_operand_one
  · obtain ⟨hone, hfits⟩ := ofScientific_spec hpos (by norm_num) hle
    rw [if_neg hsmall]
    rwa [operand_eq rfl hfits (by norm_num)]

/-! ## Sums -/

/-- Beside a large summand a small one makes no difference to the bound. -/
theorem together_of_far (h : r + 54 = q) (hlow : -1022 ≤ q) : Together q r q where
  normal := hlow
  left := le_rfl
  right := by omega
  sum := add_lt_add_right (zpow_lt_zpow_right₀ (by norm_num) (by omega)) _

theorem within_foldl (h : r + 54 = q) (hlow : -1022 ≤ q) (hq : q ≤ 1023) {values : List Float}
    {start : Float} (hstart : Within q start) (hvalues : ∀ v ∈ values, Within r v) :
    Within q (values.foldl (· + ·) start) := by
  induction values generalizing start with
  | nil => exact hstart
  | cons v values ih =>
    rw [List.forall_mem_cons] at hvalues
    exact ih (hstart.add hvalues.1 (together_of_far h hlow) hq) hvalues.2

theorem nonNegative_foldl (h : r + 54 = q) (hlow : -1022 ≤ q) (hq : q ≤ 1023)
    {values : List Float} {start : Float} (hstart : Within q start)
    (hvalues : ∀ v ∈ values, Within r v) (hsign : NonNegative (operand start))
    (hsigns : ∀ v ∈ values, NonNegative (operand v)) :
    NonNegative (operand (values.foldl (· + ·) start)) := by
  induction values generalizing start with
  | nil => exact hsign
  | cons v values ih =>
    rw [List.forall_mem_cons] at hvalues hsigns
    have hfits := fits_add hstart hvalues.1 (together_of_far h hlow)
    have hsum : NonNegative (operand (start + v)) := by
      rw [operand_eq rfl hfits hq]
      exact nonNegative_add hsign hsigns.1 hstart hvalues.1
    exact ih (hstart.add hvalues.1 (together_of_far h hlow) hq) hvalues.2 hsum hsigns.2

theorem within_negZero (hq : q ≤ 1023) : Within q negZero.toFloat := by
  have hzero : negZero.value = 0 := (value_eq_zero_iff _).2 rfl
  refine within_toFloat rfl ?_ hq
  rw [hzero, abs_zero]
  exact (zpow_pos (by norm_num) q).le

/-- **A sum stays fifty-four places above its summands**, however many there are. -/
theorem within_sumFrom (h : r + 54 = q) (hlow : -1022 ≤ q) (hq : q ≤ 1023) {values : List Float}
    (hvalues : ∀ v ∈ values, Within r v) : Within q (sumFrom values) :=
  within_foldl h hlow hq (within_negZero hq) hvalues

/-- A sum of what is not negative is not negative. -/
theorem nonNegative_sumFrom (h : r + 54 = q) (hlow : -1022 ≤ q) (hq : q ≤ 1023)
    {values : List Float} (hvalues : ∀ v ∈ values, Within r v)
    (hsigns : ∀ v ∈ values, NonNegative (operand v)) : NonNegative (operand (sumFrom values)) :=
  nonNegative_foldl h hlow hq (within_negZero hq) hvalues trivial hsigns

end Binary64

/-! ## Statistics -/

namespace PartStatistics

/-- Mean and deviation are finite: no sum left the range. -/
structure SumsInRange (p : PartStatistics) : Prop where
  mean : p.mean.isFinite = true
  stdDev : p.stdDev.isFinite = true

open Binary64

/-- Squared differences from a mean that is in range have room, and they are not negative. -/
theorem within_squares {mean : Float} (hmean : Within 484 mean) {numbers : List Float}
    (hnumbers : ∀ v ∈ numbers, Within 430 v) :
    (∀ x ∈ numbers.map fun v => (v - mean) * (v - mean), Within 968 x) ∧
      ∀ x ∈ numbers.map fun v => (v - mean) * (v - mean), NonNegative (operand x) := by
  have hdifference (v : Float) (hv : v ∈ numbers) : Within 484 (v - mean) :=
    (hnumbers v hv).sub hmean (together_of_far (by norm_num) (by norm_num)).symm (by norm_num)
  rw [List.forall_mem_map, List.forall_mem_map]
  refine ⟨fun v hv => ?_, fun v hv => ?_⟩
  · exact (hdifference v hv).mul (hdifference v hv) (by norm_num) (by norm_num) (by norm_num)
  · exact (hdifference v hv).nonNegative_mul_self (by norm_num) (by norm_num)

/-- **Mean and deviation are finite** where no value is too large, however many there are. -/
theorem sumsInRange_of_bounded {finite : List Binary64} (hne : finite ≠ [])
    (hlength : finite.length < UInt64.size) (hfinite : ∀ v ∈ finite, v.isFinite = true)
    (hle : ∀ v ∈ finite, |v.value| ≤ 2 ^ (430 : ℤ)) : (ofFinite finite).SumsInRange := by
  -- 430 + 54 = 484 for the mean and the differences, twice that and 54 more for the squares
  have hcount := atLeastOne_operand_ofNat (List.length_pos_iff.2 hne) hlength
  have hnumbers : ∀ v ∈ finite.map toFloat, Within 430 v := by
    rw [List.forall_mem_map]
    exact fun v hv => within_toFloat (hfinite v hv) (hle v hv) (by norm_num)
  have hmean : Within 484 (sumFrom (finite.map toFloat) / Float.ofNat finite.length) :=
    (within_sumFrom (by norm_num) (by norm_num) (by norm_num) hnumbers).div hcount (by norm_num)
      (by norm_num)
  obtain ⟨hsquares, hsigns⟩ := within_squares hmean hnumbers
  have hsum : Within 1022 (sumFrom _) :=
    within_sumFrom (by norm_num) (by norm_num) (by norm_num) hsquares
  have hsign : NonNegative (operand (sumFrom _)) :=
    nonNegative_sumFrom (q := 1022) (by norm_num) (by norm_num) (by norm_num) hsquares hsigns
  have hvariance := hsum.div hcount (by norm_num) (by norm_num)
  have hpositive := hsum.nonNegative_div hsign hcount (by norm_num) (by norm_num)
  have hstdDev := hvariance.sqrt (q := 511) hpositive (by norm_num) (by norm_num) (by norm_num)
  exact ⟨(within_iff.1 hmean).1, (within_iff.1 hstdDev).1⟩

end PartStatistics

end Screening
