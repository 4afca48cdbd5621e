import Screening.Proofs.JsonForms
import Screening.Proofs.NearestDouble
import Screening.Proofs.ShortestDecimal

/-!
# Every finite double is read again

What is written for a finite double is read as some double.  Which one it is takes an exact reading;
that there is one at all does not: a literal with a point in it is always read, and the power of ten
of a long one is small enough for the product to stay finite.  The two largest doubles are too near
to the end of the range for that argument; they are read by themselves.

* `NumberLiteral.power`, `NumberLiteral.magnitude?_eq` — the power of ten that a literal is scaled
  by.
* `NumberLiteral.exists_scaled?_of_neg`, `NumberLiteral.exists_scaled?_of_bound` — scaling down
  always succeeds, scaling up does within bounds.
* `Json.exists_toBinary64?` — every literal that is written is read.
* `Json.ofBinary64_wellFormed`, `Json.binary64_reread` — so is every form, wherever it stands.
-/

set_option autoImplicit false

namespace Screening

-- Powers of natural numbers are those of core here, whatever other power is in scope.
attribute [local instance (2000)] instPowNat

namespace NumberLiteral

/-! ## Digits -/

/-- The number that digits spell behind those of another one. -/
def continued (start : ℕ) (digits : List Char) : ℕ :=
  digits.foldl (fun n digit => 10 * n + (digit.toNat - '0'.toNat)) start

theorem le_continued (start : ℕ) (digits : List Char) : start ≤ continued start digits := by
  induction digits generalizing start with
  | nil => exact le_rfl
  | cons digit digits ih =>
    have hstep := ih (10 * start + (digit.toNat - '0'.toNat))
    rw [continued, List.foldl_cons]
    rw [continued] at hstep
    omega

/-- **All digits are taken of a number within a word.** -/
theorem takeDigits_of_lt {start : ℕ} {digits : List Char}
    (h : continued start digits < significandLimit) :
    takeDigits start digits = (continued start digits, digits.length) := by
  induction digits generalizing start with
  | nil => rfl
  | cons digit digits ih =>
    have hfirst : 10 * start + (digit.toNat - '0'.toNat) < significandLimit :=
      Nat.lt_of_le_of_lt (le_continued _ digits) h
    rw [takeDigits, if_pos hfirst, ih h]
    rfl

theorem digit_le {c : Char} (h : c.isDigit = true) : c.toNat - '0'.toNat ≤ 9 := by
  have hle : c.toNat ≤ 57 := by
    simp only [Char.isDigit, Bool.and_eq_true, decide_eq_true_eq, UInt32.le_iff_toNat_le] at h
    exact h.2
  have hzero : '0'.toNat = 48 := rfl
  omega

/-- Digits spell a number of as many digits. -/
theorem natOfDigits_lt {run : List Char} (h : ∀ c ∈ run, c.isDigit = true) :
    Json.natOfDigits run < 10 ^ run.length := by
  induction run using List.reverseRecOn with
  | nil => exact Nat.one_pos
  | append_singleton run c ih =>
    have hrun := ih fun d hd => h d (List.mem_append_left _ hd)
    have hc := digit_le (h c (List.mem_append_right _ (List.mem_singleton_self c)))
    rw [Json.natOfDigits, List.foldl_append, List.length_append, List.length_singleton,
      Nat.pow_succ']
    rw [Json.natOfDigits] at hrun
    simp only [List.foldl_cons, List.foldl_nil]
    omega

/-! ## The power of ten -/

/-- What the exponent of a literal says. -/
def said (literal : NumberLiteral) : ℕ := Json.natOfDigits (literal.exponent.getD (false, [])).2

/-- The power of ten that the digits of a literal are scaled by. -/
def power (literal : NumberLiteral) : ℤ :=
  if (literal.exponent.getD (false, [])).1 then literal.significand.2 - literal.said
  else literal.significand.2 + literal.said

theorem magnitude?_eq {literal : NumberLiteral} (h : literal.said < exponentLimit) :
    literal.magnitude? = scaled? scalingSteps (Binary64.nearest literal.significand.1 1)
      literal.power := by
  rw [said] at h
  simp only [magnitude?, power, said, if_pos h]

/-- **Scaling down always succeeds.** -/
theorem exists_scaled?_of_neg (steps : ℕ) (x : Binary64) {power : ℤ} (h : power < 0) :
    ∃ y, scaled? steps x power = some y := by
  induction steps generalizing x power with
  | zero => exact ⟨x, rfl⟩
  | succ steps ih =>
    have hno : ¬ 0 ≤ power := by omega
    simp only [scaled?, if_neg hno]
    split
    · exact ⟨_, rfl⟩
    · rename_i hlarge
      split
      · exact ⟨_, rfl⟩
      · have hmax : maxPower = 308 := rfl
        exact ih _ (by omega)

/-- A whole number and its rounding, which is hardly larger. -/
theorem abs_nearest_one_le {n : ℕ} (hn : 0 < n) (hbound : (n : ℚ) < Binary64.overflowBound) :
    |(Binary64.nearest n 1).value| ≤ n * (1 + 2 ^ (-53 : ℤ)) := by
  have hone : (n : ℚ) / (1 : ℕ) = n := by rw [Nat.cast_one, div_one]
  have hnormal : (2 : ℚ) ^ (-1022 : ℤ) ≤ n := by
    calc (2 : ℚ) ^ (-1022 : ℤ) ≤ 2 ^ (0 : ℤ) := zpow_le_zpow_right₀ (by norm_num) (by norm_num)
      _ = 1 := zpow_zero _
      _ ≤ n := by exact_mod_cast hn
  have hle := Binary64.abs_nearest_le hn Nat.one_pos (hone.symm ▸ hbound) (hone.symm ▸ hnormal)
  rwa [hone] at hle

/-- **Scaling up succeeds within bounds**: the digits and the power of ten are rounded first, each
by one part in `2 ^ 53`, and their product is then. -/
theorem exists_scaled?_of_bound (steps : ℕ) {digits power : ℕ} (hdigits : 0 < digits)
    (hpower : power ≤ maxPower)
    (hbound : (digits : ℚ) * 10 ^ power ≤ (2 ^ 53 - 5 / 2) * 2 ^ (971 : ℤ)) :
    ∃ y, scaled? (steps + 1) (Binary64.nearest digits 1) power = some y := by
  have hstep : (0 : ℚ) < 2 ^ (971 : ℤ) := zpow_pos (by norm_num) _
  have hlimit : (2 ^ 53 - 5 / 2) * 2 ^ (971 : ℤ) < Binary64.overflowBound := by
    unfold Binary64.overflowBound
    exact mul_lt_mul_of_pos_right (by norm_num) hstep
  have hone : (1 : ℚ) ≤ digits := by exact_mod_cast hdigits
  have hten : (1 : ℚ) ≤ ((10 ^ power : ℕ) : ℚ) := by exact_mod_cast Nat.one_le_pow _ _ (by decide)
  have hproduct : (digits : ℚ) * ((10 ^ power : ℕ) : ℚ) ≤ (2 ^ 53 - 5 / 2) * 2 ^ (971 : ℤ) := by
    refine le_trans (le_of_eq ?_) hbound
    push_cast
    rfl
  have hleft := abs_nearest_one_le hdigits
    (((le_mul_of_one_le_right (by linarith) hten).trans hproduct).trans_lt hlimit)
  have hright := abs_nearest_one_le (Nat.pow_pos (by decide : 0 < 10))
    (((le_mul_of_one_le_left (by linarith) hone).trans hproduct).trans_lt hlimit)
  have hfinite :
      ((Binary64.nearest digits 1).mulMagnitudes (powerOfTen power)).isFinite = true := by
    refine Binary64.isFinite_nearest
      (Nat.mul_pos (Binary64.magnitude_den_pos _) (Binary64.magnitude_den_pos _)) ?_
    rw [Nat.cast_mul, Nat.cast_mul, mul_div_mul_comm, Binary64.magnitude_eq, Binary64.magnitude_eq]
    calc |(Binary64.nearest digits 1).value| * |(powerOfTen power).value|
        ≤ digits * (1 + 2 ^ (-53 : ℤ)) * (((10 ^ power : ℕ) : ℚ) * (1 + 2 ^ (-53 : ℤ))) :=
          mul_le_mul hleft hright (abs_nonneg _) (by positivity)
      _ = digits * ((10 ^ power : ℕ) : ℚ) * (1 + 2 ^ (-53 : ℤ)) ^ 2 := by ring
      _ ≤ (2 ^ 53 - 5 / 2) * 2 ^ (971 : ℤ) * (1 + 2 ^ (-53 : ℤ)) ^ 2 :=
          mul_le_mul_of_nonneg_right hproduct (by positivity)
      _ = (2 ^ 53 - 5 / 2) * (1 + 2 ^ (-53 : ℤ)) ^ 2 * 2 ^ (971 : ℤ) := mul_right_comm _ _ _
      _ < (2 ^ 53 - 1 / 2) * 2 ^ (971 : ℤ) := mul_lt_mul_of_pos_right (by norm_num) hstep
  refine ⟨(Binary64.nearest digits 1).mulMagnitudes (powerOfTen power), ?_⟩
  rw [scaled?, Int.natAbs_natCast, if_pos hpower, if_pos (Int.natCast_nonneg power)]
  exact if_pos hfinite

/-! ## Literals with a point and without an exponent -/

/-- Digits in front of the point are all taken, and one behind it is. -/
theorem power_neg_of_point {literal : NumberLiteral} (h : literal.WellFormed)
    (hpoint : literal.fraction.isSome = true) (hnone : literal.exponent = none)
    (hlength : literal.whole.length ≤ 16) : literal.power < 0 := by
  obtain ⟨fraction, hfraction⟩ := Option.isSome_iff_exists.1 hpoint
  have hwhole := natOfDigits_lt h.whole.2
  have hword : Json.natOfDigits literal.whole < 10 ^ 16 :=
    hwhole.trans_le (Nat.pow_le_pow_right (by decide) hlength)
  have hlimit : 10 ^ 17 < significandLimit := by decide
  obtain ⟨digit, digits, rfl⟩ := List.exists_cons_of_ne_nil (h.fraction fraction hfraction).1
  have hdigit := digit_le ((h.fraction _ hfraction).2 digit List.mem_cons_self)
  have htaken : takeDigits 0 literal.whole =
      (Json.natOfDigits literal.whole, literal.whole.length) :=
    takeDigits_of_lt (hword.trans (by decide))
  have hsignificand : literal.significand.2 < 0 := by
    simp only [significand, htaken, hfraction, Option.getD_some, takeDigits]
    rw [if_pos (by omega)]
    omega
  have hsaid : literal.said = 0 := by
    rw [said, hnone]
    rfl
  rw [power, hnone, hsaid]
  simpa using hsignificand

/-! ## Literals with an exponent -/

theorem significand_exponentLiteral (negative : Bool) {run : List Char} (hrun : IsDigits run)
    (hlt : Json.natOfDigits run < significandLimit) (e : ℤ) :
    (Json.exponentLiteral negative run e).significand =
      (Json.natOfDigits run, -(run.length - 1 : ℤ)) := by
  obtain ⟨digit, digits, rfl⟩ := List.exists_cons_of_ne_nil hrun.1
  have hdigit := digit_le (hrun.2 digit List.mem_cons_self)
  have hlimit : 10 < significandLimit := by decide
  have hfirst : takeDigits 0 [digit] = (digit.toNat - '0'.toNat, 1) := by
    rw [takeDigits, if_pos (by omega)]
    simp [takeDigits]
  have hrest : takeDigits (digit.toNat - '0'.toNat) digits =
      (Json.natOfDigits (digit :: digits), digits.length) := by
    have hnumber : continued (digit.toNat - '0'.toNat) digits =
        Json.natOfDigits (digit :: digits) := by
      rw [Json.natOfDigits, List.foldl_cons, Nat.mul_zero, Nat.zero_add]
      rfl
    rw [takeDigits_of_lt (hnumber ▸ hlt), hnumber]
  have hfraction : (if digits.isEmpty then none else some digits).getD [] = digits := by
    cases digits <;> rfl
  simp only [significand, Json.exponentLiteral, List.take_succ_cons, List.take_zero,
    List.drop_succ_cons, List.drop_zero, hfirst, hfraction, hrest, List.length_cons, List.length_nil]
  refine Prod.ext rfl ?_
  push_cast
  omega

theorem power_exponentLiteral (negative : Bool) {run : List Char} (hrun : IsDigits run)
    (hlt : Json.natOfDigits run < significandLimit) (e : ℤ) :
    (Json.exponentLiteral negative run e).power = e - (run.length - 1) ∧
      (Json.exponentLiteral negative run e).said = e.natAbs := by
  have hsaid : (Json.exponentLiteral negative run e).said = e.natAbs :=
    Decimal.natOfDigits_digits _
  refine ⟨?_, hsaid⟩
  rw [power, hsaid, significand_exponentLiteral negative hrun hlt]
  simp only [Json.exponentLiteral, Option.getD_some, decide_eq_true_eq]
  split <;> omega

end NumberLiteral

namespace Binary64

variable {x : Binary64}

/-! ## The end of the range -/

/-- The last but one of the finite numbers, without its sign. -/
def nearlyLargest : ℕ := 0x7feffffffffffffe

/-- Up to the last two numbers, whatever rounds to a number is well below the end of the range. -/
theorem high_le (hless : x.unsignedBits < nearlyLargest) :
    |x.value| + 2 ^ (x.exponent - 1) ≤ (2 ^ 53 - 5 / 2) * 2 ^ (971 : ℤ) := by
  have htwo : (2 : ℚ) ≠ 0 := by norm_num
  have hweight : exponentWeight = 2 ^ 52 := rfl
  have hlargest : nearlyLargest = 2046 * exponentWeight + (exponentWeight - 2) := rfl
  have hfields := x.unsignedBits_eq
  have hfraction := x.fraction_lt
  have hexponent : x.biasedExponent ≤ 2046 := by
    rw [biasedExponent, ← Nat.lt_succ_iff, Nat.div_lt_iff_lt_mul (by decide)]
    omega
  have hhigh : |x.value| + 2 ^ (x.exponent - 1) = (x.significand + 1 / 2) * 2 ^ x.exponent := by
    rw [abs_value, zpow_sub_one₀ htwo]
    ring
  rw [hhigh]
  rcases Nat.lt_or_ge x.biasedExponent 2046 with hsmall | hlarge
  · have hle : x.exponent ≤ 970 := by
      rw [exponent, Nat.max_eq_max]
      omega
    have hsignificand : (x.significand : ℚ) ≤ 2 ^ 53 - 1 := by
      have hlt : ((x.significand + 1 : ℕ) : ℚ) ≤ ((2 ^ 53 : ℕ) : ℚ) := by
        exact_mod_cast x.significand_lt
      push_cast at hlt
      linarith
    calc ((x.significand : ℚ) + 1 / 2) * 2 ^ x.exponent
        ≤ 2 ^ 53 * 2 ^ (970 : ℤ) :=
          mul_le_mul (by linarith) (zpow_le_zpow_right₀ (by norm_num) hle)
            (zpow_pos (by norm_num) _).le (by norm_num)
      _ = 2 ^ 52 * 2 ^ ((970 : ℤ) + 1) := by
          rw [zpow_add_one₀ htwo]
          ring
      _ ≤ (2 ^ 53 - 5 / 2) * 2 ^ ((970 : ℤ) + 1) :=
          mul_le_mul_of_nonneg_right (by norm_num) (zpow_pos (by norm_num) _).le
  · have hlast : x.biasedExponent = 2046 := by omega
    have hscale : x.exponent = 971 := by
      rw [exponent, hlast]
      rfl
    have hsteps : x.significand ≤ 2 ^ 53 - 3 := by
      rw [hlast] at hfields
      rw [significand, if_neg (by omega)]
      omega
    have hsignificand : (x.significand : ℚ) ≤ 2 ^ 53 - 3 := by
      have hle : (x.significand : ℚ) ≤ ((2 ^ 53 - 3 : ℕ) : ℚ) := by exact_mod_cast hsteps
      norm_num at hle ⊢
      exact hle
    rw [hscale]
    exact mul_le_mul_of_nonneg_right (by linarith) (zpow_pos (by norm_num) _).le

/-- No number of three hundred and ten digits is below the end of the range. -/
theorem range_lt_ten_zpow : (2 ^ 53 - 5 / 2 : ℚ) * 2 ^ (971 : ℤ) < 10 ^ (309 : ℤ) := by
  have htwo : (2 : ℚ) ≠ 0 := by norm_num
  have hsplit : (2 : ℚ) ^ 53 * 2 ^ (971 : ℤ) = (2 ^ (93 : ℤ)) ^ (11 : ℤ) * 2 := by
    rw [← zpow_natCast, ← zpow_add₀ htwo, ← zpow_mul, ← zpow_add_one₀ htwo]
    rfl
  have hten : (10 : ℚ) ^ (309 : ℤ) = (10 ^ (28 : ℤ)) ^ (11 : ℤ) * 10 := by
    rw [← zpow_mul, ← zpow_add_one₀ (by norm_num)]
    rfl
  have hpower : (2 : ℚ) ^ (93 : ℤ) ≤ 10 ^ (28 : ℤ) := by norm_num
  calc (2 ^ 53 - 5 / 2 : ℚ) * 2 ^ (971 : ℤ)
      ≤ 2 ^ 53 * 2 ^ (971 : ℤ) :=
        mul_le_mul_of_nonneg_right (by norm_num) (zpow_pos (by norm_num) _).le
    _ = (2 ^ (93 : ℤ)) ^ (11 : ℤ) * 2 := hsplit
    _ ≤ (10 ^ (28 : ℤ)) ^ (11 : ℤ) * 2 :=
        mul_le_mul_of_nonneg_right
          (zpow_le_zpow_left₀ (by norm_num) (zpow_pos (by norm_num) _).le hpower) (by norm_num)
    _ < (10 ^ (28 : ℤ)) ^ (11 : ℤ) * 10 :=
        mul_lt_mul_of_pos_left (by norm_num) (zpow_pos (zpow_pos (by norm_num) _) _)
    _ = 10 ^ (309 : ℤ) := hten.symm

end Binary64

namespace Json

open Decimal NumberLiteral

variable {x : Binary64}

/-! ## Every literal that is written -/

/-- A literal without an exponent is read. -/
theorem exists_magnitude?_positionalLiteral {negative : Bool} {run : List Char} {e : ℤ}
    (hpositional : positional e = true) (h : (positionalLiteral negative run e).WellFormed) :
    ∃ y, (positionalLiteral negative run e).magnitude? = some y := by
  obtain ⟨-, he⟩ : -5 ≤ e ∧ e ≤ 15 := by simpa [positional] using hpositional
  have hnone : (positionalLiteral negative run e).exponent = none := by
    rw [positionalLiteral]
    split <;> rfl
  have hpoint : (positionalLiteral negative run e).fraction.isSome = true := by
    rw [positionalLiteral]
    split <;> rfl
  have hlength : (positionalLiteral negative run e).whole.length ≤ 16 := by
    rw [positionalLiteral]
    split
    · exact Nat.le_of_ble_eq_true rfl
    · simp only [List.length_append, List.length_take, List.length_replicate]
      omega
  have hsaid : (positionalLiteral negative run e).said = 0 := by
    rw [said, hnone]
    rfl
  rw [magnitude?_eq (by rw [hsaid]; decide)]
  exact exists_scaled?_of_neg _ _ (power_neg_of_point h hpoint hnone hlength)

/-- A literal of the shortest digits with an exponent is read, but for the last two numbers. -/
theorem exists_magnitude?_exponentLiteral (hfinite : x.isFinite = true) (hne : x.isZero = false)
    (hless : x.unsignedBits < Binary64.nearlyLargest) (negative : Bool) :
    ∃ y, (exponentLiteral negative (shortestDigits x).1 (shortestDigits x).2).magnitude? =
      some y := by
  obtain ⟨hdigits, hpos, -, hle, hvalue, hfirst, hleast⟩ := spells_shortestDigits hne
  obtain ⟨hlog, -⟩ := Binary64.log_bounds hfinite (Binary64.value_ne_zero hne)
  have hhigh := Binary64.high_le hless
  have hword : natOfDigits (shortestDigits x).1 < significandLimit :=
    Nat.lt_of_le_of_lt hle (by decide)
  generalize (shortestDigits x).1 = run at *
  generalize (shortestDigits x).2 = e at *
  have hmax : maxDigits = 17 := rfl
  have he : e < 309 := by
    refine (zpow_lt_zpow_iff_right₀ (show (1 : ℚ) < 10 by norm_num)).1 ?_
    exact (hfirst.trans hhigh).trans_lt Binary64.range_lt_ten_zpow
  obtain ⟨hpower, hsaid⟩ := power_exponentLiteral negative hdigits hword e
  have hsignificand := significand_exponentLiteral negative hdigits hword e
  have hlimit : exponentLimit = 0x80000000 := rfl
  rw [magnitude?_eq (by rw [hsaid]; omega), hpower, hsignificand]
  rcases lt_or_ge (e - (run.length - 1 : ℤ)) 0 with hneg | hnonneg
  · exact exists_scaled?_of_neg _ _ hneg
  · obtain ⟨power, hcast⟩ := Int.eq_ofNat_of_zero_le hnonneg
    have hlength := List.length_pos_iff.2 hdigits.1
    have hmaxPower : maxPower = 308 := rfl
    rw [hcast] at hvalue ⊢
    refine exists_scaled?_of_bound 3 hpos (by omega) ?_
    rw [← zpow_natCast]
    exact hvalue.trans hhigh

/-- The last two numbers of either sign. -/
def largest : List Binary64 :=
  [⟨0x7feffffffffffffe⟩, ⟨0x7fefffffffffffff⟩, ⟨0xffeffffffffffffe⟩, ⟨0xffefffffffffffff⟩]

theorem mem_largest (hfinite : x.isFinite = true)
    (hlarge : Binary64.nearlyLargest ≤ x.unsignedBits) : x ∈ largest := by
  have hbits : x.unsignedBits < Binary64.nearlyLargest + 2 := by
    have hle := x.biasedExponent_le
    have hne : x.biasedExponent ≠ 2047 := by simpa [Binary64.isFinite] using hfinite
    exact (Nat.div_lt_iff_lt_mul (by decide)).1 (show x.biasedExponent < 2047 by omega)
  have hcases : x.unsignedBits = Binary64.nearlyLargest ∨
      x.unsignedBits = Binary64.nearlyLargest + 1 := by omega
  cases hsign : x.isNegative <;> rcases hcases with hcase | hcase
  · rw [Binary64.eq_of_fields (y := ⟨0x7feffffffffffffe⟩) hsign hcase]
    decide
  · rw [Binary64.eq_of_fields (y := ⟨0x7fefffffffffffff⟩) hsign hcase]
    decide
  · rw [Binary64.eq_of_fields (y := ⟨0xffeffffffffffffe⟩) hsign hcase]
    decide
  · rw [Binary64.eq_of_fields (y := ⟨0xffefffffffffffff⟩) hsign hcase]
    decide

theorem isSome_toBinary64?_largest :
    ∀ x ∈ largest, (literalOfBinary64 x).toBinary64?.isSome = true := by
  decide +kernel

theorem wellFormed_literalOfBinary64 (x : Binary64) : (literalOfBinary64 x).WellFormed := by
  rw [literalOfBinary64]
  split
  · refine ⟨isDigits_zero, by simp, ?_, by simp⟩
    rintro _ ⟨⟩
    exact isDigits_zero
  · rename_i hzero
    have hspells := spells_shortestDigits (Bool.not_eq_true _ ▸ hzero)
    exact wellFormed_literal _ hspells.digits hspells.head _

/-- **Every literal that is written for a finite number is read.** -/
theorem exists_toBinary64? (hfinite : x.isFinite = true) :
    ∃ y, (literalOfBinary64 x).toBinary64? = some y := by
  by_cases hlarge : Binary64.nearlyLargest ≤ x.unsignedBits
  · exact Option.isSome_iff_exists.1 (isSome_toBinary64?_largest x (mem_largest hfinite hlarge))
  have hread : ∃ y, (literalOfBinary64 x).magnitude? = some y := by
    have hwell := wellFormed_literalOfBinary64 x
    rw [literalOfBinary64] at hwell ⊢
    split
    · exact ⟨_, rfl⟩
    · rename_i hzero
      dsimp only at hwell ⊢
      rw [if_neg hzero] at hwell
      split
      · rename_i hpositional
        rw [if_pos hpositional] at hwell
        exact exists_magnitude?_positionalLiteral hpositional hwell
      · exact exists_magnitude?_exponentLiteral hfinite (Bool.not_eq_true _ ▸ hzero)
          (Nat.not_le.1 hlarge) _
  obtain ⟨y, hy⟩ := hread
  exact ⟨_, by rw [toBinary64?, hy]; rfl⟩

/-! ## Forms of doubles -/

/-- The number that is read where a finite number was written. -/
def reread (x : Binary64) : Binary64 := (literalOfBinary64 x).toBinary64?.getD x

/-- **The form of a double follows the grammar.** -/
theorem ofBinary64_wellFormed (x : Binary64) : (ofBinary64 x).WellFormed := by
  rw [ofBinary64]
  split
  · exact .number (wellFormed_literalOfBinary64 x)
  · exact .null

/-- **The form of a double is read as some double exactly if it was finite.** -/
theorem binary64_reread (x : Binary64) :
    ReadsIf (x.isFinite = true) (reread x) (binary64 (ofBinary64 x)) := by
  refine ⟨fun hfinite => ?_, fun hnot => ?_⟩
  · obtain ⟨y, hy⟩ := exists_toBinary64? hfinite
    rw [ofBinary64, if_pos hfinite, binary64, reread, hy, Option.getD_some]
  · rw [ofBinary64, if_neg hnot]
    rfl

end Json

end Screening
