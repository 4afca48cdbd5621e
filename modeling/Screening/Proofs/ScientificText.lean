import Screening.Proofs.DecimalRounding
import Screening.Proofs.JsonNumbers
import Screening.Report.Rewriting

/-!
# The numbers of a report

Every double of a report is written with seven digits and an exponent.  The text is that of the
exact value, correctly rounded, and it comes out of the two steps in which it is written as well:
the exponent that is taken off the first text is always one that can be read.

* `Binary64.value` — the exact value of a finite number.
* `Decimal.Scientific` — a text has the form of a number with an exponent.
* `Binary64.log_bounds` — exponents have three digits at most.
* `Report.scientific_correct` — how every number is written.
-/

set_option autoImplicit false

namespace Screening

-- Powers of natural numbers are those of core here, whatever other power is in scope.
attribute [local instance (2000)] instPowNat

namespace Binary64

variable {x : Binary64}

/-! ## Exact values -/

/-- The exact value of a finite number. -/
def value (x : Binary64) : ℚ :=
  (if x.isNegative then -1 else 1) * (x.significand * 2 ^ x.exponent)

theorem abs_value (x : Binary64) : |x.value| = x.significand * 2 ^ x.exponent := by
  have hpos : (0 : ℚ) ≤ x.significand * 2 ^ x.exponent :=
    mul_nonneg (Nat.cast_nonneg _) (zpow_pos (by norm_num) _).le
  rw [value]
  split
  · rw [neg_one_mul, abs_neg, abs_of_nonneg hpos]
  · rw [one_mul, abs_of_nonneg hpos]

/-- The value is the quotient that is written. -/
theorem magnitude_eq (x : Binary64) : (x.magnitude.1 / x.magnitude.2 : ℚ) = |x.value| := by
  rw [abs_value, magnitude, powerOfTwo, Nat.cast_mul, mul_div_assoc, pow_toNat_div]
  norm_cast

theorem value_eq_zero_iff (x : Binary64) : x.value = 0 ↔ x.significand = 0 := by
  have hscale : (2 : ℚ) ^ x.exponent ≠ 0 := (zpow_pos (by norm_num) _).ne'
  rw [← abs_eq_zero, abs_value]
  simp [hscale]

theorem magnitude_eq_zero_iff (x : Binary64) : x.magnitude.1 = 0 ↔ x.value = 0 := by
  rw [value_eq_zero_iff, magnitude]
  simp [powerOfTwo]

/-! ## How large exponents are -/

theorem significand_lt (x : Binary64) : x.significand < 2 ^ 53 := by
  have hfraction : x.fraction < exponentWeight := Nat.mod_lt _ (by decide)
  have hweight : exponentWeight = 2 ^ 52 := rfl
  rw [significand]
  split <;> omega

theorem exponent_bounds (hfinite : x.isFinite = true) :
    -1074 ≤ x.exponent ∧ x.exponent ≤ 971 := by
  have hle := x.biasedExponent_le
  have hne : x.biasedExponent ≠ 2047 := by simpa [isFinite] using hfinite
  rw [exponent, Nat.max_eq_max]
  omega

/-- Three powers of two are less than one of ten. -/
theorem two_zpow_le (n : ℕ) : (2 : ℚ) ^ (3 * n : ℤ) ≤ 10 ^ (n : ℤ) := by
  rw [zpow_mul, zpow_natCast, zpow_natCast]
  exact pow_le_pow_left₀ (by norm_num) (by norm_num) n

theorem ten_zpow_neg_le (n : ℕ) : (10 : ℚ) ^ (-n : ℤ) ≤ 2 ^ (-(3 * n) : ℤ) := by
  rw [zpow_neg, zpow_neg]
  exact inv_anti₀ (zpow_pos (by norm_num) _) (two_zpow_le n)

/-- **Exponents have three digits at most.** -/
theorem log_bounds (hfinite : x.isFinite = true) (hne : x.value ≠ 0) :
    -358 ≤ Int.log 10 |x.value| ∧ Int.log 10 |x.value| < 342 := by
  have hpos : 0 < |x.value| := abs_pos.2 hne
  have hone : (1 : ℚ) ≤ x.significand := by
    exact_mod_cast Nat.one_le_iff_ne_zero.2 (mt (value_eq_zero_iff x).2 hne)
  have hlt : (x.significand : ℚ) < 2 ^ (53 : ℤ) := by exact_mod_cast x.significand_lt
  obtain ⟨hlow, hhigh⟩ := exponent_bounds hfinite
  have hscale : (0 : ℚ) < 2 ^ x.exponent := zpow_pos (by norm_num) _
  constructor
  · have hle : (10 : ℚ) ^ (-358 : ℤ) ≤ |x.value| :=
      calc (10 : ℚ) ^ (-358 : ℤ) ≤ 2 ^ (-1074 : ℤ) := ten_zpow_neg_le 358
        _ ≤ 2 ^ x.exponent := zpow_le_zpow_right₀ (by norm_num) hlow
        _ ≤ x.significand * 2 ^ x.exponent := le_mul_of_one_le_left hscale.le hone
        _ = |x.value| := x.abs_value.symm
    exact (Int.zpow_le_iff_le_log (b := 10) (by decide) hpos).1 (by exact_mod_cast hle)
  · have hlt : |x.value| < (10 : ℚ) ^ (342 : ℤ) :=
      calc |x.value| = x.significand * 2 ^ x.exponent := x.abs_value
        _ < 2 ^ (53 : ℤ) * 2 ^ x.exponent := by gcongr
        _ ≤ 2 ^ (53 : ℤ) * 2 ^ (971 : ℤ) := by
            gcongr
            · norm_num
        _ = 2 ^ (1024 : ℤ) := by rw [← zpow_add₀ (by norm_num)]; norm_num
        _ ≤ 2 ^ (1026 : ℤ) := zpow_le_zpow_right₀ (by norm_num) (by norm_num)
        _ ≤ 10 ^ (342 : ℤ) := two_zpow_le 342
    exact (Int.lt_zpow_iff_log_lt (b := 10) (by decide) hpos).1 (by exact_mod_cast hlt)

end Binary64

namespace Decimal

/-! ## The form of a number with an exponent -/

/-- A text is a number with an exponent: a minus sign if it is negative, one digit, a point, six
digits, the letter, the sign of the exponent, and two digits of it, or three where two do not
suffice. -/
def Scientific (negative : Bool) (m : ℕ) (e : ℤ) (text : List Char) : Prop :=
  ∃ (first : Char) (places exponent : List Char),
    text = (if negative then ['-'] else []) ++ first :: '.' :: (places ++
      'e' :: (if e < 0 then '-' else '+') :: exponent) ∧
    IsDigits (first :: places) ∧ places.length = 6 ∧ Json.natOfDigits (first :: places) = m ∧
    IsDigits exponent ∧ Json.natOfDigits exponent = e.natAbs ∧
    exponent.length = if e.natAbs < 100 then 2 else 3

theorem Scientific.length {negative : Bool} {m : ℕ} {e : ℤ} {text : List Char}
    (h : Scientific negative m e text) : 12 ≤ text.length ∧ text.length ≤ 14 := by
  obtain ⟨first, places, exponent, rfl, -, hplaces, -, -, -, hexponent⟩ := h
  have hsign : (if negative then ['-'] else [] : List Char).length ≤ 1 := by
    cases negative <;> simp
  have hwidth : 2 ≤ exponent.length ∧ exponent.length ≤ 3 := by
    rw [hexponent]
    split <;> omega
  simp only [List.length_append, List.length_cons, hplaces]
  omega

theorem digits_of_lt {d : ℕ} (h : d < 10) : digits d = [Nat.digitChar d] := by
  have hcount : digitCount d ≤ 1 := lt_pow_iff.1 h
  rw [digits, digitsAtLeast, Nat.max_eq_max, max_eq_left hcount, fixedDigits, fixedDigits,
    Nat.mod_eq_of_lt h]
  rfl

/-- Two digits for an exponent, or three where two do not suffice. -/
theorem length_digitsAtLeast_two {n : ℕ} (h : n < 1000) :
    (digitsAtLeast 2 n).length = if n < 100 then 2 else 3 := by
  have hthree : digitCount n ≤ 3 := lt_pow_iff.1 h
  have htwo : n < 100 ↔ digitCount n ≤ 2 := lt_pow_iff (k := 2)
  rw [digitsAtLeast, length_fixedDigits, Nat.max_eq_max]
  split <;> omega

/-- Seven digits and an exponent make such a text. -/
theorem scientific_of_lt (negative : Bool) {m : ℕ} {e : ℤ} (hm : m < 10 ^ 7)
    (he : e.natAbs < 1000) : Scientific negative m e ((if negative then ['-'] else []) ++
      (digits (m / 10 ^ 6) ++ '.' :: fixedDigits 6 m ++ 'e' :: exponentText 2 e)) := by
  have hfirst : m / 10 ^ 6 < 10 := by omega
  have hall := fixedDigits_succ 6 m
  rw [Nat.mod_eq_of_lt hfirst] at hall
  refine ⟨Nat.digitChar (m / 10 ^ 6), fixedDigits 6 m, digitsAtLeast 2 e.natAbs, ?_, ?_,
    length_fixedDigits 6 m, ?_, isDigits_digitsAtLeast (by decide) _, natOfDigits_digitsAtLeast 2 _,
    length_digitsAtLeast_two he⟩
  · rw [digits_of_lt hfirst, exponentText]
    simp
  · rw [← hall]
    exact ⟨by simp [fixedDigits], fun c hc => isDigit_of_mem_fixedDigits hc⟩
  · rw [← hall, natOfDigits_fixedDigits, Nat.mod_eq_of_lt hm]

/-! ## Taking a text apart -/

theorem splitOnce?_append {mark : Char} {before : List Char} (h : mark ∉ before)
    (after : List Char) : splitOnce? mark (before ++ mark :: after) = some (before, after) := by
  have hbefore : ∀ c ∈ before, (c != mark) = true :=
    fun c hc => bne_iff_ne.2 fun heq => h (heq ▸ hc)
  simp [splitOnce?, List.span_eq_takeWhile_dropWhile, List.takeWhile_append_of_pos hbefore,
    List.dropWhile_append_of_pos hbefore]

theorem splitSign_of_isDigits {text : List Char} (h : IsDigits text) :
    splitSign text = (false, text) := by
  obtain ⟨hne, hdigits⟩ := h
  cases text with
  | nil => contradiction
  | cons c rest =>
    have hc := hdigits c List.mem_cons_self
    unfold splitSign
    split
    · rename_i heq
      injection heq with heq
      simp [heq] at hc
    · rename_i heq
      injection heq with heq
      simp [heq] at hc
    · rfl

/-- A text of a sign and digits is read as the integer it spells, where that is one of 32 bits. -/
theorem integer?_plainExponent {e : ℤ} (he : e.natAbs < 1000) :
    integer? (plainExponent e) = some e := by
  have hdigits := isDigits_digits e.natAbs
  have hsplit : splitSign (plainExponent e) = (decide (e < 0), digits e.natAbs) := by
    rw [plainExponent]
    split
    · rename_i hneg
      simp [splitSign, hneg]
    · rename_i hnonneg
      simpa [hnonneg] using splitSign_of_isDigits hdigits
  have hvalue : (if decide (e < 0) = true then -(e.natAbs : ℤ) else e.natAbs) = e := by
    simp only [decide_eq_true_eq]
    split <;> omega
  have hleast : Int32.minValue.toInt = -2147483648 := by decide
  have hgreatest : Int32.maxValue.toInt = 2147483647 := by decide
  have hrange : -2147483648 ≤ e ∧ e ≤ 2147483647 := by omega
  have hall : (digits e.natAbs).all Char.isDigit = true := List.all_eq_true.2 hdigits.2
  have hnonempty : (digits e.natAbs).isEmpty = false := by simpa using hdigits.1
  simp only [integer?, hsplit, natOfDigits_digits, hvalue, hleast, hgreatest]
  simp [hall, hnonempty, hrange]

/-- The letter in front of the exponent is the first one of the text. -/
theorem e_notMem_mantissa (x : Binary64) (m : ℕ) :
    'e' ∉ signText x ++ digits (m / 10 ^ 6) ++ '.' :: fixedDigits 6 m := by
  have hdigit : ¬ 'e'.isDigit = true := by decide
  simp only [List.mem_append, List.mem_cons, not_or]
  refine ⟨⟨?_, fun h => hdigit ((isDigits_digits _).2 _ h)⟩, by decide,
    fun h => hdigit (isDigit_of_mem_fixedDigits h)⟩
  rw [signText]
  split <;> simp

end Decimal

namespace Report

open Decimal

variable {x : Binary64}

/-! ## The numbers of a report -/

/-- The digits that are written for a number, and the exponent. -/
def digitsOf (x : Binary64) : ℕ × ℤ :=
  roundedDigits numbers.places x.magnitude.1 x.magnitude.2

theorem digitsOf_of_zero (h : x.value = 0) : digitsOf x = (0, 0) :=
  if_pos (x.magnitude_eq_zero_iff.2 h)

theorem rounded_digitsOf (h : x.value ≠ 0) :
    Rounded numbers.places |x.value| (digitsOf x).1 (digitsOf x).2 := by
  have hnum : 0 < x.magnitude.1 := Nat.pos_of_ne_zero (mt x.magnitude_eq_zero_iff.1 h)
  rw [← x.magnitude_eq]
  exact rounded_roundedDigits (by decide) hnum x.magnitude_den_pos

theorem digitsOf_bounds (hfinite : x.isFinite = true) :
    (digitsOf x).1 < 10 ^ 7 ∧ (digitsOf x).2.natAbs < 1000 := by
  by_cases hzero : x.value = 0
  · rw [digitsOf_of_zero hzero]
    decide
  · have hrounded := rounded_digitsOf hzero
    have hlog := Binary64.log_bounds hfinite hzero
    have hexponent := hrounded.exponent
    exact ⟨hrounded.digits.2, by omega⟩

theorem scientificText_eq (hfinite : x.isFinite = true) : numbers.scientificText x =
    signText x ++ (digits ((digitsOf x).1 / 10 ^ 6) ++ '.' :: fixedDigits 6 (digitsOf x).1 ++
      'e' :: exponentText 2 (digitsOf x).2) :=
  if_pos hfinite

/-- The text of a number has the form of one with an exponent. -/
theorem scientific_scientificText (hfinite : x.isFinite = true) :
    Scientific x.isNegative (digitsOf x).1 (digitsOf x).2 (numbers.scientificText x) := by
  obtain ⟨hm, he⟩ := digitsOf_bounds hfinite
  rw [scientificText_eq hfinite]
  exact scientific_of_lt x.isNegative hm he

theorem toList_scientific (x : Binary64) :
    (scientific x).toList = padLeft 12 (numbers.scientificText x) :=
  String.toList_ofList

/-- No blanks are in front of a finite number. -/
theorem toList_scientific_of_isFinite (hfinite : x.isFinite = true) :
    (scientific x).toList = numbers.scientificText x := by
  have hlength := (scientific_scientificText hfinite).length.1
  rw [toList_scientific, padLeft, Nat.sub_eq_zero_of_le hlength]
  rfl

/-- The first text falls into the number and an exponent that can be read. -/
theorem splitOnce?_plainText (x : Binary64) : splitOnce? 'e' (numbers.plainText x) =
    some (signText x ++ digits ((digitsOf x).1 / 10 ^ 6) ++ '.' :: fixedDigits 6 (digitsOf x).1,
      plainExponent (digitsOf x).2) :=
  splitOnce?_append (e_notMem_mantissa x (digitsOf x).1) _

/-- Writing the exponent twice gives the same text as writing it once. -/
theorem scientific_eq_rewritten (x : Binary64) : scientific x = rewritten x := by
  by_cases hfinite : x.isFinite = true
  · have hread := integer?_plainExponent (digitsOf_bounds hfinite).2
    have htext : rewriteExponent numbers.exponentDigits (numbers.plainText x) =
        numbers.scientificText x := by
      rw [rewriteExponent, splitOnce?_plainText, scientificText_eq hfinite]
      simp only [hread, Option.getD_some, List.append_assoc]
      rfl
    rw [rewritten, if_pos hfinite, htext]
    rfl
  · rw [rewritten, if_neg hfinite, scientific, Layout.scientific, Layout.scientificText,
      if_neg hfinite]

/-- **How every number of a report is written.**  The text comes out of the two steps in which it is
written.  That of a finite number has the form of a number with an exponent, the minus sign if the
sign bit is set, twelve to fourteen characters and the digits of its exact value, correctly rounded;
the exponent of its first text can always be read.  Other numbers are written by name. -/
theorem scientific_correct (x : Binary64) :
    scientific x = rewritten x ∧
    (x.isFinite = true →
      (∃ before exponent e, splitOnce? 'e' (numbers.plainText x) = some (before, exponent) ∧
        integer? exponent = some e) ∧
      (12 ≤ (scientific x).toList.length ∧ (scientific x).toList.length ≤ 14) ∧
      ∃ (m : ℕ) (e : ℤ), Scientific x.isNegative m e (scientific x).toList ∧
        (x.value = 0 → m = 0 ∧ e = 0) ∧
        (x.value ≠ 0 → (10 ^ 6 ≤ m ∧ m < 10 ^ 7) ∧
          |(m : ℚ) * 10 ^ (e - 6) - (|x.value|)| ≤ 10 ^ (e - 6) / 2 ∧
          (|(m : ℚ) * 10 ^ (e - 6) - (|x.value|)| = 10 ^ (e - 6) / 2 → m % 2 = 0) ∧
          Rounded 6 (|x.value|) m e)) ∧
    (x.isNaN = true → scientific x = "         NaN") ∧
    (x.isFinite = false → x.isNaN = false →
      scientific x = if x.isNegative then "        -inf" else "         inf") := by
  refine ⟨scientific_eq_rewritten x, fun hfinite => ?finite, fun hnan => ?nan,
    fun hinf hnan => ?inf⟩
  case finite =>
    have hform := scientific_scientificText hfinite
    rw [toList_scientific_of_isFinite hfinite]
    refine ⟨⟨_, _, _, splitOnce?_plainText x, integer?_plainExponent (digitsOf_bounds hfinite).2⟩,
      hform.length, _, _, hform, fun hzero => ?_, fun hne => ?_⟩
    · rw [digitsOf_of_zero hzero]
      exact ⟨rfl, rfl⟩
    · have hrounded := rounded_digitsOf hne
      obtain ⟨hnear, heven⟩ := hrounded.near_last
      exact ⟨hrounded.digits, hnear, heven, hrounded⟩
  case nan =>
    have hfinite : ¬ x.isFinite = true := fun h => by
      simp [Binary64.isNaN_eq_false_of_isFinite h] at hnan
    rw [scientific, Layout.scientific, Layout.scientificText, if_neg hfinite, specialText,
      if_pos hnan]
    rfl
  case inf =>
    rw [scientific, Layout.scientific, Layout.scientificText, if_neg (by simp [hinf]), specialText,
      if_neg (by simp [hnan]), signText]
    split <;> rfl

/-- A number just below ten, a tie, the least number of all, the negative zero, and two that are not
finite. -/
theorem scientific_correct_samples :
    (∃ m e, Scientific false m e "1.000000e+01".toList ∧
      Rounded 6 (|(⟨0x4023fffff29406b3⟩ : Binary64).value|) m e) ∧
    (∃ m e, Scientific false m e "1.000000e+06".toList ∧
      Rounded 6 (|(⟨0x412e848100000000⟩ : Binary64).value|) m e) ∧
    rewritten ⟨0x0000000000000001⟩ = "4.940656e-324" ∧
    Scientific true 0 0 "-0.000000e+00".toList ∧
    scientific ⟨0x7ff8000000000000⟩ = "         NaN" ∧
    scientific ⟨0xfff0000000000000⟩ = "        -inf" := by
  have hten : scientific ⟨0x4023fffff29406b3⟩ = "1.000000e+01" := by decide +kernel
  have htie : scientific ⟨0x412e848100000000⟩ = "1.000000e+06" := by decide +kernel
  have hleast : scientific ⟨0x0000000000000001⟩ = "4.940656e-324" := by decide +kernel
  have hzero : scientific ⟨0x8000000000000000⟩ = "-0.000000e+00" := by decide +kernel
  refine ⟨?_, ?_, (scientific_correct ⟨1⟩).1 ▸ hleast, ?_,
    (scientific_correct ⟨0x7ff8000000000000⟩).2.2.1 (by decide),
    (scientific_correct ⟨0xfff0000000000000⟩).2.2.2 (by decide) (by decide)⟩
  · obtain ⟨-, -, m, e, hform, -, hdigits⟩ :=
      (scientific_correct ⟨0x4023fffff29406b3⟩).2.1 (by decide)
    have hvalue := mt (Binary64.value_eq_zero_iff _).1
      (by decide : (⟨0x4023fffff29406b3⟩ : Binary64).significand ≠ 0)
    exact ⟨m, e, hten ▸ hform, (hdigits hvalue).2.2.2⟩
  · obtain ⟨-, -, m, e, hform, -, hdigits⟩ :=
      (scientific_correct ⟨0x412e848100000000⟩).2.1 (by decide)
    have hvalue := mt (Binary64.value_eq_zero_iff _).1
      (by decide : (⟨0x412e848100000000⟩ : Binary64).significand ≠ 0)
    exact ⟨m, e, htie ▸ hform, (hdigits hvalue).2.2.2⟩
  · obtain ⟨-, -, m, e, hform, hall, -⟩ :=
      (scientific_correct ⟨0x8000000000000000⟩).2.1 (by decide)
    have hvalue := (Binary64.value_eq_zero_iff _).2
      (by decide : (⟨0x8000000000000000⟩ : Binary64).significand = 0)
    obtain ⟨rfl, rfl⟩ := hall hvalue
    exact hzero ▸ hform

end Report

end Screening
