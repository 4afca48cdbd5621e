import Screening.Proofs.NumberOrder

/-!
# Seventeen digits suffice

The shortest decimal of a double is looked for among decimals of one digit, of two digits and so on.
The search ends with a decimal: those of seventeen digits lie closer together than the reals that
round to a double extend, so that one of them is among these.

* `RoundingInterval.Reaches` — an interval extends to both sides of its value, as far as it does for
  every double; `RoundingInterval.Reaches.exists_nearest?` is that it holds a whole number where the
  value has seventeen digits.
* `Decimal.exists_ofDigitCount?` — there is a decimal of seventeen digits.
* `Decimal.Approximates`, `Decimal.approximates_shortest` — the decimal that is found rounds to the
  double.
* `Decimal.Spells`, `Decimal.spells_shortestDigits` — so do its digits, once zeros at the end are
  left out.
-/

set_option autoImplicit false

namespace Screening

-- Powers of natural numbers are those of core here, whatever other power is in scope.
attribute [local instance (2000)] instPowNat

/-! ## Whole numbers in an interval -/

namespace RoundingInterval

variable {i : RoundingInterval} {k : ℕ}

theorem contains_of_lt (hlow : i.low < k * i.den) (hhigh : k * i.den < i.high) :
    i.contains k = true := by
  rw [contains]
  split <;> simp only [Bool.and_eq_true, decide_eq_true_eq]
  · exact ⟨hlow.le, hhigh.le⟩
  · exact ⟨hlow, hhigh⟩

theorem mul_le_of_contains (h : i.contains k = true) : k * i.den ≤ i.high := by
  rw [contains] at h
  split at h <;> simp only [Bool.and_eq_true, decide_eq_true_eq] at h
  · exact h.2
  · exact h.2.le

/-- **An interval that reaches more than a half to both sides holds a whole number** next to its
value. -/
theorem exists_nearest? (hden : 0 < i.den) (hlow : 2 * i.low + i.den < 2 * i.value)
    (hhigh : 2 * i.value + i.den < 2 * i.high) : ∃ k, i.nearest? = some k := by
  have hsplit := Nat.div_add_mod i.value i.den
  have hless := Nat.mod_lt i.value hden
  rw [Nat.mul_comm] at hsplit
  have hnext : (i.value / i.den + 1) * i.den = i.value / i.den * i.den + i.den := Nat.succ_mul _ _
  rw [nearest?]
  rcases Nat.lt_or_ge (2 * (i.value % i.den)) i.den with hbelow | habove
  · have hmem : i.contains (i.value / i.den) = true := contains_of_lt (by omega) (by omega)
    cases i.contains (i.value / i.den + 1) <;> simp [hmem]
  · have hmem : i.contains (i.value / i.den + 1) = true := contains_of_lt (by omega) (by omega)
    cases i.contains (i.value / i.den) <;> simp [hmem]

/-- The interval reaches further down and further up than one part in `2 ^ 54` of its value. -/
structure Reaches (i : RoundingInterval) : Prop where
  low : i.value + 2 ^ 54 * i.low ≤ 2 ^ 54 * i.value
  high : i.value + 2 ^ 54 * i.value ≤ 2 ^ 54 * i.high

theorem Reaches.scale (h : i.Reaches) (power : ℤ) : (i.scale power).Reaches := by
  have hlow := Nat.mul_le_mul_right (10 ^ power.toNat) h.low
  have hhigh := Nat.mul_le_mul_right (10 ^ power.toNat) h.high
  rw [Nat.add_mul, Nat.mul_assoc, Nat.mul_assoc] at hlow hhigh
  exact ⟨hlow, hhigh⟩

/-- Where the value has seventeen digits before the point, that is more than a half. -/
theorem Reaches.exists_nearest? (h : i.Reaches) (hden : 0 < i.den)
    (hvalue : 10 ^ 16 * i.den ≤ i.value) : ∃ k, i.nearest? = some k := by
  obtain ⟨hlow, hhigh⟩ := h
  exact RoundingInterval.exists_nearest? hden (by omega) (by omega)

/-- The whole number that is chosen lies in the interval and hardly above its value. -/
theorem contains_of_nearest? (h : i.nearest? = some k) :
    i.contains k = true ∧ k ≤ i.value / i.den + 1 := by
  have hround : roundDiv i.value i.den = i.value / i.den ∨
      roundDiv i.value i.den = i.value / i.den + 1 := by
    unfold roundDiv
    dsimp only
    split
    · exact .inl rfl
    · split
      · exact .inr rfl
      · rcases Nat.mod_two_eq_zero_or_one (i.value / i.den) with heven | hodd
        · exact .inl (by rw [heven, Nat.add_zero])
        · exact .inr (by rw [hodd])
  rw [nearest?] at h
  split at h
  · rename_i hbelow habove
    obtain rfl := Option.some.inj h
    rcases hround with hround | hround <;> rw [hround]
    · exact ⟨hbelow, Nat.le_succ _⟩
    · exact ⟨habove, le_rfl⟩
  · rename_i hbelow _
    obtain rfl := Option.some.inj h
    exact ⟨hbelow, Nat.le_succ _⟩
  · rename_i habove
    obtain rfl := Option.some.inj h
    exact ⟨habove, le_rfl⟩
  · cases h

end RoundingInterval

namespace Binary64

variable {x : Binary64}

/-! ## The interval of a double -/

theorem interval_den_pos (x : Binary64) : 0 < x.interval.den := Nat.two_pow_pos _

/-- The value of the interval is that of the number. -/
theorem interval_value (x : Binary64) : (x.interval.value / x.interval.den : ℚ) = |x.value| := by
  have hvalue : x.interval.value = 4 * x.significand * (powerOfTwo (x.exponent - 2)).1 := rfl
  have hden : x.interval.den = (powerOfTwo (x.exponent - 2)).2 := rfl
  rw [hvalue, hden, Nat.cast_mul, mul_div_assoc, powerOfTwo_eq, abs_value, zpow_sub₀ (by norm_num)]
  push_cast
  ring

/-- Its upper end is half a step above. -/
theorem interval_high (x : Binary64) :
    (x.interval.high / x.interval.den : ℚ) = |x.value| + 2 ^ (x.exponent - 1) := by
  have hhigh : x.interval.high = (4 * x.significand + 2) * (powerOfTwo (x.exponent - 2)).1 := rfl
  have hden : x.interval.den = (powerOfTwo (x.exponent - 2)).2 := rfl
  rw [hhigh, hden, Nat.cast_mul, mul_div_assoc, powerOfTwo_eq, abs_value, zpow_sub₀ (by norm_num),
    zpow_sub₀ (by norm_num)]
  push_cast
  ring

theorem interval_reaches (hne : x.isZero = false) : x.interval.Reaches := by
  have hpos := significand_pos hne
  have hlt := x.significand_lt
  have hhigh : x.interval.high = (4 * x.significand + 2) * (powerOfTwo (x.exponent - 2)).1 := rfl
  have hvalue : x.interval.value = 4 * x.significand * (powerOfTwo (x.exponent - 2)).1 := rfl
  have hlow : x.interval.low =
      (4 * x.significand - if x.fraction = 0 ∧ 1 < x.biasedExponent then 1 else 2) *
        (powerOfTwo (x.exponent - 2)).1 := rfl
  constructor
  · rw [hvalue, hlow, ← Nat.mul_assoc, ← Nat.add_mul, ← Nat.mul_assoc]
    refine Nat.mul_le_mul_right _ ?_
    split
    · -- the lower end is nearer where the exponent changes, and the significand is the least then
      rename_i hnarrow
      have hleast : x.significand = 2 ^ 52 := by
        have hweight : exponentWeight = 2 ^ 52 := rfl
        rw [significand, if_neg (by omega), hnarrow.1, hweight, Nat.zero_add]
      omega
    · omega
  · rw [hvalue, hhigh, ← Nat.mul_assoc _ (4 * x.significand), ← Nat.add_mul,
      ← Nat.mul_assoc _ (4 * x.significand + 2)]
    refine Nat.mul_le_mul_right _ ?_
    omega

theorem value_ne_zero (hne : x.isZero = false) : x.value ≠ 0 :=
  mt (value_eq_zero_iff x).1 (significand_pos hne).ne'

end Binary64

namespace Decimal

variable {x : Binary64}

/-! ## Decimals in the interval -/

/-- The interval among decimals of `count + 1` digits, which are whole numbers there. -/
def grid (x : Binary64) (count : ℕ) : RoundingInterval :=
  x.interval.scale (-(leadingExponent x.interval.value x.interval.den - (count : ℤ)))

/-- The first digit of the interval's value is that of the number. -/
theorem leadingExponent_interval (hne : x.isZero = false) :
    leadingExponent x.interval.value x.interval.den = Int.log 10 |x.value| := by
  have hpos : 0 < x.interval.value := by
    by_contra hzero
    have hvalue := x.interval_value
    rw [Nat.eq_zero_of_not_pos hzero, Nat.cast_zero, zero_div] at hvalue
    exact (abs_pos.2 (Binary64.value_ne_zero hne)).ne hvalue
  rw [leadingExponent_eq_log hpos x.interval_den_pos, x.interval_value]

theorem grid_den_pos (x : Binary64) (count : ℕ) : 0 < (grid x count).den :=
  Nat.mul_pos x.interval_den_pos (Nat.pow_pos (by decide))

/-- The value of the interval, scaled so that a number of digits stand before the point. -/
theorem grid_bounds (hne : x.isZero = false) (count : ℕ) :
    10 ^ count * (grid x count).den ≤ (grid x count).value ∧
      (grid x count).value < 10 ^ (count + 1) * (grid x count).den := by
  obtain ⟨hlow, hhigh⟩ := scaled_bounds (abs_pos.2 (Binary64.value_ne_zero hne)) count
  have hexponent : (count : ℤ) - Int.log 10 |x.value| =
      -(leadingExponent x.interval.value x.interval.den - (count : ℤ)) := by
    rw [leadingExponent_interval hne]
    omega
  have hscaled : |x.value| * 10 ^ ((count : ℤ) - Int.log 10 |x.value|) =
      ((grid x count).value : ℚ) / (grid x count).den := by
    rw [hexponent, ← x.interval_value]
    exact (scale_eq _ _ _).symm
  have hden : (0 : ℚ) < (grid x count).den := by exact_mod_cast grid_den_pos x count
  rw [hscaled, le_div_iff₀ hden] at hlow
  rw [hscaled, div_lt_iff₀ hden] at hhigh
  exact ⟨by exact_mod_cast hlow, by exact_mod_cast hhigh⟩

/-- **There is a decimal of seventeen digits in the interval of every double.** -/
theorem exists_ofDigitCount? (hne : x.isZero = false) :
    ∃ found, ofDigitCount? x.interval maxDigits = some found := by
  obtain ⟨k, hk⟩ := ((Binary64.interval_reaches hne).scale _).exists_nearest?
    (grid_den_pos x 16) (grid_bounds hne 16).1
  exact ⟨_, congrArg (Option.map _) hk⟩

/-- The search ends with a decimal of one of the counts. -/
theorem exists_ofDigitCount?_shortest (hne : x.isZero = false) :
    ∃ count < maxDigits, ofDigitCount? x.interval (count + 1) = some (shortest x) := by
  obtain ⟨found, hfound⟩ := exists_ofDigitCount? hne
  have hsome : ((List.range maxDigits).findSome? fun n =>
      ofDigitCount? x.interval (n + 1)).isSome = true := by
    rw [List.findSome?_isSome_iff]
    exact ⟨16, List.mem_range.2 (by decide), Option.isSome_of_eq_some hfound⟩
  obtain ⟨result, hresult⟩ := Option.isSome_iff_exists.1 hsome
  obtain ⟨count, hcount, hof⟩ := List.exists_of_findSome?_eq_some hresult
  have hshortest : shortest x = result := by rw [shortest, hresult, Option.getD_some]
  exact ⟨count, List.mem_range.1 hcount, hshortest ▸ hof⟩

/-- The digits `k`, the last of them at `10 ^ last`, are a decimal that rounds to a number: there
are hardly more than seventeen, the decimal is no further above the number than half a step, and its
last digit is not far behind the first one of the number. -/
structure Approximates (x : Binary64) (k : ℕ) (last : ℤ) : Prop where
  pos : 0 < k
  le : k ≤ 10 ^ maxDigits
  value_le : (k : ℚ) * 10 ^ last ≤ |x.value| + 2 ^ (x.exponent - 1)
  le_last : Int.log 10 |x.value| - maxDigits < last

/-- A whole number of the grid is a decimal no higher than the interval. -/
theorem mul_zpow_le_of_contains {x : Binary64} {k : ℕ} {last : ℤ}
    (h : (x.interval.scale (-last)).contains k = true) :
    (k : ℚ) * 10 ^ last ≤ |x.value| + 2 ^ (x.exponent - 1) := by
  have hle := RoundingInterval.mul_le_of_contains h
  have hden : (0 : ℚ) < (scale (-last) x.interval.high x.interval.den).2 := by
    exact_mod_cast scale_den_pos (-last) x.interval.high x.interval_den_pos
  have hquotient : (k : ℚ) ≤ (|x.value| + 2 ^ (x.exponent - 1)) * 10 ^ (-last) := by
    rw [← Binary64.interval_high, ← scale_eq, le_div_iff₀ hden]
    exact_mod_cast hle
  have hscale : (0 : ℚ) < 10 ^ last := zpow_pos (by norm_num) _
  calc (k : ℚ) * 10 ^ last
      ≤ (|x.value| + 2 ^ (x.exponent - 1)) * 10 ^ (-last) * 10 ^ last :=
        mul_le_mul_of_nonneg_right hquotient hscale.le
    _ = |x.value| + 2 ^ (x.exponent - 1) := by
        rw [mul_assoc, zpow_neg, inv_mul_cancel₀ hscale.ne', mul_one]

/-- **The shortest decimal of a double rounds to it.** -/
theorem approximates_shortest (hne : x.isZero = false) :
    Approximates x (shortest x).1 (shortest x).2 := by
  obtain ⟨count, hcount, hfound⟩ := exists_ofDigitCount?_shortest hne
  obtain ⟨k, hk, hshortest⟩ := Option.map_eq_some_iff.1 hfound
  have hlast : leadingExponent x.interval.value x.interval.den - (((count + 1 : ℕ) : ℤ) - 1) =
      leadingExponent x.interval.value x.interval.den - count := by
    push_cast
    ring
  rw [← hshortest]
  rw [hlast] at hk ⊢
  obtain ⟨hcontains, hle⟩ := RoundingInterval.contains_of_nearest? hk
  have hpos : 0 < k := RoundingInterval.pos_of_nearest?
    (Nat.mul_pos (Binary64.interval_low_pos hne) (Nat.pow_pos (by decide))) hk
  have hbelow : (grid x count).value / (grid x count).den < 10 ^ (count + 1) :=
    (Nat.div_lt_iff_lt_mul (grid_den_pos x count)).2 (grid_bounds hne count).2
  have hdigits : k ≤ 10 ^ (count + 1) := hle.trans hbelow
  refine ⟨hpos, hdigits.trans (Nat.pow_le_pow_right (by decide) hcount),
    mul_zpow_le_of_contains hcontains, ?_⟩
  rw [leadingExponent_interval hne]
  omega

/-! ## Digits without the zeros at the end -/

theorem natOfDigits_append_zeros (run : List Char) (zeros : ℕ) :
    Json.natOfDigits (run ++ List.replicate zeros '0') = Json.natOfDigits run * 10 ^ zeros := by
  induction zeros with
  | zero => simp
  | succ zeros ih =>
    rw [Json.natOfDigits, List.foldl_append] at ih ⊢
    rw [List.replicate_succ', List.foldl_append, ih, Nat.pow_succ]
    simp only [List.foldl_cons, List.foldl_nil]
    show 10 * (_ * 10 ^ zeros) + 0 = _
    rw [Json.natOfDigits]
    ring

theorem exists_trimZeros_append (text : List Char) :
    ∃ zeros, text = trimZeros text ++ List.replicate zeros '0' := by
  refine ⟨(text.rtakeWhile (· == '0')).length, ?_⟩
  have hzeros : text.rtakeWhile (· == '0') =
      List.replicate (text.rtakeWhile (· == '0')).length '0' :=
    List.eq_replicate_of_mem fun c hc => by simpa using List.mem_rtakeWhile_imp hc
  rw [← hzeros, trimZeros_eq_rdropWhile, List.rdropWhile_append_rtakeWhile]

theorem length_digits {n : ℕ} (h : 0 < n) : (digits n).length = digitCount n := by
  have hcount := digitCount_of_pos h
  rw [digits, digitsAtLeast, length_fixedDigits, Nat.max_eq_max]
  omega

/-- The digits of a decimal that rounds to a number, the first one at `10 ^ e`: it is not a zero,
all of them are within a machine word, and the decimal is no further above the number than half a
step. -/
structure Spells (x : Binary64) (run : List Char) (e : ℤ) : Prop where
  digits : IsDigits run
  pos : 0 < Json.natOfDigits run
  head : run.head? ≠ some '0'
  le : Json.natOfDigits run ≤ 10 ^ maxDigits
  value_le : (Json.natOfDigits run : ℚ) * 10 ^ (e - (run.length - 1)) ≤
    |x.value| + 2 ^ (x.exponent - 1)
  first_le : (10 : ℚ) ^ e ≤ |x.value| + 2 ^ (x.exponent - 1)
  le_first : Int.log 10 |x.value| - maxDigits < e

/-- **The shortest digits of a double are those of a decimal that rounds to it.** -/
theorem spells_shortestDigits (hne : x.isZero = false) :
    Spells x (shortestDigits x).1 (shortestDigits x).2 := by
  obtain ⟨hpos, hle, hvalue, hlast⟩ := approximates_shortest hne
  obtain ⟨hdigits, hhead⟩ := trimZeros_digits hpos
  obtain ⟨zeros, hzeros⟩ := exists_trimZeros_append (digits (shortest x).1)
  have hten : (10 : ℚ) ≠ 0 := by norm_num
  have hcount := digitCount_of_pos hpos
  have hlength := length_digits hpos
  have hnumber : (shortest x).1 =
      Json.natOfDigits (trimZeros (digits (shortest x).1)) * 10 ^ zeros := by
    rw [← natOfDigits_append_zeros, ← hzeros, natOfDigits_digits]
  rw [shortestDigits]
  dsimp only
  generalize trimZeros (digits (shortest x).1) = run at *
  rw [hzeros, List.length_append, List.length_replicate] at hlength
  refine ⟨hdigits, Nat.pos_of_mul_pos_right (hnumber ▸ hpos), hhead, ?_, ?_, ?_, ?_⟩
  · refine le_trans ?_ hle
    rw [hnumber]
    exact Nat.le_mul_of_pos_right _ (Nat.pow_pos (by decide))
  · refine le_trans (le_of_eq ?_) hvalue
    have hexponent : (shortest x).2 + ((digitCount (shortest x).1 : ℤ) - 1) - (run.length - 1) =
        zeros + (shortest x).2 := by omega
    rw [hexponent, zpow_add₀ hten, zpow_natCast, ← mul_assoc, hnumber]
    push_cast
    rfl
  · refine le_trans ?_ hvalue
    have hleast : 10 ^ (digitCount (shortest x).1 - 1) ≤ (shortest x).1 := pow_le_iff.2 (by omega)
    have hexponent : (shortest x).2 + ((digitCount (shortest x).1 : ℤ) - 1) =
        (digitCount (shortest x).1 - 1 : ℕ) + (shortest x).2 := by omega
    rw [hexponent, zpow_add₀ hten, zpow_natCast]
    exact mul_le_mul_of_nonneg_right (by exact_mod_cast hleast) (zpow_pos (by norm_num) _).le
  · omega

end Decimal

end Screening
