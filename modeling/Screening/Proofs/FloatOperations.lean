import Screening.Proofs.FloatRounding

/-!
# Operations of arithmetic

What each operation rounds is bounded by what its operands are bounded by.  A sum is the one result
that need not have more room than its operands: beside a large operand a small one is lost, and the
sum stays below the power of two that bounds the large one.

* `Binary64.Together`, `Binary64.fits_add`, `Binary64.fits_sub` — sums and differences.
* `Binary64.fits_mul`, `Binary64.fits_div`, `Binary64.fits_sqrt` — products, quotients by no less
  than one, and roots of what is not negative.
* `Binary64.NonNegative` — what has no negative sign.
* `Binary64.AtLeastOne`, `Binary64.ofNat_spec` — counts as operands.
-/

set_option autoImplicit false

namespace Screening.Binary64

-- Powers of natural numbers are those of core here, whatever other power is in scope.
attribute [local instance (2000)] instPowNat

open Float.Model (Format UnpackedFloat totalExponent)
open Float.Model.UnpackedFloat

variable {a b : UnpackedFloat} {s : Sign} {m : ℕ} {e p q r : ℤ}

theorem log2_mul_two_pow (hpos : 0 < m) (k : ℕ) : (m * 2 ^ k).log2 = m.log2 + k := by
  have hself := Nat.log2_self_le hpos.ne'
  have hlt := Nat.lt_log2_self (n := m)
  rw [Nat.log2_eq_iff (Nat.mul_pos hpos (Nat.two_pow_pos k)).ne', Nat.pow_add,
    Nat.add_right_comm, Nat.pow_add]
  exact ⟨Nat.mul_le_mul_right _ hself, Nat.mul_lt_mul_of_pos_right hlt (Nat.two_pow_pos k)⟩

theorem halves_exact (m : ℕ) (e : ℤ) :
    (halves (known m .exact) * 2 ^ (e - 1) : ℚ) = m * 2 ^ e := by
  have hhalves : halves (known m .exact) = 2 * m := rfl
  rw [hhalves, zpow_eq_two_mul e]
  push_cast
  ring

/-- Bits that are put behind a significand leave its value. -/
theorem mul_two_pow_mul_zpow (m k : ℕ) (e : ℤ) :
    (((m * 2 ^ k : ℕ) : ℚ) * 2 ^ (e - k) : ℚ) = m * 2 ^ e := by
  rw [Nat.cast_mul, Nat.cast_pow, Nat.cast_ofNat, mul_assoc, ← zpow_natCast,
    ← zpow_add₀ (by norm_num), add_sub_cancel]

theorem round_eq (s : Sign) (m : ℕ) (e : ℤ) : UnpackedFloat.round Format.binary64 s m e =
    roundWithAccuracy Format.binary64 s (m * 2 ^ (e - lastKept m e).toNat)
      (e - (e - lastKept m e).toNat) .exact := by
  simp only [UnpackedFloat.round, targetExponent_totalExponent, decreaseExponent, Nat.shiftLeft_eq]

theorem lastKept_mul_two_pow (hpos : 0 < m) (e : ℤ) (k : ℕ) :
    lastKept (m * 2 ^ k) (e - k) = lastKept m e := by
  rw [lastKept, lastKept, log2_mul_two_pow hpos]
  push_cast
  ring_nf

/-- **Rounding stays below a power of two.** -/
theorem fits_round (hpos : 0 < m) (hq : -1022 ≤ q)
    (hless : (m * 2 ^ e : ℚ) < 2 ^ q + 2 ^ (q - 53)) :
    Fits q (UnpackedFloat.round Format.binary64 s m e) := by
  rw [round_eq]
  refine fits_roundWithAccuracy ?_ hq ?_
  · rw [lastKept_mul_two_pow hpos]
    omega
  · rwa [halves_exact, mul_two_pow_mul_zpow]

theorem fits_normalize {n : ℤ} {zeroSign : Sign} (hq : -1022 ≤ q)
    (hless : (|(n : ℚ)| * 2 ^ e : ℚ) < 2 ^ q + 2 ^ (q - 53)) :
    Fits q (UnpackedFloat.normalize Format.binary64 n e zeroSign) := by
  rw [← Int.cast_abs, ← Nat.cast_natAbs] at hless
  rw [UnpackedFloat.normalize]
  split
  · rename_i hlt
    rw [Int.compare_eq_lt] at hlt
    have habs : (-n).toNat = n.natAbs := by omega
    exact fits_round (by omega) hq (habs ▸ hless)
  · trivial
  · rename_i hgt
    rw [Int.compare_eq_gt] at hgt
    have habs : n.toNat = n.natAbs := by omega
    exact fits_round (by omega) hq (habs ▸ hless)

/-! ## Operations -/

theorem abs_apply (s : Sign) (n : ℤ) : |((s.apply n : ℤ) : ℚ)| = |(n : ℚ)| := by
  cases s
  · rw [Sign.apply, Int.cast_neg, abs_neg]
  · rfl

/-- Bits that are put behind a significand to move its last one leave the value. -/
theorem aligned_mul (m : ℕ) {e t : ℤ} (hle : t ≤ e) :
    ((decreaseExponent m e t).1 * 2 ^ t : ℚ) = m * 2 ^ e := by
  have hexponent : e - (e - t).toNat = t := by omega
  have hvalue := mul_two_pow_mul_zpow m (e - t).toNat e
  rw [hexponent] at hvalue
  rw [← hvalue, decreaseExponent, Nat.shiftLeft_eq]

/-- Two operands whose bounds add up to less than half a step above a power of two. -/
structure Together (p r q : ℤ) : Prop where
  normal : -1022 ≤ q
  left : p ≤ q
  right : r ≤ q
  sum : (2 ^ p + 2 ^ r : ℚ) < 2 ^ q + 2 ^ (q - 53)

theorem Together.symm (h : Together p r q) : Together r p q :=
  ⟨h.normal, h.right, h.left, add_comm (2 ^ r : ℚ) (2 ^ p) ▸ h.sum⟩

/-- What is added up with one exponent is rounded to no more than a power of two. -/
theorem fits_normalize_aligned (s₁ s₂ : Sign) {m₁ m₂ : ℕ} {e₁ e₂ : ℤ} {zeroSign : Sign}
    (h : Together p r q) (hleft : (m₁ * 2 ^ e₁ : ℚ) ≤ 2 ^ p) (hright : (m₂ * 2 ^ e₂ : ℚ) ≤ 2 ^ r) :
    Fits q (UnpackedFloat.normalize Format.binary64
      (s₁.apply (decreaseExponent m₁ e₁ (Min.min e₁ e₂)).1 +
        s₂.apply (decreaseExponent m₂ e₂ (Min.min e₁ e₂)).1) (Min.min e₁ e₂) zeroSign) := by
  refine fits_normalize h.normal (lt_of_le_of_lt ?_ h.sum)
  have hsum := abs_add_le ((s₁.apply (decreaseExponent m₁ e₁ (Min.min e₁ e₂)).1 : ℤ) : ℚ)
    (s₂.apply (decreaseExponent m₂ e₂ (Min.min e₁ e₂)).1 : ℤ)
  rw [abs_apply, abs_apply, Int.cast_natCast, Int.cast_natCast, Nat.abs_cast, Nat.abs_cast,
    ← Int.cast_add] at hsum
  calc |((s₁.apply (decreaseExponent m₁ e₁ (Min.min e₁ e₂)).1 +
          s₂.apply (decreaseExponent m₂ e₂ (Min.min e₁ e₂)).1 : ℤ) : ℚ)| * 2 ^ Min.min e₁ e₂
      ≤ ((decreaseExponent m₁ e₁ (Min.min e₁ e₂)).1 +
          (decreaseExponent m₂ e₂ (Min.min e₁ e₂)).1) * 2 ^ Min.min e₁ e₂ :=
        mul_le_mul_of_nonneg_right hsum (zpow_pos (by norm_num) _).le
    _ = m₁ * 2 ^ e₁ + m₂ * 2 ^ e₂ := by
        rw [add_mul, aligned_mul m₁ (min_le_left _ _), aligned_mul m₂ (min_le_right _ _)]
    _ ≤ 2 ^ p + 2 ^ r := add_le_add hleft hright

theorem exists_add_zeros (s₁ s₂ : Sign) :
    ∃ s, UnpackedFloat.add Format.binary64 (.zero s₁) (.zero s₂) = .zero s := by
  cases s₁ <;> cases s₂ <;> exact ⟨_, rfl⟩

/-- **A sum stays below a power of two** where the bounds of its operands do. -/
theorem fits_add (ha : Fits p a) (hb : Fits r b) (h : Together p r q) :
    Fits q (UnpackedFloat.add Format.binary64 a b) := by
  cases a with
  | infinity | notANumber => exact ha.elim
  | zero s₁ =>
    cases b with
    | infinity | notANumber => exact hb.elim
    | zero s₂ =>
      obtain ⟨s, hzero⟩ := exists_add_zeros s₁ s₂
      rw [hzero]
      trivial
    | finite s₂ m₂ e₂ h₂ => exact hb.mono h.right
  | finite s₁ m₁ e₁ h₁ =>
    cases b with
    | infinity | notANumber => exact hb.elim
    | zero s₂ => exact ha.mono h.left
    | finite s₂ m₂ e₂ h₂ => exact fits_normalize_aligned s₁ s₂ h ha.2 hb.2

/-- A difference is a sum with the sign of the second operand turned round. -/
theorem sub_eq (a b : UnpackedFloat) :
    UnpackedFloat.sub Format.binary64 a b = UnpackedFloat.add Format.binary64 a b.neg := by
  cases a with
  | finite s₁ m₁ e₁ h₁ =>
    cases b with
    | finite s₂ m₂ e₂ h₂ =>
      have hsign (n k : ℤ) : n - s₂.apply k = n + (-s₂).apply k := by
        cases s₂
        · exact sub_neg_eq_add n k
        · rfl
      exact congrArg (UnpackedFloat.normalize Format.binary64 · (Min.min e₁ e₂) .positive)
        (hsign _ _)
    | _ => rfl
  | _ => cases b <;> rfl

theorem Fits.neg {u : UnpackedFloat} (h : Fits q u) : Fits q u.neg := by
  cases u with
  | infinity | notANumber => exact h.elim
  | zero => trivial
  | finite => exact h

/-- **A difference stays below a power of two** where the bounds of its operands do. -/
theorem fits_sub (ha : Fits p a) (hb : Fits r b) (h : Together p r q) :
    Fits q (UnpackedFloat.sub Format.binary64 a b) := by
  rw [sub_eq]
  exact fits_add ha hb.neg h

theorem add_log2_le_log2_mul {m n : ℕ} (hm : 0 < m) (hn : 0 < n) :
    m.log2 + n.log2 ≤ (m * n).log2 := by
  rw [Nat.le_log2 (Nat.mul_pos hm hn).ne', Nat.pow_add]
  exact Nat.mul_le_mul (Nat.log2_self_le hm.ne') (Nat.log2_self_le hn.ne')

/-- A product of stored numbers has bits enough. -/
theorem le_lastKept_mul {n : ℕ} {d : ℤ} (hm : 0 < m) (hn : 0 < n) (hstored : Stored m e)
    (hstored' : Stored n d) : e + d ≤ lastKept (m * n) (e + d) := by
  have hlog := add_log2_le_log2_mul hm hn
  rw [Stored, lastKept] at hstored hstored'
  rw [lastKept]
  omega

theorem lt_half_step_above {x : ℚ} (hle : x ≤ 2 ^ q) : x < 2 ^ q + 2 ^ (q - 53) :=
  lt_of_le_of_lt hle (lt_add_of_pos_right _ (zpow_pos (by norm_num) _))

/-- **A product is bounded by the product of the bounds**, if that is not too small. -/
theorem fits_mul (ha : Fits p a) (hb : Fits r b) (hq : -1022 ≤ p + r) :
    Fits (p + r) (UnpackedFloat.mul Format.binary64 a b) := by
  cases a with
  | infinity | notANumber => exact ha.elim
  | zero s₁ =>
    cases b with
    | infinity | notANumber => exact hb.elim
    | zero | finite => trivial
  | finite s₁ m₁ e₁ h₁ =>
    cases b with
    | infinity | notANumber => exact hb.elim
    | zero s₂ => trivial
    | finite s₂ m₂ e₂ h₂ =>
      refine fits_roundWithAccuracy (le_lastKept_mul h₁ h₂ ha.1 hb.1) hq ?_
      rw [halves_exact]
      refine lt_half_step_above ?_
      calc ((m₁ * m₂ : ℕ) * 2 ^ (e₁ + e₂) : ℚ) = (m₁ * 2 ^ e₁) * (m₂ * 2 ^ e₂) := by
            rw [Nat.cast_mul, zpow_add₀ (by norm_num)]
            ring
        _ ≤ 2 ^ p * 2 ^ r :=
            mul_le_mul ha.2 hb.2 (mul_nonneg (Nat.cast_nonneg _) (zpow_pos (by norm_num) _).le)
              (zpow_pos (by norm_num) _).le
        _ = 2 ^ (p + r) := (zpow_add₀ (by norm_num) _ _).symm

/-! ## Division -/

theorem log2_le_log2_div_add (n : ℕ) {d : ℕ} (hd : 0 < d) :
    n.log2 ≤ (n / d).log2 + d.log2 + 1 := by
  rcases Nat.eq_zero_or_pos n with rfl | hn
  · rw [Nat.log2_zero]
    exact Nat.zero_le _
  · have hless : n < 2 ^ ((n / d).log2 + 1 + (d.log2 + 1)) := by
      rw [Nat.pow_add]
      calc n < (n / d + 1) * d := by rw [Nat.mul_comm]; exact Nat.lt_mul_div_succ n hd
        _ ≤ _ := Nat.mul_le_mul Nat.lt_log2_self Nat.lt_log2_self.le
    have hlog := (Nat.log2_lt hn.ne').2 hless
    omega

/-- Half of the last bit is known to be there only where it is. -/
theorem roundBit_accuracyOfFraction (m num den : ℕ) :
    (known m (accuracyOfFraction num den)).roundBit.toNat * den ≤ 2 * num := by
  rw [accuracyOfFraction]
  split
  · exact (Nat.zero_mul den).trans_le (Nat.zero_le _)
  · cases hhalf : compare (2 * num) den with
    | lt => exact (Nat.zero_mul den).trans_le (Nat.zero_le _)
    | eq =>
      rw [Nat.compare_eq_eq] at hhalf
      exact ((Nat.one_mul den).trans hhalf.symm).le
    | gt =>
      rw [Nat.compare_eq_gt] at hhalf
      exact (Nat.one_mul den).trans_le hhalf.le

/-- What is known of a quotient is no more than it. -/
theorem halves_quotient_mul_le (n d : ℕ) :
    halves (known (n / d) (accuracyOfFraction (n % d) d)) * d ≤ 2 * n := by
  have hdiv := Nat.div_add_mod' n d
  have hbit := roundBit_accuracyOfFraction (n / d) (n % d) d
  rw [halves, mantissa_known, Nat.add_mul, Nat.mul_assoc]
  omega

/-- The quotient that is rounded. -/
theorem exists_divCore (m₁ : ℕ) (e₁ : ℤ) (m₂ : ℕ) (e₂ : ℤ) : ∃ k : ℕ,
    divCore Format.binary64 m₁ e₁ m₂ e₂ = (m₁ * 2 ^ k / m₂, e₁ - e₂ - k,
      accuracyOfFraction (m₁ * 2 ^ k % m₂) m₂) ∧
    e₁ - e₂ - k ≤ Max.max (m₁.log2 + e₁ - (m₂.log2 + e₂) - 53) (-1074) := by
  generalize htarget : Min.min (e₁ - e₂)
    (Format.binary64.targetExponent (totalExponent m₁ e₁ - totalExponent m₂ e₂)) = target
  refine ⟨(e₁ - e₂ - target).toNat, ?_, ?_⟩
  · have hexponent : e₁ - e₂ - (e₁ - e₂ - target).toNat = target := by omega
    rw [hexponent, divCore, htarget, Nat.shiftLeft_eq]
  · have hfirst : totalExponent m₁ e₁ = m₁.log2 + 1 + e₁ := rfl
    have hfirst' : totalExponent m₂ e₂ = m₂.log2 + 1 + e₂ := rfl
    rw [targetExponent_eq, hfirst, hfirst'] at htarget
    omega

theorem div_eq (s₁ s₂ : Sign) {m₁ m₂ : ℕ} (e₁ e₂ : ℤ) (h₁ : 0 < m₁) (h₂ : 0 < m₂) :
    UnpackedFloat.div Format.binary64 (.finite s₁ m₁ e₁ h₁) (.finite s₂ m₂ e₂ h₂) =
      roundWithAccuracy Format.binary64 (s₁ / s₂) (divCore Format.binary64 m₁ e₁ m₂ e₂).1
        (divCore Format.binary64 m₁ e₁ m₂ e₂).2.1 (divCore Format.binary64 m₁ e₁ m₂ e₂).2.2 := rfl

/-- **A quotient by no less than one stays below the bound.** -/
theorem fits_div {m₂ : ℕ} {e₂ : ℤ} (s₂ : Sign) (h₂ : 0 < m₂) (ha : Fits q a) (hq : -1022 ≤ q)
    (hone : (1 : ℚ) ≤ m₂ * 2 ^ e₂) :
    Fits q (UnpackedFloat.div Format.binary64 a (.finite s₂ m₂ e₂ h₂)) := by
  cases a with
  | infinity | notANumber => exact ha.elim
  | zero s₁ => trivial
  | finite s₁ m₁ e₁ h₁ =>
    obtain ⟨k, hcore, hbits⟩ := exists_divCore m₁ e₁ m₂ e₂
    have hkept : e₁ - e₂ - k ≤ lastKept (m₁ * 2 ^ k / m₂) (e₁ - e₂ - k) := by
      have hlog := log2_le_log2_div_add (m₁ * 2 ^ k) h₂
      rw [log2_mul_two_pow h₁] at hlog
      rw [lastKept]
      omega
    rw [div_eq, hcore]
    refine fits_roundWithAccuracy hkept hq (lt_half_step_above ?_)
    have hquotient : (halves (known (m₁ * 2 ^ k / m₂)
        (accuracyOfFraction (m₁ * 2 ^ k % m₂) m₂)) * m₂ : ℚ) ≤ 2 * (m₁ * 2 ^ k) := by
      exact_mod_cast halves_quotient_mul_le (m₁ * 2 ^ k) m₂
    have hnonneg := Nat.cast_nonneg (α := ℚ) (halves (known (m₁ * 2 ^ k / m₂)
      (accuracyOfFraction (m₁ * 2 ^ k % m₂) m₂)))
    generalize (halves _ : ℚ) = part at hquotient hnonneg ⊢
    calc part * 2 ^ (e₁ - e₂ - k - 1)
        ≤ part * 2 ^ (e₁ - e₂ - k - 1) * (m₂ * 2 ^ e₂) :=
          le_mul_of_one_le_right (mul_nonneg hnonneg (zpow_pos (by norm_num) _).le) hone
      _ = part * m₂ * 2 ^ (e₁ - k - 1) := by
          have hexponent : e₁ - k - 1 = e₁ - e₂ - k - 1 + e₂ := by ring
          rw [hexponent, zpow_add₀ (by norm_num)]
          ring
      _ ≤ 2 * (m₁ * 2 ^ k) * 2 ^ (e₁ - k - 1) :=
          mul_le_mul_of_nonneg_right hquotient (zpow_pos (by norm_num) _).le
      _ = (m₁ * 2 ^ k : ℕ) * 2 ^ (e₁ - k) := by
          rw [zpow_eq_two_mul (e₁ - k)]
          push_cast
          ring
      _ = m₁ * 2 ^ e₁ := mul_two_pow_mul_zpow m₁ k e₁
      _ ≤ 2 ^ q := ha.2

/-! ## Roots -/

/-- The result has no negative sign, unless it is a zero. -/
def NonNegative : UnpackedFloat → Prop
  | .finite s _ _ _ => s = .positive
  | _ => True

theorem log2_le_two_mul_log2_sqrt (n : ℕ) : n.log2 ≤ 2 * n.sqrt.log2 + 1 := by
  rcases Nat.eq_zero_or_pos n with rfl | hn
  · exact Nat.zero_le _
  · have hless : n < 2 ^ (2 * n.sqrt.log2 + 2) := by
      have hroot : n.sqrt + 1 ≤ 2 ^ (n.sqrt.log2 + 1) := Nat.lt_log2_self
      calc n < (n.sqrt + 1) * (n.sqrt + 1) := Nat.lt_succ_sqrt n
        _ ≤ 2 ^ (n.sqrt.log2 + 1) * 2 ^ (n.sqrt.log2 + 1) := Nat.mul_le_mul hroot hroot
        _ = 2 ^ (2 * n.sqrt.log2 + 2) := by
            rw [← Nat.pow_add]
            congr 1
            omega
    have hlog := (Nat.log2_lt hn.ne').2 hless
    omega

/-- What is known of the bits behind a root. -/
def rootAccuracy (n : ℕ) : Accuracy :=
  if n - n.sqrt * n.sqrt = 0 then .exact
  else .inexact (if n - n.sqrt * n.sqrt ≤ n.sqrt then .lt else .gt)

/-- What is known of a root is no more than it. -/
theorem halves_sqrt_mul_self_le (n : ℕ) :
    halves (known n.sqrt (rootAccuracy n)) * halves (known n.sqrt (rootAccuracy n)) ≤ 4 * n := by
  have hle := Nat.sqrt_le n
  rw [rootAccuracy]
  split
  · have heven : halves (known n.sqrt .exact) = 2 * n.sqrt := rfl
    rw [heven, Nat.mul_mul_mul_comm]
    omega
  · split
    · have heven : halves (known n.sqrt (.inexact .lt)) = 2 * n.sqrt := rfl
      rw [heven, Nat.mul_mul_mul_comm]
      omega
    · have hodd : halves (known n.sqrt (.inexact .gt)) = 2 * n.sqrt + 1 := rfl
      have hsquare : (2 * n.sqrt + 1) * (2 * n.sqrt + 1) =
          4 * (n.sqrt * n.sqrt) + 4 * n.sqrt + 1 := by ring
      rw [hodd, hsquare]
      omega

/-- The root that is rounded. -/
theorem exists_sqrtCore (m : ℕ) (e : ℤ) : ∃ k : ℕ, ∃ t : ℤ, e - k = 2 * t ∧
    sqrtCore Format.binary64 m e = ((m * 2 ^ k).sqrt, t, rootAccuracy (m * 2 ^ k)) ∧
    t ≤ Max.max ((m.log2 + e + 2) / 2 - 53) (-1074) := by
  generalize htarget : Min.min (e / 2)
    (Format.binary64.targetExponent ((totalExponent m e + 1) / 2)) = target
  refine ⟨(e - 2 * target).toNat, target, by omega, ?_, ?_⟩
  · have hcore : sqrtCore Format.binary64 m e = (Nat.sqrt (m <<< (e - 2 * target).toNat), target,
        rootAccuracy (m <<< (e - 2 * target).toNat)) := by
      rw [← htarget]
      rfl
    rw [hcore, Nat.shiftLeft_eq]
  · have hfirst : totalExponent m e = m.log2 + 1 + e := rfl
    rw [targetExponent_eq, hfirst] at htarget
    omega

theorem sqrt_eq (e : ℤ) (h : 0 < m) :
    UnpackedFloat.sqrt Format.binary64 (.finite .positive m e h) =
      roundWithAccuracy Format.binary64 .positive (sqrtCore Format.binary64 m e).1
        (sqrtCore Format.binary64 m e).2.1 (sqrtCore Format.binary64 m e).2.2 := rfl

/-- **A root is bounded by the root of the bound.** -/
theorem fits_sqrt (ha : Fits (2 * q) a) (hsign : NonNegative a) (hq : -1022 ≤ q) :
    Fits q (UnpackedFloat.sqrt Format.binary64 a) := by
  cases a with
  | infinity | notANumber => exact ha.elim
  | zero s => trivial
  | finite s m e h =>
    obtain rfl : s = .positive := hsign
    obtain ⟨k, t, hexponent, hcore, hbits⟩ := exists_sqrtCore m e
    have hkept : t ≤ lastKept (m * 2 ^ k).sqrt t := by
      have hlog := log2_le_two_mul_log2_sqrt (m * 2 ^ k)
      rw [log2_mul_two_pow h] at hlog
      rw [lastKept]
      omega
    rw [sqrt_eq, hcore]
    refine fits_roundWithAccuracy hkept hq (lt_half_step_above ?_)
    have hroot : (halves (known (m * 2 ^ k).sqrt (rootAccuracy (m * 2 ^ k))) *
        halves (known (m * 2 ^ k).sqrt (rootAccuracy (m * 2 ^ k))) : ℚ) ≤ 4 * (m * 2 ^ k : ℕ) := by
      exact_mod_cast halves_sqrt_mul_self_le (m * 2 ^ k)
    have hnonneg := Nat.cast_nonneg (α := ℚ)
      (halves (known (m * 2 ^ k).sqrt (rootAccuracy (m * 2 ^ k))))
    generalize (halves _ : ℚ) = part at hroot hnonneg ⊢
    have hscale : (0 : ℚ) < 2 ^ (t - 1) := zpow_pos (by norm_num) _
    refine (mul_self_le_mul_self_iff (mul_nonneg hnonneg hscale.le)
      (zpow_pos (by norm_num) q).le).2 ?_
    calc part * 2 ^ (t - 1) * (part * 2 ^ (t - 1))
        = part * part * (2 ^ (t - 1) * 2 ^ (t - 1)) := by ring
      _ ≤ 4 * (m * 2 ^ k : ℕ) * (2 ^ (t - 1) * 2 ^ (t - 1)) :=
          mul_le_mul_of_nonneg_right hroot (mul_pos hscale hscale).le
      _ = (m * 2 ^ k : ℕ) * 2 ^ (e - k) := by
          rw [hexponent, two_mul t, zpow_add₀ (by norm_num), zpow_eq_two_mul t]
          ring
      _ = m * 2 ^ e := mul_two_pow_mul_zpow m k e
      _ ≤ 2 ^ (2 * q) := ha.2
      _ = 2 ^ q * 2 ^ q := by rw [two_mul, zpow_add₀ (by norm_num)]

/-! ## Signs -/

theorem nonNegative_signed (m : ℕ) (e : ℤ) : NonNegative (signed .positive m e) := by
  rcases Nat.eq_zero_or_pos m with rfl | hpos
  · trivial
  · rw [signed_of_pos _ _ hpos]
    rfl

theorem nonNegative_roundWithAccuracy (m : ℕ) (e : ℤ) (accuracy : Accuracy) :
    NonNegative (roundWithAccuracy Format.binary64 .positive m e accuracy) :=
  nonNegative_signed _ _

/-- A positive number is rounded with its sign. -/
theorem normalize_natCast {n : ℕ} (hpos : 0 < n) (e : ℤ) (zeroSign : Sign) :
    UnpackedFloat.normalize Format.binary64 n e zeroSign =
      UnpackedFloat.round Format.binary64 .positive n e := by
  rw [UnpackedFloat.normalize]
  split
  · rename_i hlt
    rw [Int.compare_eq_lt] at hlt
    omega
  · rename_i heq
    rw [Int.compare_eq_eq] at heq
    omega
  · rfl

theorem nonNegative_normalize (n : ℕ) (e : ℤ) (zeroSign : Sign) :
    NonNegative (UnpackedFloat.normalize Format.binary64 n e zeroSign) := by
  rcases Nat.eq_zero_or_pos n with rfl | hpos
  · trivial
  · rw [normalize_natCast hpos]
    exact nonNegative_roundWithAccuracy _ _ _

theorem nonNegative_add (ha : NonNegative a) (hb : NonNegative b) (hfits : Fits p a)
    (hfits' : Fits r b) : NonNegative (UnpackedFloat.add Format.binary64 a b) := by
  cases a with
  | infinity | notANumber => exact hfits.elim
  | zero s₁ =>
    cases b with
    | infinity | notANumber => exact hfits'.elim
    | zero s₂ =>
      obtain ⟨s, hzero⟩ := exists_add_zeros s₁ s₂
      rw [hzero]
      trivial
    | finite s₂ m₂ e₂ h₂ => exact hb
  | finite s₁ m₁ e₁ h₁ =>
    cases b with
    | infinity | notANumber => exact hfits'.elim
    | zero s₂ => exact ha
    | finite s₂ m₂ e₂ h₂ =>
      obtain rfl : s₁ = .positive := ha
      obtain rfl : s₂ = .positive := hb
      exact nonNegative_normalize ((decreaseExponent m₁ e₁ (Min.min e₁ e₂)).1 +
        (decreaseExponent m₂ e₂ (Min.min e₁ e₂)).1) _ _

theorem nonNegative_mul_self (hfits : Fits p a) :
    NonNegative (UnpackedFloat.mul Format.binary64 a a) := by
  cases a with
  | infinity | notANumber => exact hfits.elim
  | zero => trivial
  | finite s m e h =>
    have hsign : s * s = .positive := by cases s <;> rfl
    have hmul : UnpackedFloat.mul Format.binary64 (.finite s m e h) (.finite s m e h) =
      roundWithAccuracy Format.binary64 (s * s) (m * m) (e + e) .exact := rfl
    rw [hmul, hsign]
    exact nonNegative_roundWithAccuracy _ _ _

theorem nonNegative_div {m₂ : ℕ} (e₂ : ℤ) (h₂ : 0 < m₂) (ha : NonNegative a) (hfits : Fits p a) :
    NonNegative (UnpackedFloat.div Format.binary64 a (.finite .positive m₂ e₂ h₂)) := by
  cases a with
  | infinity | notANumber => exact hfits.elim
  | zero => trivial
  | finite s m e h =>
    obtain rfl : s = .positive := ha
    exact nonNegative_roundWithAccuracy _ _ _

/-! ## Counts -/

/-- The result is a positive number that is not less than one. -/
def AtLeastOne (u : UnpackedFloat) : Prop :=
  ∃ m e, ∃ h : 0 < m, u = .finite .positive m e h ∧ (1 : ℚ) ≤ m * 2 ^ e

theorem log2_add_nonneg (hpos : 0 < m) (hone : (1 : ℚ) ≤ m * 2 ^ e) : 0 ≤ m.log2 + e := by
  have hless : (1 : ℚ) < 2 ^ (m.log2 + 1 + e : ℤ) := by
    rw [zpow_add₀ (by norm_num)]
    exact lt_of_le_of_lt hone
      (mul_lt_mul_of_pos_right (log2_bounds hpos).2 (zpow_pos (by norm_num) _))
  have hexponent := (one_lt_zpow_iff_right₀ (show (1 : ℚ) < 2 by norm_num)).1 hless
  omega

theorem atLeastOne_roundWithAccuracy (hkept : e ≤ lastKept m e) (hpos : 0 < m)
    (hone : (1 : ℚ) ≤ m * 2 ^ e) :
    AtLeastOne (roundWithAccuracy Format.binary64 .positive m e .exact) := by
  obtain ⟨M, E, h, hround, hle⟩ := exists_roundWithAccuracy_of_le .positive .exact hkept
    (q := 0) (by norm_num) (log2_add_nonneg hpos hone) hpos
  rw [zpow_zero] at hle
  exact ⟨M, E, h, hround, hle⟩

theorem atLeastOne_mul {u v : UnpackedFloat} (hu : AtLeastOne u) (hv : AtLeastOne v)
    (hfits : Fits p u) (hfits' : Fits r v) :
    AtLeastOne (UnpackedFloat.mul Format.binary64 u v) := by
  obtain ⟨m, e, h, rfl, hone⟩ := hu
  obtain ⟨m', e', h', rfl, hone'⟩ := hv
  refine atLeastOne_roundWithAccuracy (le_lastKept_mul h h' hfits.1 hfits'.1) (Nat.mul_pos h h') ?_
  calc (1 : ℚ) ≤ (m * 2 ^ e) * (m' * 2 ^ e') := one_le_mul_of_one_le_of_one_le hone hone'
    _ = (m * m' : ℕ) * 2 ^ (e + e') := by
        rw [Nat.cast_mul, zpow_add₀ (by norm_num)]
        ring

/-- **A count is rounded to no less than one**, and stays below powers of two. -/
theorem ofNat_spec {n : ℕ} (hpos : 0 < n) (hq : -1022 ≤ q) (hle : (n : ℚ) ≤ 2 ^ q) :
    AtLeastOne (UnpackedFloat.ofNat Format.binary64 n) ∧
      Fits q (UnpackedFloat.ofNat Format.binary64 n) := by
  have hone : (1 : ℚ) ≤ n := by exact_mod_cast hpos
  have hround : UnpackedFloat.ofNat Format.binary64 n =
    UnpackedFloat.round Format.binary64 .positive n 0 := normalize_natCast hpos 0 .positive
  rw [hround]
  refine ⟨?_, fits_round hpos hq (lt_half_step_above ?_)⟩
  · rw [round_eq]
    refine atLeastOne_roundWithAccuracy ?_ (Nat.mul_pos hpos (Nat.two_pow_pos _)) ?_
    · rw [lastKept_mul_two_pow hpos]
      omega
    · rwa [mul_two_pow_mul_zpow, zpow_zero, mul_one]
  · rwa [zpow_zero, mul_one]

/-- A large count is rounded from a significand of bits enough. -/
theorem ofScientific_eq {n : ℕ} (hpos : 0 < n) : UnpackedFloat.ofScientific Format.binary64 n 0 =
    roundWithAccuracy Format.binary64 .positive (n * 2 ^ 53) (0 - (53 : ℕ)) .exact := by
  have hsmall : ¬ (0 : ℤ) < -((2 ^ Format.binary64.exponentBits : ℤ) + n.log2) := by
    show ¬ (0 : ℤ) < -(2048 + n.log2)
    omega
  have hshift : n <<< Format.binary64.mantissaBits * 10 ^ (0 : ℤ).toNat = n * 2 ^ 53 := by
    rw [Nat.shiftLeft_eq]
    exact Nat.mul_one _
  rw [UnpackedFloat.ofScientific, dif_neg hpos.ne', if_neg (by decide), if_neg hsmall,
    if_pos le_rfl, ← hshift]
  rfl

theorem ofScientific_spec {n : ℕ} (hpos : 0 < n) (hq : -1022 ≤ q) (hle : (n : ℚ) ≤ 2 ^ q) :
    AtLeastOne (UnpackedFloat.ofScientific Format.binary64 n 0) ∧
      Fits q (UnpackedFloat.ofScientific Format.binary64 n 0) := by
  have hone : (1 : ℚ) ≤ n := by exact_mod_cast hpos
  have hvalue := mul_two_pow_mul_zpow n 53 0
  rw [zpow_zero, mul_one] at hvalue
  have hkept : 0 - (53 : ℕ) ≤ lastKept (n * 2 ^ 53) (0 - (53 : ℕ)) := by
    rw [lastKept_mul_two_pow hpos, lastKept]
    omega
  rw [ofScientific_eq hpos]
  refine ⟨atLeastOne_roundWithAccuracy hkept (Nat.mul_pos hpos (Nat.two_pow_pos _)) ?_,
    fits_roundWithAccuracy hkept hq (lt_half_step_above ?_)⟩
  · rwa [hvalue]
  · rwa [halves_exact, hvalue]

end Screening.Binary64
