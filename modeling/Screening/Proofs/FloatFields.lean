import Screening.Proofs.NearestDouble

/-!
# Operands and results of arithmetic

Arithmetic takes numbers apart into sign, significand and exponent, and puts the outcome into a word
again.  Here both are set against the fields of a number: an operand is unpacked into what the value
is made of, and a result that has the form of a stored number is unpacked as it was packed.

* `Binary64.unpacked`, `Binary64.unpacked_of_isFinite` — what arithmetic sees of a number.
* `Binary64.ofUnpacked`, `Binary64.unpacked_ofUnpacked` — what is kept of a result.
* `Binary64.Fits` — a result is a finite number of a bounded absolute value.
* `Binary64.fits_unpacked_iff` — as operands, these are the finite numbers of such a value.
-/

set_option autoImplicit false

namespace Screening.Binary64

-- Powers of natural numbers are those of core here, whatever other power is in scope.
attribute [local instance (2000)] instPowNat

open Float.Model (Format UnpackedFloat)
open Float.Model.UnpackedFloat

variable {x : Binary64} {s : Sign} {m : ℕ} {e q : ℤ}

/-! ## Unpacking -/

/-- The sign, significand and exponent that arithmetic works with. -/
def unpacked (x : Binary64) : UnpackedFloat := unpack Format.binary64 x.bits.toBitVec

/-- The sign bit as arithmetic takes it. -/
def sign (x : Binary64) : Sign := .ofBitVec (@unpackSign Format.binary64 x.bits.toBitVec)

/-- The eleven exponent bits. -/
def exponentBits (x : Binary64) : BitVec 11 := @unpackExponent Format.binary64 x.bits.toBitVec

/-- The fifty-two fraction bits. -/
def fractionBits (x : Binary64) : BitVec 52 := @unpackMantissa Format.binary64 x.bits.toBitVec

theorem toNat_pos_of_ne {n : ℕ} {v : BitVec n} (h : v ≠ 0#n) : 0 < v.toNat := by
  rw [Nat.pos_iff_ne_zero]
  exact fun hzero => h (BitVec.toNat_inj.1 (by simpa using hzero))

theorem toNat_append_one {n : ℕ} (v : BitVec n) : (1#1 ++ v).toNat = v.toNat + 2 ^ n := by
  rw [BitVec.toNat_append, ← Nat.shiftLeft_add_eq_or_of_lt v.isLt, Nat.shiftLeft_eq]
  simp [Nat.add_comm]

/-- What arithmetic makes of the fields. -/
theorem unpacked_eq (x : Binary64) : x.unpacked =
    if x.exponentBits = -1#11 then
      if x.fractionBits = 0#52 then .infinity x.sign else .notANumber
    else if x.exponentBits = 0#11 then
      if h : x.fractionBits = 0#52 then .zero x.sign
      else .finite x.sign x.fractionBits.toNat (x.exponentBits.toNat - 1075 + 1) (toNat_pos_of_ne h)
    else .finite x.sign (1#1 ++ x.fractionBits).toNat (x.exponentBits.toNat - 1075)
      (by rw [toNat_append_one]; omega) := rfl

theorem toNat_exponentBits (x : Binary64) : x.exponentBits.toNat = x.biasedExponent := by
  have hfields : x.exponentBits.toNat = (x.bits.toNat >>> 52) % 2 ^ 11 := rfl
  rw [hfields, Nat.shiftRight_eq_div_pow, biasedExponent, unsignedBits, signWeight, exponentWeight]
  omega

theorem toNat_fractionBits (x : Binary64) : x.fractionBits.toNat = x.fraction := rfl

theorem exponentBits_eq_iff {v : BitVec 11} :
    x.exponentBits = v ↔ x.biasedExponent = v.toNat := by
  rw [← toNat_exponentBits, BitVec.toNat_inj]

theorem fractionBits_eq_zero_iff : x.fractionBits = 0#52 ↔ x.fraction = 0 := by
  rw [← toNat_fractionBits, ← BitVec.toNat_inj]
  rfl

theorem isFinite_iff : x.isFinite = true ↔ x.exponentBits ≠ -1#11 := by
  rw [isFinite, bne_iff_ne, Ne, Ne, exponentBits_eq_iff]
  rfl

/-- A result of the given sign, significand and exponent, which is a zero if the significand is. -/
def signed (s : Sign) (m : ℕ) (e : ℤ) : UnpackedFloat :=
  if h : m = 0 then .zero s else .finite s m e (Nat.pos_of_ne_zero h)

theorem signed_zero (s : Sign) (e : ℤ) : signed s 0 e = .zero s := rfl

theorem signed_of_pos (s : Sign) (e : ℤ) (hpos : 0 < m) : signed s m e = .finite s m e hpos :=
  dif_neg hpos.ne'

/-- **A finite number is unpacked into its significand and its exponent.** -/
theorem unpacked_of_isFinite (hfinite : x.isFinite = true) :
    x.unpacked = signed x.sign x.significand x.exponent := by
  rw [unpacked_eq, if_neg (isFinite_iff.1 hfinite), significand, exponent, Nat.max_eq_max]
  by_cases hexponent : x.biasedExponent = 0
  · rw [if_pos (exponentBits_eq_iff.2 hexponent), if_pos hexponent, hexponent]
    by_cases hfraction : x.fraction = 0
    · rw [dif_pos (fractionBits_eq_zero_iff.2 hfraction), hfraction, signed_zero]
    · have hfields : (x.exponentBits.toNat : ℤ) - 1075 + 1 = (Max.max 1 0 : ℕ) - 1075 := by
        rw [toNat_exponentBits, hexponent]
        rfl
      rw [dif_neg (mt fractionBits_eq_zero_iff.1 hfraction), ← signed_of_pos, hfields]
      rfl
  · have hfields : (x.exponentBits.toNat : ℤ) - 1075 = (Max.max 1 x.biasedExponent : ℕ) - 1075 := by
      rw [toNat_exponentBits]
      omega
    rw [if_neg (mt exponentBits_eq_iff.1 hexponent), if_neg hexponent, ← signed_of_pos,
      toNat_append_one, hfields]
    rfl

/-! ## Packing -/

/-- The number that arithmetic makes of a result. -/
def ofUnpacked (u : UnpackedFloat) : Binary64 := ⟨UInt64.ofBitVec (pack Format.binary64 u)⟩

/-- The number of the given fields. -/
def ofFields (s : Sign) (exponent : BitVec 11) (fraction : BitVec 52) : Binary64 :=
  ⟨UInt64.ofBitVec (packComponents Format.binary64 s exponent fraction)⟩

theorem exponentBits_ofFields (s : Sign) (exponent : BitVec 11) (fraction : BitVec 52) :
    (ofFields s exponent fraction).exponentBits = exponent :=
  unpackExponent_packComponents

theorem fractionBits_ofFields (s : Sign) (exponent : BitVec 11) (fraction : BitVec 52) :
    (ofFields s exponent fraction).fractionBits = fraction :=
  unpackMantissa_packComponents

theorem sign_ofFields (s : Sign) (exponent : BitVec 11) (fraction : BitVec 52) :
    (ofFields s exponent fraction).sign = s := by
  have hword : (ofFields s exponent fraction).sign =
      .ofBitVec ((s.toBitVec ++ exponent ++ fraction).extractLsb' 63 1) := rfl
  have hbit : (s.toBitVec ++ exponent ++ fraction).extractLsb' 63 1 = s.toBitVec := by
    rw [BitVec.extractLsb'_append_eq_of_le (by decide),
      BitVec.extractLsb'_append_eq_of_le (by decide)]
    exact BitVec.extractLsb'_eq_self
  rw [hword, hbit]
  cases s <;> rfl

/-- Where the last bit is that is kept of a significand with an exponent: fifty-two bits behind the
first one, but never behind the last bit of the smallest number. -/
def lastKept (m : ℕ) (e : ℤ) : ℤ := Max.max (m.log2 + e - 52) (-1074)

/-- The last bit of the significand is the last one that is kept. -/
def Stored (m : ℕ) (e : ℤ) : Prop := lastKept m e = e

/-- How a result is packed: too large an exponent makes it infinite, and a significand that is too
short is stored without an exponent. -/
theorem ofUnpacked_eq (s : Sign) (e : ℤ) (hpos : 0 < m) : ofUnpacked (.finite s m e hpos) =
    if 2048 ≤ (e + 1023 + 52).toNat + 1 then ofFields s (-1#11) 0#52
    else if m.log2 + 1 = 53 then ofFields s (.ofNat 11 (e + 1023 + 52).toNat) (.ofNat 52 m)
    else ofFields s 0#11 (.ofNat 52 m) := by
  have hpacked : ofUnpacked (.finite s m e hpos) =
      ⟨.ofBitVec (if 2048 ≤ (e + 1023 + 52).toNat + 1 then
        packComponents Format.binary64 s (-1#11) 0#52
      else if m.log2 + 1 = 53 then
        packComponents Format.binary64 s (.ofNat 11 (e + 1023 + 52).toNat) (.ofNat 52 m)
      else packComponents Format.binary64 s 0#11 (.ofNat 52 m))⟩ := rfl
  rw [hpacked]
  split
  · rfl
  · split <;> rfl

/-- What is packed of a stored number. -/
theorem ofUnpacked_finite (hpos : 0 < m) (hle : e ≤ 971) :
    ofUnpacked (.finite s m e hpos) = ofFields s
      (.ofNat 11 (if m.log2 = 52 then (e + 1075).toNat else 0)) (.ofNat 52 m) := by
  have hbiased : e + 1023 + 52 = e + 1075 := by ring
  rw [ofUnpacked_eq, hbiased, if_neg (by omega)]
  by_cases hlog : m.log2 = 52
  · rw [if_pos (by omega), if_pos hlog]
  · rw [if_neg (by omega), if_neg hlog]

theorem fields_ofUnpacked (hpos : 0 < m) (hstored : Stored m e) (hle : e ≤ 971) :
    (ofUnpacked (.finite s m e hpos)).isFinite = true ∧
      (ofUnpacked (.finite s m e hpos)).sign = s ∧
      (ofUnpacked (.finite s m e hpos)).significand = m ∧
      (ofUnpacked (.finite s m e hpos)).exponent = e := by
  have hlow := Nat.log2_self_le hpos.ne'
  have hhigh := Nat.lt_log2_self (n := m)
  rw [ofUnpacked_finite hpos hle]
  rw [Stored, lastKept] at hstored
  generalize hx : ofFields s _ _ = x
  have hexponent : x.biasedExponent = if m.log2 = 52 then (e + 1075).toNat else 0 := by
    rw [← toNat_exponentBits, ← hx, exponentBits_ofFields, BitVec.toNat_ofNat, Nat.mod_eq_of_lt]
    split <;> omega
  have hfraction : x.fraction = m % 2 ^ 52 := by
    rw [← toNat_fractionBits, ← hx, fractionBits_ofFields, BitVec.toNat_ofNat]
  refine ⟨?_, hx ▸ sign_ofFields s _ _, ?_, ?_⟩
  · rw [isFinite, bne_iff_ne, hexponent]
    split <;> omega
  · rw [significand, hexponent, hfraction, exponentWeight]
    by_cases hlog : m.log2 = 52
    · rw [hlog] at hlow hhigh
      rw [if_pos hlog, if_neg (by omega)]
      omega
    · have hless : m < 2 ^ 52 := (Nat.log2_lt hpos.ne').1 (by omega)
      rw [if_neg hlog, if_pos rfl, Nat.mod_eq_of_lt hless]
  · rw [exponent, hexponent, Nat.max_eq_max]
    split <;> omega

/-- **What was stored is unpacked again**, below the range of the infinities. -/
theorem unpacked_ofUnpacked (hpos : 0 < m) (hstored : Stored m e) (hle : e ≤ 971) :
    (ofUnpacked (.finite s m e hpos)).unpacked = .finite s m e hpos := by
  obtain ⟨hfinite, hsign, hsignificand, hexponent⟩ := fields_ofUnpacked (s := s) hpos hstored hle
  rw [unpacked_of_isFinite hfinite, hsign, hsignificand, hexponent, signed_of_pos]

theorem unpacked_ofUnpacked_zero (s : Sign) : (ofUnpacked (.zero s)).unpacked = .zero s := by
  have hpacked : ofUnpacked (.zero s) = ofFields s 0#11 0#52 := rfl
  have hall : (ofFields s 0#11 0#52).exponentBits ≠ -1#11 := by
    rw [exponentBits_ofFields]
    decide
  rw [hpacked, unpacked_eq, if_neg hall, if_pos (exponentBits_ofFields s _ _),
    dif_pos (fractionBits_ofFields s _ _), sign_ofFields]

/-! ## Bounded results -/

/-- A result is a zero, or a number that can be stored unless it is too large, and its absolute
value is no more than a power of two. -/
def Fits (q : ℤ) : UnpackedFloat → Prop
  | .zero _ => True
  | .finite _ m e _ => Stored m e ∧ (m * 2 ^ e : ℚ) ≤ 2 ^ q
  | _ => False

theorem Fits.mono {u : UnpackedFloat} {p : ℤ} (h : Fits p u) (hle : p ≤ q) : Fits q u := by
  cases u with
  | zero => trivial
  | finite => exact ⟨h.1, h.2.trans (zpow_le_zpow_right₀ (by norm_num) hle)⟩
  | _ => exact h

theorem stored_significand (hpos : 0 < x.significand) : Stored x.significand x.exponent := by
  have hfraction := x.fraction_lt
  have hweight : exponentWeight = 2 ^ 52 := rfl
  rw [Stored, lastKept, exponent, Nat.max_eq_max]
  by_cases hexponent : x.biasedExponent = 0
  · have hlog : x.significand.log2 < 52 := by
      rw [Nat.log2_lt hpos.ne', significand, if_pos hexponent]
      omega
    omega
  · have hlog : x.significand.log2 = 52 := by
      rw [Nat.log2_eq_iff hpos.ne', significand, if_neg hexponent]
      omega
    omega

/-- **The operands that are bounded are the finite numbers of such a value.** -/
theorem fits_unpacked_iff : Fits q x.unpacked ↔ x.isFinite = true ∧ |x.value| ≤ 2 ^ q := by
  by_cases hfinite : x.isFinite = true
  · rw [unpacked_of_isFinite hfinite, abs_value, and_iff_right hfinite]
    rcases Nat.eq_zero_or_pos x.significand with hzero | hpos
    · rw [hzero, signed_zero, Nat.cast_zero, zero_mul]
      exact iff_of_true trivial (zpow_pos (by norm_num) q).le
    · rw [signed_of_pos _ _ hpos]
      exact and_iff_right (stored_significand hpos)
  · have hall : x.exponentBits = -1#11 := not_not.1 (mt isFinite_iff.2 hfinite)
    refine iff_of_false ?_ fun h => hfinite h.1
    rw [unpacked_eq, if_pos hall]
    by_cases hfraction : x.fractionBits = 0#52
    · rw [if_pos hfraction]
      exact id
    · rw [if_neg hfraction]
      exact id

/-- The first bit of a significand is worth no more than all of it. -/
theorem two_zpow_log2_add_le (hpos : 0 < m) (e : ℤ) : (2 : ℚ) ^ (m.log2 + e : ℤ) ≤ m * 2 ^ e := by
  rw [zpow_add₀ (by norm_num)]
  exact mul_le_mul_of_nonneg_right (log2_bounds hpos).1 (zpow_pos (by norm_num) e).le

/-- **A bounded result is kept.** -/
theorem unpacked_ofUnpacked_of_fits {u : UnpackedFloat} (h : Fits q u) (hq : q ≤ 1023) :
    (ofUnpacked u).unpacked = u := by
  cases u with
  | zero s => exact unpacked_ofUnpacked_zero s
  | finite s m e hpos =>
    have hlog : (m.log2 + e : ℤ) ≤ q :=
      (zpow_le_zpow_iff_right₀ (show (1 : ℚ) < 2 by norm_num)).1
        ((two_zpow_log2_add_le hpos e).trans h.2)
    have hstored := h.1
    rw [Stored, lastKept] at hstored
    exact unpacked_ofUnpacked hpos h.1 (by omega)
  | _ => exact h.elim

end Screening.Binary64
