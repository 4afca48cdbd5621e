import Mathlib.Data.List.DropRight
import Screening.Json.Form
import Screening.Proofs.JsonText

/-!
# Numbers that are written and read back

* `natBelow_ofNat` — a count is read back from its digits.
* `ReadsBack x` — reading the text that is written for a double gives that double.
* `wellFormed_ofBinary64` — the text of such a double follows the grammar of numbers, so that it is
  read in the same way wherever it stands.

The shortest decimal of a double is found by a search.  Where the search finds one, its digits make
a literal; where it does not, there is nothing but a point behind the zero, and the text is not read
back at all.
-/

set_option autoImplicit false

namespace Screening

-- Powers of natural numbers are those of core here, whatever other power is in scope.
attribute [local instance (2000)] instPowNat

namespace Decimal

/-! ## Digits -/

theorem isDigit_digitChar : ∀ d < 10, (Nat.digitChar d).isDigit = true := by decide

theorem toNat_digitChar : ∀ d < 10, (Nat.digitChar d).toNat - '0'.toNat = d := by decide

theorem digitChar_ne_zero : ∀ d < 10, 0 < d → Nat.digitChar d ≠ '0' := by decide

/-- The first of some digits. -/
theorem fixedDigits_succ (width n : Nat) :
    fixedDigits (width + 1) n = Nat.digitChar (n / 10 ^ width % 10) :: fixedDigits width n := by
  induction width generalizing n with
  | zero => simp [fixedDigits]
  | succ width ih =>
    rw [fixedDigits, ih, fixedDigits, Nat.div_div_eq_div_mul, ← Nat.pow_succ']
    rfl

theorem isDigit_of_mem_fixedDigits {width n : Nat} {c : Char} (h : c ∈ fixedDigits width n) :
    c.isDigit = true := by
  induction width with
  | zero => simp [fixedDigits] at h
  | succ width ih =>
    rw [fixedDigits_succ, List.mem_cons] at h
    rcases h with rfl | h
    · exact isDigit_digitChar _ (Nat.mod_lt _ (by decide))
    · exact ih h

theorem isDigits_digitsAtLeast {least : Nat} (h : 0 < least) (n : Nat) :
    IsDigits (digitsAtLeast least n) := by
  refine ⟨?_, fun c hc => isDigit_of_mem_fixedDigits hc⟩
  rw [← List.length_pos_iff, digitsAtLeast, length_fixedDigits]
  exact Nat.lt_of_lt_of_le h (Nat.le_max_left _ _)

theorem isDigits_digits (n : Nat) : IsDigits (digits n) := isDigits_digitsAtLeast Nat.one_pos n

theorem digits_zero : digits 0 = ['0'] := by
  rw [digits, digitsAtLeast, digitCount_zero]
  rfl

/-- The digits of a number other than zero begin with a digit other than zero. -/
theorem head?_digits_ne {n : Nat} (h : 0 < n) : (digits n).head? ≠ some '0' := by
  obtain ⟨width, hwidth⟩ : ∃ width, digitCount n = width + 1 := ⟨_, digitCount_of_pos h⟩
  have hdigits : digits n = fixedDigits (width + 1) n := by
    rw [digits, digitsAtLeast, hwidth, Nat.max_eq_max, Nat.max_eq_right (by omega)]
  have hlow : 0 < n / 10 ^ width :=
    Nat.div_pos (pow_le_iff.2 (by omega)) (Nat.pow_pos (by decide))
  have hhigh : n / 10 ^ width < 10 := by
    rw [Nat.div_lt_iff_lt_mul (Nat.pow_pos (by decide)), ← Nat.pow_succ', lt_pow_iff]
    omega
  rw [hdigits, fixedDigits_succ, List.head?_cons, Nat.mod_eq_of_lt hhigh, ne_eq, Option.some.injEq]
  exact digitChar_ne_zero _ hhigh hlow

/-- A zero in front stands alone. -/
theorem leading_digits (n : Nat) :
    ¬ ((digits n).head? = some '0' ∧ 1 < (digits n).length) := by
  rintro ⟨hhead, hlength⟩
  rcases Nat.eq_zero_or_pos n with rfl | h
  · simp [digits_zero] at hlength
  · exact head?_digits_ne h hhead

theorem natOfDigits_fixedDigits (width n : Nat) :
    Json.natOfDigits (fixedDigits width n) = n % 10 ^ width := by
  induction width generalizing n with
  | zero => simp [fixedDigits, Json.natOfDigits, Nat.mod_one]
  | succ width ih =>
    have hlast : (Nat.digitChar (n % 10)).toNat - '0'.toNat = n % 10 :=
      toNat_digitChar _ (Nat.mod_lt _ (by decide))
    have hfront := ih (n / 10)
    rw [Json.natOfDigits] at hfront
    rw [fixedDigits, Json.natOfDigits, List.foldl_append, hfront, List.foldl_cons, List.foldl_nil,
      hlast, Nat.pow_succ', Nat.mod_mul, Nat.add_comm]

/-- The digits of a number spell that number, whatever zeros stand in front. -/
theorem natOfDigits_digitsAtLeast (least n : Nat) :
    Json.natOfDigits (digitsAtLeast least n) = n := by
  rw [digitsAtLeast, natOfDigits_fixedDigits, Nat.mod_eq_of_lt]
  exact lt_pow_iff.2 (Nat.le_max_right _ _)

theorem natOfDigits_digits (n : Nat) : Json.natOfDigits (digits n) = n :=
  natOfDigits_digitsAtLeast 1 n

end Decimal

namespace Json

open Decimal

/-! ## Counts -/

theorem wellFormed_ofNat (n : Nat) : (ofNat n).WellFormed :=
  .number ⟨isDigits_digits n, leading_digits n, by simp, by simp⟩

/-- A count below a bound is read from every literal of it. -/
theorem natBelow_number {bound n : Nat} {literal : NumberLiteral}
    (hspells : literal.toInt? = some (n : Int)) (h : n < bound) :
    natBelow bound (.number literal) = .ok n := by
  simp [natBelow, hspells, h]

/-- What is read as a count is a literal of it. -/
theorem number_of_natBelow {bound n : Nat} {v : Json} (h : natBelow bound v = .ok n) :
    ∃ literal : NumberLiteral, v = .number literal ∧ literal.toInt? = some (n : Int) := by
  rcases v with _ | _ | literal | _ | _ | _
  case number =>
    rw [natBelow] at h
    split at h
    · rename_i k hk
      split at h
      · rename_i hin
        cases h
        exact ⟨literal, rfl, by rw [hk, Int.toNat_of_nonneg hin.1]⟩
      · cases h
    · cases h
  all_goals cases h

theorem toInt?_digits (n : Nat) :
    NumberLiteral.toInt? ⟨false, digits n, none, none⟩ = some (n : Int) := by
  simp [NumberLiteral.toInt?, NumberLiteral.isWhole, natOfDigits_digits]

/-- **A count is read back from its digits.** -/
theorem natBelow_ofNat {bound n : Nat} (h : n < bound) : natBelow bound (ofNat n) = .ok n :=
  natBelow_number (toInt?_digits n) h

/-! ## Literals of digits -/

theorem isDigits_replicate_append (count : Nat) {run : List Char} (h : IsDigits run) :
    IsDigits (List.replicate count '0' ++ run) := by
  refine ⟨by simp [h.1], fun c hc => ?_⟩
  rcases List.mem_append.1 hc with hc | hc
  · rw [List.eq_of_mem_replicate hc]
    rfl
  · exact h.2 c hc

theorem isDigits_zero : IsDigits ['0'] := ⟨by simp, by simp⟩

/-- What is left of digits behind a place, or a zero where nothing is. -/
theorem isDigits_drop (count : Nat) {run : List Char} (h : ∀ c ∈ run, c.isDigit = true) :
    IsDigits (if (run.drop count).isEmpty then ['0'] else run.drop count) := by
  split
  · exact isDigits_zero
  · rename_i hne
    exact ⟨by simpa using hne, fun c hc => h c (List.mem_of_mem_drop hc)⟩

/-- A literal without an exponent follows the grammar if its digits begin with no zero. -/
theorem wellFormed_positionalLiteral (negative : Bool) {run : List Char} (hrun : IsDigits run)
    (hhead : run.head? ≠ some '0') (exponent : Int) :
    (positionalLiteral negative run exponent).WellFormed := by
  rw [positionalLiteral]
  split
  · refine ⟨isDigits_zero, by simp, ?_, by simp⟩
    rintro _ ⟨⟩
    exact isDigits_replicate_append _ hrun
  · obtain ⟨c, rest, rfl⟩ := List.exists_cons_of_ne_nil hrun.1
    refine ⟨⟨by simp, fun d hd => ?_⟩, ?_, ?_, by simp⟩
    · rcases List.mem_append.1 hd with hd | hd
      · exact hrun.2 d (List.mem_of_mem_take hd)
      · rw [List.eq_of_mem_replicate hd]
        rfl
    · rintro ⟨hzero, -⟩
      exact hhead (by simpa using hzero)
    · rintro _ ⟨⟩
      exact isDigits_drop _ hrun.2

/-- So does a literal with an exponent. -/
theorem wellFormed_exponentLiteral (negative : Bool) {run : List Char} (hrun : IsDigits run)
    (exponent : Int) : (exponentLiteral negative run exponent).WellFormed := by
  obtain ⟨c, rest, rfl⟩ := List.exists_cons_of_ne_nil hrun.1
  refine ⟨⟨by simp [exponentLiteral], ?_⟩, by simp [exponentLiteral], fun run hmore => ?_, ?_⟩
  · intro d hd
    exact hrun.2 d (List.mem_of_mem_take hd)
  · simp only [exponentLiteral, List.drop_one, List.tail_cons, Option.mem_def,
      Option.ite_none_left_eq_some, Option.some.injEq] at hmore
    obtain ⟨hne, rfl⟩ := hmore
    exact ⟨by simpa using hne, fun d hd => hrun.2 d (List.mem_cons_of_mem c hd)⟩
  · rintro _ ⟨⟩
    exact isDigits_digits _

/-- So does the one of the two that is chosen. -/
theorem wellFormed_literal (negative : Bool) {run : List Char} (hrun : IsDigits run)
    (hhead : run.head? ≠ some '0') (exponent : Int) :
    (if positional exponent then positionalLiteral negative run exponent
      else exponentLiteral negative run exponent).WellFormed := by
  split
  · exact wellFormed_positionalLiteral negative hrun hhead exponent
  · exact wellFormed_exponentLiteral negative hrun exponent

end Json

/-! ## Shortest decimals -/

namespace RoundingInterval

variable {i : RoundingInterval}

theorem pos_of_contains (hlow : 0 < i.low) {k : Nat} (h : i.contains k = true) : 0 < k := by
  have hle : i.low ≤ k * i.den := by
    rw [contains] at h
    split at h <;> simp only [Bool.and_eq_true, decide_eq_true_eq] at h
    · exact h.1
    · exact h.1.le
  exact Nat.pos_of_mul_pos_right (hlow.trans_le hle)

/-- Rounding a quotient takes none of it away. -/
theorem div_le_roundDiv (num den : Nat) : num / den ≤ roundDiv num den := by
  rw [roundDiv]
  split
  · exact Nat.le_refl _
  · split
    · exact Nat.le_succ _
    · exact Nat.le_add_right _ _

theorem pos_of_nearest? (hlow : 0 < i.low) {k : Nat} (h : i.nearest? = some k) : 0 < k := by
  rw [nearest?] at h
  split at h
  · rename_i hbelow _
    obtain rfl := Option.some.inj h
    exact (pos_of_contains hlow hbelow).trans_le (div_le_roundDiv _ _)
  · rename_i hbelow _
    obtain rfl := Option.some.inj h
    exact pos_of_contains hlow hbelow
  · obtain rfl := Option.some.inj h
    exact Nat.succ_pos _
  · simp at h

end RoundingInterval

namespace Binary64

variable {x : Binary64}

theorem significand_pos (h : x.isZero = false) : 0 < x.significand := by
  simp only [isZero, beq_eq_false_iff_ne, unsignedBits, signWeight] at h
  rw [significand, biasedExponent, unsignedBits, fraction, signWeight, exponentWeight]
  split <;> omega

/-- Only numbers above zero round to a number other than zero. -/
theorem interval_low_pos (h : x.isZero = false) : 0 < x.interval.low := by
  have hpos := significand_pos h
  have hpower : 0 < (powerOfTwo (x.exponent - 2)).1 := Nat.two_pow_pos _
  simp only [interval]
  refine Nat.mul_pos ?_ hpower
  split <;> omega

end Binary64

namespace Decimal

/-- The search for the shortest decimal finds a number above zero, or nothing. -/
theorem shortest_cases {x : Binary64} (h : x.isZero = false) :
    shortest x = (0, 0) ∨ 0 < (shortest x).1 := by
  rw [shortest]
  cases hfound : (List.range maxDigits).findSome? fun n => ofDigitCount? x.interval (n + 1) with
  | none => exact .inl rfl
  | some found =>
    right
    obtain ⟨count, -, hcount⟩ := List.exists_of_findSome?_eq_some hfound
    simp only [ofDigitCount?, Option.map_eq_some_iff] at hcount
    obtain ⟨k, hk, rfl⟩ := hcount
    refine RoundingInterval.pos_of_nearest? ?_ hk
    exact Nat.mul_pos (Binary64.interval_low_pos h) (Nat.pow_pos (by decide))

theorem trimZeros_eq_rdropWhile (text : List Char) :
    trimZeros text = text.rdropWhile (· == '0') := rfl

/-- Zeros behind the last other digit can be left out: there is another digit. -/
theorem trimZeros_digits {k : Nat} (h : 0 < k) :
    IsDigits (trimZeros (digits k)) ∧ (trimZeros (digits k)).head? ≠ some '0' := by
  obtain ⟨hne, hdigits⟩ := isDigits_digits k
  have hfront : trimZeros (digits k) <+: digits k := List.rdropWhile_prefix _ _
  have hleft : trimZeros (digits k) ≠ [] := by
    rw [trimZeros_eq_rdropWhile, ne_eq, List.rdropWhile_eq_nil_iff]
    intro hzeros
    obtain ⟨c, rest, hc⟩ := List.exists_cons_of_ne_nil hne
    have hzero : c = '0' := by simpa using hzeros c (hc ▸ List.mem_cons_self)
    exact head?_digits_ne h (by rw [hc, hzero]; rfl)
  refine ⟨⟨hleft, fun c hc => hdigits c (hfront.subset hc)⟩, ?_⟩
  obtain ⟨c, rest, hc⟩ := List.exists_cons_of_ne_nil hleft
  obtain ⟨zeros, hzeros⟩ := hfront
  have hhead := head?_digits_ne h
  rw [← hzeros, hc] at hhead
  rwa [hc]

end Decimal

namespace Json

open Decimal

/-! ## Doubles -/

/-- Reading the text that is written for a double gives the double. -/
def ReadsBack (x : Binary64) : Prop := read Binary64 (compact (ofBinary64 x)) = .ok x

instance (x : Binary64) : Decidable (ReadsBack x) :=
  inferInstanceAs (Decidable (read Binary64 (compact (ofBinary64 x)) = .ok x))

/-- A point without a digit behind it is no number. -/
theorem parse_compact_pointless (negative : Bool) :
    parse (compact (.number ⟨negative, ['0'], some [], none⟩)) = none := by
  cases negative <;> rfl

/-- The literal that is written for a finite double follows the grammar, or there is no digit behind
its point. -/
theorem literalOfBinary64_cases (x : Binary64) :
    (literalOfBinary64 x).WellFormed ∨
      literalOfBinary64 x = ⟨x.isNegative, ['0'], some [], none⟩ := by
  rw [literalOfBinary64]
  split
  · refine .inl ⟨isDigits_zero, by simp, ?_, by simp⟩
    rintro _ ⟨⟩
    exact isDigits_zero
  · rename_i hzero
    rcases shortest_cases (Bool.not_eq_true _ ▸ hzero) with hnone | hpos
    · right
      simp only [shortestDigits, hnone, digits_zero, digitCount_zero]
      rfl
    · left
      obtain ⟨hdigits, hhead⟩ := trimZeros_digits hpos
      exact wellFormed_literal _ hdigits hhead _

theorem ReadsBack.wellFormed {x : Binary64} (h : ReadsBack x) (hfinite : x.isFinite = true) :
    (literalOfBinary64 x).WellFormed := by
  refine (literalOfBinary64_cases x).resolve_right fun hpointless => ?_
  rw [ReadsBack, ofBinary64, if_pos hfinite, hpointless, read, parse_compact_pointless] at h
  simp at h

/-- **A double that is read back by itself has a form that is read back everywhere.** -/
theorem wellFormed_ofBinary64 {x : Binary64} (h : x.isFinite = true → ReadsBack x) :
    (ofBinary64 x).WellFormed := by
  rw [ofBinary64]
  split
  · rename_i hfinite
    exact .number ((h hfinite).wellFormed hfinite)
  · exact .null

theorem binary64_ofBinary64 {x : Binary64} (h : ReadsBack x) :
    binary64 (ofBinary64 x) = .ok x := by
  have hparse := parse_compact (wellFormed_ofBinary64 fun _ => h)
  rw [ReadsBack, read, hparse] at h
  exact h

end Json

end Screening
