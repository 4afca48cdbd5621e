import Mathlib.Data.Nat.Digits.Defs
import Screening.Proofs.FileNames

/-!
# The order of names is the order of indices

The index in a name has a fixed number of digits, the highest first, so that names are ordered
character by character as their indices are ordered as numbers.

* `FileName.numberOf_eq` — digits are read as decimal digits are.
* `FileName.append_lt_append_iff` — digits of one length, whatever stands for a digit and whatever
  comes behind them, are ordered as their numbers.
* `FileName.numberOf_inj` — different digits spell different numbers.
* `FileName.nameOf_lt_nameOf_iff` — names in the usual form are ordered as their indices.
-/

set_option autoImplicit false

namespace Screening.FileName

/-! ## Digits and numbers -/

/-- The number of a decimal digit. -/
def valueOf (digit : Char) : Nat := digit.toNat - '0'.toNat

variable {digits digits' : List Char}

theorem toNat_of_isDigit {digit : Char} (h : digit.isDigit = true) :
    '0'.toNat ≤ digit.toNat ∧ digit.toNat ≤ '9'.toNat := by
  rw [Char.isDigit, Bool.and_eq_true, decide_eq_true_eq, decide_eq_true_eq] at h
  exact ⟨UInt32.le_iff_toNat_le.1 h.1, UInt32.le_iff_toNat_le.1 h.2⟩

theorem valueOf_lt {digit : Char} (h : digit.isDigit = true) : valueOf digit < 10 :=
  Nat.lt_succ_of_le (Nat.sub_le_sub_right (toNat_of_isDigit h).2 _)

theorem valueOf_lt_valueOf_iff {c d : Char} (hc : c.isDigit = true) (hd : d.isDigit = true) :
    valueOf c < valueOf d ↔ c.toNat < d.toNat := by
  have hzero := (toNat_of_isDigit hc).1
  have hzero' := (toNat_of_isDigit hd).1
  rw [valueOf, valueOf]
  omega

theorem valueOf_inj {c d : Char} (hc : c.isDigit = true) (hd : d.isDigit = true)
    (h : valueOf c = valueOf d) : c = d := by
  have hzero := (toNat_of_isDigit hc).1
  have hzero' := (toNat_of_isDigit hd).1
  rw [valueOf, valueOf] at h
  exact Char.toNat_inj.1 (by omega)

/-- **Digits spell a number in the decimal way**, the highest first. -/
theorem numberOf_eq (digits : List Char) :
    numberOf digits = Nat.ofDigits 10 (digits.map valueOf).reverse := by
  rw [Nat.ofDigits_eq_foldr, List.foldr_reverse, List.foldl_map, numberOf]
  simp only [Nat.add_comm (10 * _), Nat.cast_id]
  rfl

theorem numberOf_cons (digit : Char) (rest : List Char) :
    numberOf (digit :: rest) = valueOf digit * 10 ^ rest.length + numberOf rest := by
  rw [numberOf_eq, numberOf_eq, List.map_cons, List.reverse_cons, Nat.ofDigits_append,
    Nat.ofDigits_singleton, List.length_reverse, List.length_map, Nat.add_comm, Nat.mul_comm]

theorem values_lt (h : digits.all Char.isDigit = true) :
    ∀ value ∈ (digits.map valueOf).reverse, value < 10 := by
  intro value hmem
  rw [List.mem_reverse, List.mem_map] at hmem
  obtain ⟨digit, hdigit, rfl⟩ := hmem
  exact valueOf_lt (List.all_eq_true.1 h digit hdigit)

theorem numberOf_lt (h : digits.all Char.isDigit = true) :
    numberOf digits < 10 ^ digits.length := by
  have hlt := Nat.ofDigits_lt_base_pow_length (by decide : 1 < 10) (values_lt h)
  rwa [← numberOf_eq, List.length_reverse, List.length_map] at hlt

/-! ## Order -/

/-- Of two numbers the digits before the last decide, unless they are the same. -/
theorem mul_add_lt_mul_add_iff {a b n m power : Nat} (hn : n < power) (hm : m < power) :
    a * power + n < b * power + m ↔ a < b ∨ a = b ∧ n < m := by
  rcases Nat.lt_trichotomy a b with h | rfl | h
  · have hstep := Nat.mul_le_mul_right power (Nat.succ_le_of_lt h)
    rw [Nat.succ_mul] at hstep
    omega
  · omega
  · have hstep := Nat.mul_le_mul_right power (Nat.succ_le_of_lt h)
    rw [Nat.succ_mul] at hstep
    omega

/-- **Different digits spell different numbers**, if there are as many of them. -/
theorem numberOf_inj (h : digits.all Char.isDigit = true) (h' : digits'.all Char.isDigit = true)
    (hlength : digits.length = digits'.length) (hsame : numberOf digits = numberOf digits') :
    digits = digits' := by
  induction digits generalizing digits' with
  | nil => rw [List.eq_nil_of_length_eq_zero hlength.symm]
  | cons c rest ih =>
    cases digits' with
    | nil => cases hlength
    | cons d rest' =>
      have hrests : rest.length = rest'.length := Nat.succ.inj hlength
      rw [List.all_cons, Bool.and_eq_true] at h h'
      have hbound := numberOf_lt h.2
      have hbound' := numberOf_lt h'.2
      rw [← hrests] at hbound'
      rw [numberOf_cons, numberOf_cons, ← hrests] at hsame
      have hnot := (mul_add_lt_mul_add_iff hbound hbound').not.1 (Nat.not_lt.2 hsame.ge)
      have hnot' := (mul_add_lt_mul_add_iff hbound' hbound).not.1 (Nat.not_lt.2 hsame.le)
      have hfirst : valueOf c = valueOf d := by omega
      have hrest : numberOf rest = numberOf rest' := by omega
      rw [valueOf_inj h.1 h'.1 hfirst, ih h.2 h'.2 hrests hrest]

section Order

variable {β : Type} [LT β] [Std.Irrefl (α := β) (· < ·)]

/-- What lists begin with alike does not matter for their order. -/
theorem append_lt_append_left_iff (front : List β) {l l' : List β} :
    front ++ l < front ++ l' ↔ l < l' := by
  induction front with
  | nil => exact Iff.rfl
  | cons x front ih =>
    rw [List.cons_append, List.cons_append, List.cons_lt_cons_iff, ih]
    have hirrefl : ¬ x < x := Std.Irrefl.irrefl x
    tauto

/-- **Digits are ordered as their numbers**, if there are as many of them and the same comes behind
them, whatever stands for a digit. -/
theorem append_lt_append_iff {code : Char → β}
    (hlt : ∀ c d, c.isDigit = true → d.isDigit = true → (code c < code d ↔ c.toNat < d.toNat))
    (hinj : ∀ c d, c.isDigit = true → d.isDigit = true → code c = code d → c = d)
    (h : digits.all Char.isDigit = true) (h' : digits'.all Char.isDigit = true)
    (hlength : digits.length = digits'.length) (back : List β) :
    digits.map code ++ back < digits'.map code ++ back ↔ numberOf digits < numberOf digits' := by
  induction digits generalizing digits' with
  | nil =>
    rw [List.eq_nil_of_length_eq_zero hlength.symm]
    exact iff_of_false (List.lt_irrefl back) (Nat.lt_irrefl _)
  | cons c rest ih =>
    cases digits' with
    | nil => cases hlength
    | cons d rest' =>
      have hrests : rest.length = rest'.length := Nat.succ.inj hlength
      rw [List.all_cons, Bool.and_eq_true] at h h'
      have hbound := numberOf_lt h'.2
      rw [← hrests] at hbound
      have hcode : code c = code d ↔ valueOf c = valueOf d :=
        ⟨fun hsame => congrArg valueOf (hinj c d h.1 h'.1 hsame),
          fun hsame => congrArg code (valueOf_inj h.1 h'.1 hsame)⟩
      rw [List.map_cons, List.map_cons, List.cons_append, List.cons_append, List.cons_lt_cons_iff,
        ih h.2 h'.2 hrests, numberOf_cons, numberOf_cons, ← hrests,
        mul_add_lt_mul_add_iff (numberOf_lt h.2) hbound, hlt c d h.1 h'.1, hcode,
        valueOf_lt_valueOf_iff h.1 h'.1]

end Order

theorem nameOf_lt_nameOf_iff (h : IsIndex digits) (h' : IsIndex digits') :
    nameOf digits < nameOf digits' ↔ numberOf digits < numberOf digits' := by
  rw [String.lt_iff, toList_nameOf, toList_nameOf, List.append_assoc, List.append_assoc,
    append_lt_append_left_iff, ← List.map_id digits, ← List.map_id digits']
  have hlt (c d : Char) (_ : c.isDigit = true) (_ : d.isDigit = true) :
      id c < id d ↔ c.toNat < d.toNat := UInt32.lt_iff_toNat_lt
  have hinj (c d : Char) (_ : c.isDigit = true) (_ : d.isDigit = true) (hsame : id c = id d) :
      c = d := hsame
  rw [append_lt_append_iff hlt hinj h.2 h'.2 (h.1.trans h'.1.symm), List.map_id, List.map_id]

end Screening.FileName
