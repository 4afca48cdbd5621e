/-!
# Little-endian bytes of numbers

A number is laid out as a fixed count of bytes, the least significant first.

* `toBytes width n` — the `width` lowest bytes of `n`.
* `toNat bytes` — the number that a run of bytes spells.

The two are inverse wherever that can hold: `toNat_toBytes` below `256 ^ width`, and
`toBytes_toNat` on every run of bytes.
-/

set_option autoImplicit false

namespace Screening.LittleEndian

-- Powers of natural numbers are those of core here, whatever other power is in scope.
attribute [local instance (2000)] instPowNat

/-- The `width` lowest bytes of a number, the least significant first. -/
def toBytes : Nat → Nat → List UInt8
  | 0, _ => []
  | width + 1, n => UInt8.ofNat n :: toBytes width (n / 256)

/-- The number whose bytes are given, the least significant first. -/
def toNat : List UInt8 → Nat
  | [] => 0
  | byte :: rest => byte.toNat + 256 * toNat rest

@[simp] theorem toNat_nil : toNat [] = 0 := rfl

@[simp] theorem toNat_cons (byte : UInt8) (rest : List UInt8) :
    toNat (byte :: rest) = byte.toNat + 256 * toNat rest := rfl

@[simp] theorem length_toBytes (width n : Nat) : (toBytes width n).length = width := by
  induction width generalizing n with
  | zero => rfl
  | succ width ih => simp [toBytes, ih]

theorem toNat_lt (bytes : List UInt8) : toNat bytes < 256 ^ bytes.length := by
  induction bytes with
  | nil => simp
  | cons byte rest ih =>
    have h : byte.toNat < 256 := byte.toNat_lt
    rw [toNat_cons, List.length_cons, Nat.pow_succ]
    omega

theorem toNat_toBytes_mod (width n : Nat) : toNat (toBytes width n) = n % 256 ^ width := by
  induction width generalizing n with
  | zero => simp [toBytes, Nat.mod_one]
  | succ width ih =>
    have split : n % 256 ^ (width + 1) = n % 256 + 256 * (n / 256 % 256 ^ width) := by
      rw [Nat.pow_succ', Nat.mod_mul]
    have low : (UInt8.ofNat n).toNat = n % 256 := UInt8.toNat_ofNat'
    rw [toBytes, toNat_cons, ih, split, low]

/-- A number that fits in the width is read back. -/
theorem toNat_toBytes {width n : Nat} (h : n < 256 ^ width) : toNat (toBytes width n) = n := by
  rw [toNat_toBytes_mod, Nat.mod_eq_of_lt h]

/-- Bytes are recovered from the number they spell and their count. -/
theorem toBytes_toNat (bytes : List UInt8) : toBytes bytes.length (toNat bytes) = bytes := by
  induction bytes with
  | nil => rfl
  | cons byte rest ih =>
    have h : byte.toNat < 256 := byte.toNat_lt
    have low : UInt8.ofNat (byte.toNat + 256 * toNat rest) = byte := by
      apply UInt8.toNat_inj.1
      rw [UInt8.toNat_ofNat', Nat.add_mul_mod_self_left, Nat.mod_eq_of_lt h]
    have high : (byte.toNat + 256 * toNat rest) / 256 = toNat rest := by omega
    rw [List.length_cons, toNat_cons, toBytes, low, high, ih]

theorem toNat_append (first second : List UInt8) :
    toNat (first ++ second) = toNat first + 256 ^ first.length * toNat second := by
  induction first with
  | nil => simp
  | cons byte rest ih =>
    rw [List.cons_append, toNat_cons, toNat_cons, ih, List.length_cons, Nat.pow_succ',
      Nat.mul_add, Nat.mul_assoc, Nat.add_assoc]

end Screening.LittleEndian
