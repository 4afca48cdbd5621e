/-!
# Double-precision numbers as their bits

A `Binary64` is the 64 bits of an IEEE 754 double: a sign bit, eleven exponent bits and fifty-two
fraction bits.  A value that is only moved keeps its bits, the payload of a NaN included; only
arithmetic goes through `Float`.

* `isNaN`, `isFinite`, `isNegative` — the classes, read off the bits.
* `sameNumber` — equality of numbers: a NaN equals nothing, and the two zeros are equal.
* `rank` — an integer that orders the finite numbers and the infinities as their values do.
* `significand`, `exponent` — a finite number is `± significand · 2 ^ exponent`.
-/

set_option autoImplicit false

namespace Screening

/-- The 64 bits of a double-precision number. -/
structure Binary64 where
  /-- Sign, exponent and fraction, the sign in the highest bit. -/
  bits : UInt64
  deriving DecidableEq, Repr, Inhabited

namespace Binary64

-- Powers of natural numbers are those of core here, whatever other power is in scope.
attribute [local instance (2000)] instPowNat

/-! ## Fields of the bits -/

/-- What the sign bit weighs. -/
def signWeight : Nat := 0x8000000000000000

/-- What the lowest exponent bit weighs; the fraction lies below it. -/
def exponentWeight : Nat := 0x10000000000000

/-- The sign bit is set; so it is for the negative zero and for half of the NaNs. -/
def isNegative (x : Binary64) : Bool := decide (signWeight ≤ x.bits.toNat)

/-- All bits but the sign, as a number. -/
def unsignedBits (x : Binary64) : Nat := x.bits.toNat % signWeight

/-- The eleven exponent bits as a number. -/
def biasedExponent (x : Binary64) : Nat := x.unsignedBits / exponentWeight

/-- The fifty-two fraction bits as a number. -/
def fraction (x : Binary64) : Nat := x.bits.toNat % exponentWeight

theorem biasedExponent_le (x : Binary64) : x.biasedExponent ≤ 2047 := by
  unfold biasedExponent unsignedBits signWeight exponentWeight; omega

/-! ## Classes -/

/-- Neither an infinity nor a NaN: some exponent bit is clear. -/
def isFinite (x : Binary64) : Bool := x.biasedExponent != 2047

/-- All exponent bits are set and some fraction bit is. -/
def isNaN (x : Binary64) : Bool := x.biasedExponent == 2047 && x.fraction != 0

/-- One of the two zeros. -/
def isZero (x : Binary64) : Bool := x.unsignedBits == 0

/-- Equal as numbers: no NaN equals anything, and the two zeros are equal. -/
def sameNumber (x y : Binary64) : Bool :=
  !x.isNaN && !y.isNaN && (x == y || x.isZero && y.isZero)

theorem isNaN_eq_false_of_isFinite {x : Binary64} (h : x.isFinite = true) : x.isNaN = false := by
  simp_all [isFinite, isNaN]

/-- A number equals itself exactly if it is one. -/
theorem sameNumber_self (x : Binary64) : x.sameNumber x = !x.isNaN := by
  simp [sameNumber]

/-! ## Order and value -/

/-- An integer whose order is that of the numbers: the bits below the sign, negated if the sign is
set.  The two zeros share the rank zero. -/
def rank (x : Binary64) : Int := if x.isNegative then -(x.unsignedBits : Int) else x.unsignedBits

/-- The lesser of two numbers, the first one on a tie. -/
def min (x y : Binary64) : Binary64 := if y.rank < x.rank then y else x

/-- The greater of two numbers, the first one on a tie. -/
def max (x y : Binary64) : Binary64 := if x.rank < y.rank then y else x

/-- The integer `m` of the value `± m · 2 ^ q` of a finite number. -/
def significand (x : Binary64) : Nat :=
  if x.biasedExponent = 0 then x.fraction else x.fraction + exponentWeight

/-- The power `q` of the value `± m · 2 ^ q` of a finite number. -/
def exponent (x : Binary64) : Int := (Nat.max 1 x.biasedExponent : Int) - 1075

/-- A power of two as a numerator and a denominator. -/
def powerOfTwo (q : Int) : Nat × Nat := (2 ^ q.toNat, 2 ^ (-q).toNat)

/-- The absolute value of a finite number as a numerator and a denominator. -/
def magnitude (x : Binary64) : Nat × Nat :=
  (x.significand * (powerOfTwo x.exponent).1, (powerOfTwo x.exponent).2)

theorem magnitude_den_pos (x : Binary64) : 0 < x.magnitude.2 := Nat.two_pow_pos _

/-! ## Constants and arithmetic -/

/-- The positive infinity. -/
def infinity : Binary64 := ⟨0x7ff0000000000000⟩

/-- The negative infinity. -/
def negInfinity : Binary64 := ⟨0xfff0000000000000⟩

/-- The negative zero, which any sum may start from without changing it. -/
def negZero : Binary64 := ⟨0x8000000000000000⟩

/-- The number with the sign bit changed. -/
def neg (x : Binary64) : Binary64 := ⟨x.bits ^^^ 0x8000000000000000⟩

/-- The number as an operand of arithmetic. -/
def toFloat (x : Binary64) : Float := Float.ofBits x.bits

/-- The bits of a result of arithmetic. -/
def ofFloat (x : Float) : Binary64 := ⟨x.toBits⟩

end Binary64

end Screening
