import Screening.Decimal.Digits
import Screening.Rounding

/-!
# Rounding to decimal digits

Numbers are given exactly, as a numerator and a denominator.

* `leadingExponent num den` — the power of ten of the first digit.
* `roundedDigits places num den` — one digit and `places` more, rounded, with the power of ten of
  the first one.
-/

set_option autoImplicit false

namespace Screening.Decimal

-- Powers of natural numbers are those of core here, whatever other power is in scope.
attribute [local instance (2000)] instPowNat

/-- A quotient multiplied by a power of ten. -/
def scale (power : Int) (num den : Nat) : Nat × Nat :=
  (num * 10 ^ power.toNat, den * 10 ^ (-power).toNat)

/-- The power of ten of the first digit of a positive quotient. -/
def leadingExponent (num den : Nat) : Int :=
  if den ≤ num then (digitCount (num / den) : Int) - 1 else -(digitCount ((den - 1) / num) : Int)

/-- The first digit of a quotient and `places` more as one number, rounded, and the power of ten of
that first digit. -/
def roundedDigits (places num den : Nat) : Nat × Int :=
  if num = 0 then (0, 0)
  else
    let exponent := leadingExponent num den
    let scaled := scale (places - exponent) num den
    let rounded := roundDiv scaled.1 scaled.2
    if rounded = 10 ^ (places + 1) then (10 ^ places, exponent + 1) else (rounded, exponent)

end Screening.Decimal
