import Screening.Binary64
import Screening.Decimal.Rounding

/-!
# The shortest decimal of a double-precision number

Every real near a double rounds to it; those that do form an interval around it.  The shortest
decimal is the one with the fewest digits in that interval, and among those the nearest to the
number itself.

* `Binary64.interval` — the interval, over a common denominator.
* `shortest` — the digits of that decimal as one number, and the power of ten of the last one.

On the grid of decimals with a given number of digits only the two neighbours of the number need to
be looked at: if any point of the grid lies in the interval, one of these does.  Seventeen digits
always suffice.
-/

set_option autoImplicit false

namespace Screening

-- Powers of natural numbers are those of core here, whatever other power is in scope.
attribute [local instance (2000)] instPowNat

/-- The reals that round to a number, as numerators over one denominator. -/
structure RoundingInterval where
  /-- The lower end. -/
  low : Nat
  /-- The number itself. -/
  value : Nat
  /-- The upper end. -/
  high : Nat
  /-- What all three are divided by. -/
  den : Nat
  /-- The ends round to the number too. -/
  closed : Bool
  deriving DecidableEq, Repr

/-- The reals that round to a finite number.  The next lower number is only half as far away where
the exponent changes; an end is midway between two numbers and rounds to the even one. -/
def Binary64.interval (x : Binary64) : RoundingInterval :=
  let m := x.significand
  let (num, den) := Binary64.powerOfTwo (x.exponent - 2)
  let narrow := x.fraction = 0 ∧ 1 < x.biasedExponent
  { low := (4 * m - if narrow then 1 else 2) * num
    value := 4 * m * num
    high := (4 * m + 2) * num
    den := den
    closed := m % 2 = 0 }

namespace RoundingInterval

/-- The interval multiplied by a power of ten. -/
def scale (i : RoundingInterval) (power : Int) : RoundingInterval :=
  let up := 10 ^ power.toNat
  { low := i.low * up
    value := i.value * up
    high := i.high * up
    den := i.den * 10 ^ (-power).toNat
    closed := i.closed }

/-- A whole number lies in the interval. -/
def contains (i : RoundingInterval) (k : Nat) : Bool :=
  let point := k * i.den
  if i.closed then i.low ≤ point && point ≤ i.high else i.low < point && point < i.high

/-- A whole number in the interval next to the number, the nearer one if there are two; of two that
are equally near, the even one. -/
def nearest? (i : RoundingInterval) : Option Nat :=
  let below := i.value / i.den
  match i.contains below, i.contains (below + 1) with
  | true, true => some (roundDiv i.value i.den)
  | true, false => some below
  | false, true => some (below + 1)
  | false, false => none

end RoundingInterval

namespace Decimal

/-- The most digits that a shortest decimal has. -/
def maxDigits : Nat := 17

/-- A decimal of `count` digits in the interval: its digits as one number, and the power of ten of
the last one. -/
def ofDigitCount? (i : RoundingInterval) (count : Nat) : Option (Nat × Int) :=
  let last := leadingExponent i.value i.den - (count - 1)
  (i.scale (-last)).nearest?.map fun k => (k, last)

/-- The shortest decimal of a finite number other than zero. -/
def shortest (x : Binary64) : Nat × Int :=
  let i := x.interval
  let found := (List.range maxDigits).findSome? fun n => ofDigitCount? i (n + 1)
  found.getD (0, 0)

/-- Digits without the zeros behind the last other one. -/
def trimZeros (text : List Char) : List Char := (text.reverse.dropWhile (· == '0')).reverse

/-- The digits of the shortest decimal, without zeros at the end, and the power of ten of the
first one. -/
def shortestDigits (x : Binary64) : List Char × Int :=
  let (k, last) := shortest x
  (trimZeros (digits k), last + (digitCount k - 1))

end Decimal

end Screening
