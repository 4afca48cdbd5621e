import Screening.Binary64
import Screening.Rounding

/-!
# The nearest double-precision number

`Binary64.nearest num den` is the number nearest to a quotient, a half going to the even one; from
half a step beyond the largest finite number on, it is the infinity.  Products and quotients of
finite numbers are rounded by it.
-/

set_option autoImplicit false

namespace Screening.Binary64

/-- The power of two just below a positive quotient, or equal to it. -/
def floorLog2 (num den : Nat) : Int :=
  let guess := (num.log2 : Int) - den.log2
  let (up, down) := powerOfTwo guess
  if num * down < den * up then guess - 1 else guess

/-- The weight of the last bit of the numbers near a positive quotient, as a power of two. -/
def lastBit (num den : Nat) : Int := Max.max (floorLog2 num den - 52) (-1074)

/-- The number nearest to a quotient. -/
def nearest (num den : Nat) : Binary64 :=
  if num = 0 then ⟨0⟩
  else
    let q := lastBit num den
    let (up, down) := powerOfTwo q
    let rounded := (q + 1074).toNat * exponentWeight + roundDiv (num * down) (den * up)
    if rounded < infinity.bits.toNat then ⟨UInt64.ofNat rounded⟩ else infinity

/-- The product of two numbers of positive sign. -/
def mulMagnitudes (x y : Binary64) : Binary64 :=
  nearest (x.magnitude.1 * y.magnitude.1) (x.magnitude.2 * y.magnitude.2)

/-- The quotient of two numbers of positive sign. -/
def divMagnitudes (x y : Binary64) : Binary64 :=
  nearest (x.magnitude.1 * y.magnitude.2) (x.magnitude.2 * y.magnitude.1)

end Screening.Binary64
