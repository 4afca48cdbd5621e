import Screening.Binary64.Nearest
import Screening.Decimal.Shortest
import Screening.Json

/-!
# Numbers in JSON

**Writing.**  A double is written with its shortest digits.  `positional` says which of them are
written without an exponent; every number shows a point or an exponent, so that it can be told from
an integer.  What is not finite is written as null.

**Reading.**  A literal counts as an integer if it has neither a point nor an exponent and is not
the negative zero.  A literal is read as a double in two roundings: first its digits as a whole
number, as many of them as a machine word holds, and then the product with the power of ten.  That
is exact or nearest for digits that are few and powers that are small; the last bit of other
numbers may be off.
-/

set_option autoImplicit false

namespace Screening

namespace Json

/-! ## Writing -/

/-- The powers of ten of a first digit for which no exponent is written. -/
def positional (exponent : Int) : Bool := -5 ≤ exponent && exponent ≤ 15

/-- A number without exponent: its digits with the point among them or zeros in front. -/
def positionalLiteral (negative : Bool) (digits : List Char) (exponent : Int) : NumberLiteral :=
  if exponent < 0 then
    ⟨negative, ['0'], some (List.replicate (exponent.natAbs - 1) '0' ++ digits), none⟩
  else
    let before := exponent.toNat + 1
    let whole := digits.take before
    let after := digits.drop before
    ⟨negative, whole ++ List.replicate (before - whole.length) '0',
      some (if after.isEmpty then ['0'] else after), none⟩

/-- A number with an exponent: one digit, and the others behind a point if there are any. -/
def exponentLiteral (negative : Bool) (digits : List Char) (exponent : Int) : NumberLiteral :=
  let after := digits.drop 1
  ⟨negative, digits.take 1, if after.isEmpty then none else some after,
    some (exponent < 0, Decimal.digits exponent.natAbs)⟩

/-- The literal of a finite number. -/
def literalOfBinary64 (x : Binary64) : NumberLiteral :=
  if x.isZero then ⟨x.isNegative, ['0'], some ['0'], none⟩
  else
    let (digits, exponent) := Decimal.shortestDigits x
    if positional exponent then positionalLiteral x.isNegative digits exponent
    else exponentLiteral x.isNegative digits exponent

/-- A double, or null in place of one that is not finite. -/
def ofBinary64 (x : Binary64) : Json := if x.isFinite then .number (literalOfBinary64 x) else .null

/-! ## Reading integers -/

/-- The number that digits spell. -/
def natOfDigits (digits : List Char) : Nat :=
  digits.foldl (fun n digit => 10 * n + (digit.toNat - '0'.toNat)) 0

end Json

namespace NumberLiteral

-- Powers of natural numbers are those of core here, whatever other power is in scope.
attribute [local instance (2000)] instPowNat

open Json

/-- It has neither a point nor an exponent. -/
def isWhole (literal : NumberLiteral) : Bool := literal.fraction.isNone && literal.exponent.isNone

/-- The integer that is written; a point, an exponent or a sign before a zero makes it none. -/
def toInt? (literal : NumberLiteral) : Option Int :=
  let n := natOfDigits literal.whole
  if !literal.isWhole || literal.negative && n == 0 then none
  else some (if literal.negative then -n else n)

/-! ## Reading doubles -/

/-- The bound of a machine word. -/
def significandLimit : Nat := UInt64.size

/-- The bound of what an exponent may say. -/
def exponentLimit : Nat := 0x80000000

/-- The largest power of ten that is a finite double. -/
def maxPower : Nat := 308

/-- Takes digits into a number as long as it stays within a word, and counts those taken. -/
def takeDigits : Nat → List Char → Nat × Nat
  | significand, [] => (significand, 0)
  | significand, digit :: digits =>
    let next := 10 * significand + (digit.toNat - '0'.toNat)
    if next < significandLimit then
      let (result, taken) := takeDigits next digits
      (result, taken + 1)
    else
      (significand, 0)

/-- The significand of a literal and the power of ten of its last digit, the exponent left out.
Digits of the fraction that no longer fit are left out; digits of the whole part are replaced by
zeros. -/
def significand (literal : NumberLiteral) : Nat × Int :=
  let (whole, taken) := takeDigits 0 literal.whole
  let left := literal.whole.length - taken
  let (all, fractional) := takeDigits whole (literal.fraction.getD [])
  (all, (left : Int) - fractional)

/-- A power of ten as a double. -/
def powerOfTen (power : Nat) : Binary64 := Binary64.nearest (10 ^ power) 1

/-- The double next to a whole number times a power of ten, or nothing beyond the largest one.
Powers too small for a double are applied in steps. -/
def scaled? : Nat → Binary64 → Int → Option Binary64
  | 0, x, _ => some x
  | steps + 1, x, power =>
    if power.natAbs ≤ maxPower then
      if 0 ≤ power then
        let product := x.mulMagnitudes (powerOfTen power.natAbs)
        if product.isFinite then some product else none
      else some (x.divMagnitudes (powerOfTen power.natAbs))
    else if x.isZero then some x
    else if 0 ≤ power then none
    else scaled? steps (x.divMagnitudes (powerOfTen maxPower)) (power + maxPower)

/-- Steps enough for any power: each divides by the largest power of ten, and after four of them
nothing is left of any word. -/
def scalingSteps : Nat := 4

/-- The double of a number without its sign, or nothing beyond the largest one. -/
def magnitude? (literal : NumberLiteral) : Option Binary64 :=
  let (digits, power) := literal.significand
  let (negative, exponent) := literal.exponent.getD (false, [])
  let said := natOfDigits exponent
  if said < exponentLimit then
    let power := if negative then power - said else power + said
    scaled? scalingSteps (Binary64.nearest digits 1) power
  else if negative || digits == 0 then some ⟨0⟩
  else none

/-- The double that a literal is read as, or nothing beyond the largest one. -/
def toBinary64? (literal : NumberLiteral) : Option Binary64 :=
  literal.magnitude?.map fun x => if literal.negative then x.neg else x

end NumberLiteral

end Screening
