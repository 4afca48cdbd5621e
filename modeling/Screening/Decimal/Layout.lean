import Screening.Binary64
import Screening.Decimal.Rounding

/-!
# Decimal text of double-precision numbers

A `Layout` says how a number is written: how many places after the point, how many digits the
exponent has at least, and how wide the text is at least.

* `Layout.fixed` — without an exponent, however large the number.
* `Layout.scientific` — one digit before the point, and an exponent with its sign.

Both round the exact value of the number, a half to the even neighbour, and both write the sign of
a negative zero.
-/

set_option autoImplicit false

namespace Screening.Decimal

-- Powers of natural numbers are those of core here, whatever other power is in scope.
attribute [local instance (2000)] instPowNat

/-- How numbers are written. -/
structure Layout where
  /-- Digits after the point. -/
  places : Nat
  /-- The fewest digits of an exponent. -/
  exponentDigits : Nat
  /-- The fewest characters; shorter text is moved to the right. -/
  width : Nat
  deriving DecidableEq, Repr

/-- Text moved to the right of a field. -/
def padLeft (width : Nat) (text : List Char) : List Char :=
  List.replicate (width - text.length) ' ' ++ text

/-- The sign of a number, written only if it is negative. -/
def signText (x : Binary64) : List Char := if x.isNegative then ['-'] else []

/-- The name of an infinity or of a NaN. -/
def specialText (x : Binary64) : List Char :=
  if x.isNaN then "NaN".toList else signText x ++ "inf".toList

/-- An exponent with its sign. -/
def exponentText (least : Nat) (exponent : Int) : List Char :=
  (if exponent < 0 then '-' else '+') :: digitsAtLeast least exponent.natAbs

namespace Layout

/-- The places of a finite number without its sign. -/
def fixedMagnitude (layout : Layout) (x : Binary64) : List Char :=
  let (num, den) := x.magnitude
  let unit := 10 ^ layout.places
  let rounded := roundDiv (num * unit) den
  digits (rounded / unit) ++ '.' :: fixedDigits layout.places rounded

/-- A number without an exponent, as narrow as it comes. -/
def fixedText (layout : Layout) (x : Binary64) : List Char :=
  if x.isFinite then signText x ++ layout.fixedMagnitude x else specialText x

/-- A finite number with an exponent and without its sign. -/
def scientificMagnitude (layout : Layout) (x : Binary64) : List Char :=
  let (num, den) := x.magnitude
  let (rounded, exponent) := roundedDigits layout.places num den
  digits (rounded / 10 ^ layout.places) ++ '.' :: fixedDigits layout.places rounded ++
    'e' :: exponentText layout.exponentDigits exponent

/-- A number with an exponent, as narrow as it comes. -/
def scientificText (layout : Layout) (x : Binary64) : List Char :=
  if x.isFinite then signText x ++ layout.scientificMagnitude x else specialText x

/-- A number without an exponent. -/
def fixed (layout : Layout) (x : Binary64) : String :=
  String.ofList (padLeft layout.width (layout.fixedText x))

/-- A number with an exponent. -/
def scientific (layout : Layout) (x : Binary64) : String :=
  String.ofList (padLeft layout.width (layout.scientificText x))

end Layout

end Screening.Decimal
