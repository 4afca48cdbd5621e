import Screening.Json.Number
import Screening.Report

/-!
# Numbers of a report in two steps

A number with an exponent is written in two steps: first with an exponent that has no more
characters than it needs, and then the exponent is taken off that text, read as an integer, and
written once more with its sign and the digits it should have.  Where there is no exponent the text
stays as it is, and an exponent that cannot be read counts as zero.

* `Layout.plainText` — the first text.
* `splitOnce?`, `integer?` — taking a text apart.
* `rewriteExponent` — the second text.
* `Report.rewritten` — a number of a report, written in this way.
-/

set_option autoImplicit false

namespace Screening

-- Powers of natural numbers are those of core here, whatever other power is in scope.
attribute [local instance (2000)] instPowNat

namespace Decimal

/-- An exponent with no more characters than it needs. -/
def plainExponent (exponent : Int) : List Char :=
  (if exponent < 0 then ['-'] else []) ++ digits exponent.natAbs

/-- A finite number with a plain exponent. -/
def Layout.plainText (layout : Layout) (x : Binary64) : List Char :=
  let (num, den) := x.magnitude
  let (rounded, exponent) := roundedDigits layout.places num den
  signText x ++ digits (rounded / 10 ^ layout.places) ++ '.' :: fixedDigits layout.places rounded ++
    'e' :: plainExponent exponent

/-- What lies before the first mark of a text and what lies behind it, if there is one. -/
def splitOnce? (mark : Char) (text : List Char) : Option (List Char × List Char) :=
  match text.span (· != mark) with
  | (before, _ :: after) => some (before, after)
  | (_, []) => none

/-- The sign in front of a text, and the rest of it. -/
def splitSign : List Char → Bool × List Char
  | '-' :: rest => (true, rest)
  | '+' :: rest => (false, rest)
  | text => (false, text)

/-- The signed integer of 32 bits that a text spells with digits and maybe a sign. -/
def integer? (text : List Char) : Option Int :=
  let (negative, rest) := splitSign text
  let value : Int := if negative then -(Json.natOfDigits rest) else Json.natOfDigits rest
  if !rest.isEmpty && rest.all Char.isDigit && Int32.minValue.toInt ≤ value &&
      value ≤ Int32.maxValue.toInt then
    some value
  else
    none

/-- A text with its exponent written once more. -/
def rewriteExponent (least : Nat) (text : List Char) : List Char :=
  match splitOnce? 'e' text with
  | some (before, exponent) => before ++ 'e' :: exponentText least ((integer? exponent).getD 0)
  | none => text

end Decimal

open Decimal

/-- A number of a report, its exponent written twice. -/
def Report.rewritten (x : Binary64) : String :=
  let text :=
    if x.isFinite then rewriteExponent numbers.exponentDigits (numbers.plainText x)
    else specialText x
  String.ofList (padLeft numbers.width text)

end Screening
