import Screening.FileName
import Screening.Matrix.InWords

/-!
# Reading names byte by byte

The index of a file is cut out of the bytes of its name.  Here the reading of a name is written out
on these bytes and with machine numbers: a cut has to fall between two characters, a digit is what a
byte exceeds the byte of `0` by, and the index is built up in 32 bits.

* `InBytes.front?` — the beginning of a text, cut off between two characters.
* `InBytes.number` — the number that bytes spell; it breaks off below the byte of `0`, and complains
  of what is no digit or does not fit.
* `InBytes.kpoint`, `InBytes.isStandard` — the reading of a name.
-/

set_option autoImplicit false

namespace Screening.FileName.InBytes

/-- The bytes of a text. -/
def bytesOf (text : String) : List UInt8 := text.toUTF8.data.toList

/-- How the name of a file begins. -/
def stem : List UInt8 := bytesOf (String.ofList stemLetters)

/-- How the name of a file ends. -/
def suffix : List UInt8 := bytesOf (String.ofList ending)

/-! ## Cutting -/

/-- The byte goes on with a character that an earlier byte began. -/
def goesOn (byte : UInt8) : Bool := 128 ≤ byte.toNat ∧ byte.toNat < 192

/-- A place in the bytes of a text lies at one of its ends or between two characters. -/
def isBoundary (bytes : List UInt8) (place : Nat) : Bool :=
  place == 0 ||
    match bytes[place]? with
    | some byte => !goesOn byte
    | none => place == bytes.length

/-- The first bytes of a text, if they end between two characters. -/
def front? (count : Nat) (bytes : List UInt8) : Option (List UInt8) :=
  if isBoundary bytes count then some (bytes.take count) else none

/-- The bytes of a text behind its beginning, if it begins like this. -/
def behind? (front bytes : List UInt8) : Option (List UInt8) :=
  if front.isPrefixOf bytes then some (bytes.drop front.length) else none

/-! ## Numbers -/

/-- The byte is that of a decimal digit. -/
def isDigit (byte : UInt8) : Bool := '0'.toNat ≤ byte.toNat ∧ byte.toNat ≤ '9'.toNat

/-- By how much a byte exceeds that of `0`, which it must not be below. -/
def digitValue (byte : UInt8) : Except Breakdown Nat :=
  if '0'.toNat ≤ byte.toNat then .ok (byte.toNat - '0'.toNat) else .error .overflow

/-- A number, if 32 bits hold it. -/
def held? (n : Nat) : Option Nat := if n < UInt32.size then some n else none

/-- A number with one more digit behind it, if 32 bits hold it and what it takes to compute it. -/
def shift (n digit : Nat) : Except FormatError Nat :=
  match (held? (n * 10)).bind fun tens => held? (tens + digit) with
  | some next => .ok next
  | none => .error .arraySizeOverflow

/-- A number with more digits behind it. -/
def extend : Nat → List UInt8 → Except Breakdown (Except FormatError Nat)
  | n, [] => return .ok n
  | n, byte :: rest =>
    if isDigit byte then do
      match shift n (← digitValue byte) with
      | .ok next => extend next rest
      | .error cause => return .error cause
    else
      return .error .invalidFileName

/-- The number that bytes spell, one digit at least. -/
def number (bytes : List UInt8) : Except Breakdown (Except FormatError Nat) :=
  if bytes.isEmpty then return .error .invalidFileName else extend 0 bytes

/-! ## Names -/

/-- The k-point index that a name carries. -/
def kpoint (name : String) : Except Breakdown (Except FormatError Nat) :=
  match (behind? stem (bytesOf name)).bind (front? indexDigits) with
  | some digits => number digits
  | none => return .error .invalidFileName

/-- The name is as long as one in the usual form, ends like it and carries an index. -/
def isStandard (name : String) : Except Breakdown Bool := do
  let bytes := bytesOf name
  if bytes.length = stem.length + indexDigits + suffix.length ∧ suffix.isSuffixOf bytes then
    return (← kpoint name).toBool
  else
    return false

end Screening.FileName.InBytes
