import Screening.Error

/-!
# Names of files

The k-point of a file stands in its name alone: `WFULL`, four digits, and commonly `.tmp`.

* `FileName.kpoint?` — the index of any name that begins in this way.
* `FileName.isStandard` — the name is `WFULL`, four digits and `.tmp`, and nothing else.
-/

set_option autoImplicit false

namespace Screening.FileName

/-- How the name of a file begins. -/
def stemLetters : List Char := "WFULL".toList

/-- How the name of a file ends. -/
def ending : List Char := ".tmp".toList

/-- How many digits the index has. -/
def indexDigits : Nat := 4

/-- The number that decimal digits spell. -/
def numberOf (digits : List Char) : Nat :=
  digits.foldl (fun n digit => 10 * n + (digit.toNat - '0'.toNat)) 0

/-- The index at the beginning of the characters, and the characters after it. -/
def splitIndex? (name : List Char) : Option (Nat × List Char) :=
  let rest := name.drop stemLetters.length
  let digits := rest.take indexDigits
  if stemLetters.isPrefixOf name ∧ digits.length = indexDigits ∧ digits.all Char.isDigit then
    some (numberOf digits, rest.drop indexDigits)
  else
    none

/-- The k-point index that a name carries. -/
def kpoint? (name : String) : Option Nat := (splitIndex? name.toList).map Prod.fst

/-- The k-point index that a name carries, or the complaint that it carries none. -/
def kpoint (name : String) : Except FormatError Nat :=
  match kpoint? name with
  | some index => .ok index
  | none => .error .invalidFileName

/-- The name carries an index and ends right after it in the usual way. -/
def isStandard (name : String) : Bool :=
  match splitIndex? name.toList with
  | some (_, rest) => rest == ending
  | none => false

/-- A name in the usual form carries an index. -/
theorem isSome_kpoint?_of_isStandard {name : String} (h : isStandard name = true) :
    (kpoint? name).isSome = true := by
  unfold isStandard at h
  unfold kpoint?
  split at h
  · rename_i split
    simp [split]
  · simp at h

end Screening.FileName
