import Screening.Binary64
import Screening.Error

/-!
# The header of a file

The second record of a file holds eighteen numbers.  They are kept as they come.  Slot zero is
taken for the frequency point of the file; nothing in the format promises that it is.
-/

set_option autoImplicit false

namespace Screening

/-- The eighteen numbers of the second record. -/
structure Header where
  /-- The numbers in the order of the record. -/
  values : List Binary64
  /-- There are eighteen. -/
  length_eq : values.length = 18
  deriving DecidableEq, Repr

namespace Header

/-- The number of values of every header. -/
def length : Nat := 18

/-- A header of the given values, which have to be eighteen. -/
def ofValues (values : List Binary64) : Except FormatError Header :=
  if h : values.length = length then
    .ok ⟨values, h⟩
  else
    .error (.wrongCount .header length values.length)

/-- The value of a slot, counted from zero. -/
def get? (h : Header) (slot : Nat) : Option Binary64 := h.values[slot]?

/-- Slot zero. -/
def possibleFrequency (h : Header) : Binary64 :=
  h.values.head (List.ne_nil_of_length_pos (by rw [h.length_eq]; decide))

/-- Slot by slot equal as numbers. -/
def sameNumbers (h k : Header) : Bool :=
  (h.values.zip k.values).all fun pair => pair.1.sameNumber pair.2

theorem get?_zero (h : Header) : h.get? 0 = some h.possibleFrequency := by
  rw [get?, possibleFrequency, ← List.head?_eq_getElem?, List.head?_eq_some_head]

end Header

end Screening
