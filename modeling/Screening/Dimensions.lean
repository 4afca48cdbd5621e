import Screening.Error

/-!
# The sizes of a file

The first record of a file holds signed 32-bit integers: `ngvector`, `ngvector2`, and any number of
further fields that nothing depends on.  `ngvector` gives every later record its shape.

* `Dimensions.ofFields` reads the sizes off that record.
* `Dimensions.ofSizes` checks sizes that come from elsewhere, and admits exactly those that some
  record could hold.
-/

set_option autoImplicit false

namespace Screening

/-- The largest size that a field of the first record can hold, that of a signed integer. -/
def maxSize : Nat := 0x7fffffff

/-- The fewest fields of the first record. -/
def minFields : Nat := 2

/-- The columns of both wing matrices. -/
def wingColumns : Nat := 3

/-- The sizes that the first record of a file declares. -/
structure Dimensions where
  /-- The number of G-vectors, and the extent of the response matrix. -/
  ngvector : Nat
  /-- A second size, carried along. -/
  ngvector2 : Nat
  /-- How many fields the record held. -/
  fieldCount : Nat
  /-- There is a G-vector. -/
  ngvector_pos : 0 < ngvector
  /-- The number of G-vectors is one that a field can hold. -/
  ngvector_le : ngvector ≤ maxSize
  /-- The second size is positive too. -/
  ngvector2_pos : 0 < ngvector2
  /-- The second size is one that a field can hold. -/
  ngvector2_le : ngvector2 ≤ maxSize
  /-- The record held both sizes. -/
  minFields_le : minFields ≤ fieldCount
  deriving DecidableEq, Repr

namespace Dimensions

/-- The extent of every matrix along its rows. -/
def rows (d : Dimensions) : Nat := d.ngvector

/-- The shape of both wing matrices. -/
def wingShape (d : Dimensions) : Nat × Nat := (d.rows, wingColumns)

/-- The shape of the response matrix. -/
def responseShape (d : Dimensions) : Nat × Nat := (d.rows, d.rows)

/-- Sizes that lie within the fields of a record, or what is wrong with them: a size too large for
a field first, then a size of zero, then a count of fields too small for both sizes. -/
def ofSizes (ngvector ngvector2 fieldCount : Nat) : Except FormatError Dimensions :=
  if large : ngvector ≤ maxSize ∧ ngvector2 ≤ maxSize then
    if positive : 0 < ngvector ∧ 0 < ngvector2 then
      if enough : minFields ≤ fieldCount then
        .ok ⟨ngvector, ngvector2, fieldCount, positive.1, large.1, positive.2, large.2, enough⟩
      else
        .error (.wrongCount .dimensions minFields fieldCount)
    else
      .error (.invalidDimensions ngvector ngvector2)
  else
    .error .arraySizeOverflow

theorem toNat_toInt_pos {x : Int32} (h : 0 < x.toInt) : 0 < x.toInt.toNat := by
  omega

theorem toNat_toInt_le (x : Int32) : x.toInt.toNat ≤ maxSize := by
  have := x.toInt_lt
  unfold maxSize
  omega

/-- The sizes that the integers of the first record declare; both have to be positive. -/
def ofFields : List Int32 → Except FormatError Dimensions
  | first :: second :: others =>
    if positive : 0 < first.toInt ∧ 0 < second.toInt then
      .ok
        { ngvector := first.toInt.toNat
          ngvector2 := second.toInt.toNat
          fieldCount := others.length + 2
          ngvector_pos := toNat_toInt_pos positive.1
          ngvector_le := toNat_toInt_le first
          ngvector2_pos := toNat_toInt_pos positive.2
          ngvector2_le := toNat_toInt_le second
          minFields_le := Nat.le_add_left _ _ }
    else
      .error (.invalidDimensions first.toInt second.toInt)
  | fields => .error (.wrongCount .dimensions minFields fields.length)

end Dimensions

end Screening
