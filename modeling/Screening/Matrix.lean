import Screening.Error

/-!
# Matrices in column-major order

A matrix is stored flat, the row index varying fastest: element `(row, col)` of a matrix with
`nrows` rows is element `col * nrows + row` of its storage.

* `Matrix.ofColumnMajor` takes flat data exactly if it fills the shape, and hands it back otherwise;
  `Matrix.checked` says why it does not.
* `get?`, `row`, `col`, `rows`, `block` and `entries` are the ways of looking at the elements.

The extents may be anything a machine word holds, since a matrix without rows may have any number
of columns; their product is bounded, so that no index leaves the words.
-/

set_option autoImplicit false

namespace Screening

/-- Counts stay below this bound, that of a 64-bit word. -/
def wordLimit : Nat := UInt64.size

/-- The number of elements of a shape, if it is within the words. -/
def checkedShape (nrows ncols : Nat) : Except FormatError Nat :=
  if nrows * ncols < wordLimit then .ok (nrows * ncols) else .error .arraySizeOverflow

/-- The place of an element in flat storage. -/
def flatIndex (row col nrows : Nat) : Nat := col * nrows + row

/-- The row and column of a place in flat storage. -/
def flatPosition (index nrows : Nat) : Nat × Nat := (index % nrows, index / nrows)

theorem flatIndex_flatPosition (index nrows : Nat) :
    flatIndex (flatPosition index nrows).1 (flatPosition index nrows).2 nrows = index := by
  rw [flatIndex, flatPosition, Nat.mul_comm, Nat.div_add_mod]

theorem flatPosition_flatIndex {row nrows : Nat} (hrow : row < nrows) (col : Nat) :
    flatPosition (flatIndex row col nrows) nrows = (row, col) := by
  have hpos : 0 < nrows := Nat.lt_of_le_of_lt (Nat.zero_le row) hrow
  rw [flatPosition, flatIndex, Nat.add_comm, Nat.add_mul_mod_self_right, Nat.mod_eq_of_lt hrow,
    Nat.add_mul_div_right _ _ hpos, Nat.div_eq_of_lt hrow, Nat.zero_add]

/-- A matrix stored in column-major order. -/
structure Matrix (α : Type) where
  /-- The number of rows. -/
  nrows : Nat
  /-- The number of columns. -/
  ncols : Nat
  /-- The elements, a column after the other. -/
  data : Array α
  /-- The storage is filled exactly. -/
  size_eq : data.size = nrows * ncols
  /-- No index leaves the words. -/
  size_lt : nrows * ncols < wordLimit

namespace Matrix

variable {α : Type}

/-! ## Building -/

/-- The matrix with the given storage, if that fills the shape; otherwise the storage itself. -/
def ofColumnMajor (data : Array α) (nrows ncols : Nat) : Except (Array α) (Matrix α) :=
  if h : nrows * ncols < wordLimit ∧ data.size = nrows * ncols then
    .ok ⟨nrows, ncols, data, h.2, h.1⟩
  else
    .error data

/-- The matrix with the given storage, or why there is none. -/
def checked (data : Array α) (nrows ncols : Nat) : Except FormatError (Matrix α) :=
  if inWords : nrows * ncols < wordLimit then
    if filled : data.size = nrows * ncols then
      .ok ⟨nrows, ncols, data, filled, inWords⟩
    else
      .error (.matrixLengthMismatch nrows ncols data.size)
  else
    .error .arraySizeOverflow

/-- The number of rows and of columns. -/
def shape (m : Matrix α) : Nat × Nat := (m.nrows, m.ncols)

/-- The number of elements. -/
def size (m : Matrix α) : Nat := m.data.size

/-- Nothing is in the matrix. -/
def isEmpty (m : Matrix α) : Bool := m.size == 0

/-! ## Looking at the elements -/

/-- The element of a row and a column, if both are within the shape. -/
def get? (m : Matrix α) (row col : Nat) : Option α :=
  if row < m.nrows ∧ col < m.ncols then m.data[flatIndex row col m.nrows]? else none

/-- The elements of a row from the left, at most `cols` of them. -/
def rowUpTo (m : Matrix α) (row cols : Nat) : List α :=
  (List.range (Nat.min cols m.ncols)).filterMap (m.get? row)

/-- The elements of a row; none outside the shape. -/
def row (m : Matrix α) (row : Nat) : List α :=
  if row < m.nrows then m.rowUpTo row m.ncols else []

/-- The elements of a column; none outside the shape. -/
def col (m : Matrix α) (col : Nat) : List α :=
  if col < m.ncols then (List.range m.nrows).filterMap (m.get? · col) else []

/-- The rows from the top. -/
def rows (m : Matrix α) : List (List α) := (List.range m.nrows).map m.row

/-- The corner at the top left, at most `rows` by `cols`, row by row. -/
def block (m : Matrix α) (rows cols : Nat) : List (List α) :=
  (List.range (Nat.min rows m.nrows)).map (m.rowUpTo · cols)

/-- Every element with its row and column, in the order of the storage. -/
def entries (m : Matrix α) : List (Nat × Nat × α) :=
  m.data.toList.mapIdx fun index x =>
    ((flatPosition index m.nrows).1, (flatPosition index m.nrows).2, x)

/-- The elements in the order of the storage. -/
def toList (m : Matrix α) : List α := m.data.toList

/-- Equal shapes, and elements equal one by one under a given equality. -/
def sameAs (same : α → α → Bool) (m n : Matrix α) : Bool :=
  m.shape == n.shape && (m.toList.zip n.toList).all fun pair => same pair.1 pair.2

theorem length_toList (m : Matrix α) : m.toList.length = m.nrows * m.ncols := by
  rw [toList, Array.length_toList, m.size_eq]

/-- An index of the shape is an index of the storage. -/
theorem flatIndex_lt (m : Matrix α) {row col : Nat} (hrow : row < m.nrows) (hcol : col < m.ncols) :
    flatIndex row col m.nrows < m.data.size := by
  have h : (col + 1) * m.nrows ≤ m.ncols * m.nrows := Nat.mul_le_mul_right _ hcol
  rw [m.size_eq, flatIndex, Nat.mul_comm m.nrows]
  rw [Nat.succ_mul] at h
  omega

end Matrix

end Screening
