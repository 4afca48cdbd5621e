import Screening.Matrix

/-!
# Looking at a matrix with machine words

Places in the storage of a matrix are computed with words of a fixed size, the storage ends
somewhere, and so does the room for a list.  Here every way of looking at a matrix is written out
with these limits: it breaks off where a number is not a word, where the storage is asked beyond its
end, where something is divided by zero, and where a list is to be made that is too large.

* `Word` — arithmetic that breaks off, and lists that need room.
* `Matrix.InWords` — `get?`, `row`, `col`, `rows`, `block` and `entries` with all that they compute.

A list is given room for all of its items before the first of them is found.  How much that is
depends on the number of bytes that an item takes up.
-/

set_option autoImplicit false

namespace Screening

/-- Why a computation with machine words breaks off. -/
inductive Breakdown where
  /-- A number is not a word. -/
  | overflow
  /-- The storage is asked beyond its end. -/
  | outOfRange
  /-- Something is divided by zero. -/
  | divisionByZero
  /-- There is no room for a list. -/
  | capacityOverflow
  deriving DecidableEq, Repr

namespace Word

/-- A sum, which has to be a word. -/
def add (n k : Nat) : Except Breakdown Nat :=
  if n + k < wordLimit then .ok (n + k) else .error .overflow

/-- A product, which has to be a word. -/
def mul (n k : Nat) : Except Breakdown Nat :=
  if n * k < wordLimit then .ok (n * k) else .error .overflow

/-- A quotient. -/
def div (n k : Nat) : Except Breakdown Nat :=
  if k = 0 then .error .divisionByZero else .ok (n / k)

/-- A remainder. -/
def mod (n k : Nat) : Except Breakdown Nat :=
  if k = 0 then .error .divisionByZero else .ok (n % k)

/-- The most bytes that the items of a list take up together. -/
def maxBytes : Nat := 0x7fffffffffffffff

/-- The bytes of a list that is an item of another one: three words, which say where its items are,
how many there is room for, and how many there are. -/
def listBytes : Nat := 24

/-- The most lists that are items of another one. -/
def maxLists : Nat := maxBytes / listBytes

/-- A list of so many items, each of them of so many bytes, which are found one after the other. -/
def collect {α : Type} (bytes count : Nat) (item : Nat → Except Breakdown α) :
    Except Breakdown (List α) :=
  if count * bytes ≤ maxBytes then (List.range count).mapM item else .error .capacityOverflow

end Word

namespace Matrix.InWords

variable {α : Type}

/-- The place of an element in flat storage. -/
def index (row col nrows : Nat) : Except Breakdown Nat := do
  Word.add (← Word.mul col nrows) row

/-- The row and column of a place in flat storage. -/
def position (place nrows : Nat) : Except Breakdown (Nat × Nat) := do
  return (← Word.mod place nrows, ← Word.div place nrows)

/-- The element at a row and column, which has to be there. -/
def element (m : Matrix α) (row col : Nat) : Except Breakdown α := do
  match m.data[← index row col m.nrows]? with
  | some x => return x
  | none => throw .outOfRange

/-- The element of a row and a column, if both are within the shape. -/
def get? (m : Matrix α) (row col : Nat) : Except Breakdown (Option α) := do
  if row < m.nrows ∧ col < m.ncols then
    return m.data[← index row col m.nrows]?
  else
    return none

/-- Every element with its row and column, in the order of the storage. -/
def entries (m : Matrix α) : Except Breakdown (List (Nat × Nat × α)) :=
  m.data.toList.zipIdx.mapM fun (x, place) => do
    let (row, col) ← position place m.nrows
    return (row, col, x)

/-! ## Lists of elements

These and the lists of them below depend on the number of bytes of an element. -/

variable (width : Nat)

/-- A part of the storage, which has to be there, as a list of its own. -/
def slice (m : Matrix α) (start stop : Nat) : Except Breakdown (List α) :=
  if start ≤ stop ∧ stop ≤ m.data.size then
    if (stop - start) * width ≤ Word.maxBytes then
      .ok (m.data.extract start stop).toList
    else
      .error .capacityOverflow
  else
    .error .outOfRange

/-- The elements of a row, one by one; none outside the shape. -/
def row (m : Matrix α) (row : Nat) : Except Breakdown (List α) :=
  if row < m.nrows then Word.collect width m.ncols (element m row) else .ok []

/-- The elements of a column, in one part of the storage; none outside the shape. -/
def col (m : Matrix α) (col : Nat) : Except Breakdown (List α) := do
  if col < m.ncols then
    let start ← Word.mul col m.nrows
    slice width m start (← Word.add start m.nrows)
  else
    return []

/-- The rows from the top. -/
def rows (m : Matrix α) : Except Breakdown (List (List α)) :=
  Word.collect Word.listBytes m.nrows (row width m)

/-- The corner at the top left, at most `rows` by `cols`, row by row. -/
def block (m : Matrix α) (rows cols : Nat) : Except Breakdown (List (List α)) :=
  Word.collect Word.listBytes (min rows m.nrows) fun row =>
    Word.collect width (min cols m.ncols) (element m row)

end Matrix.InWords

end Screening
