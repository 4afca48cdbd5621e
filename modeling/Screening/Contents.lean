import Screening.Dimensions
import Screening.Element
import Screening.Header
import Screening.Matrix

/-!
# The contents of a file

What the five records of a file say, and the label under which they were read.  Contents can be put
together from parts of any shape; `Contents.validate` tells whether every matrix has the shape that
the dimensions call for.
-/

set_option autoImplicit false

namespace Screening

/-- A matrix of complex numbers. -/
abbrev ComplexMatrix := Matrix Complex128

/-- The contents of one file. -/
structure Contents where
  /-- The label under which the file was read. -/
  source : String
  /-- The first record. -/
  dimensions : Dimensions
  /-- The second record. -/
  header : Header
  /-- The third record. -/
  wing : ComplexMatrix
  /-- The fourth record. -/
  cwing : ComplexMatrix
  /-- The fifth record. -/
  response : ComplexMatrix

namespace Contents

/-- The number of G-vectors. -/
def ngvector (c : Contents) : Nat := c.dimensions.rows

/-- The matrices in the order of the file, each with its kind and the shape it should have. -/
def matrices (c : Contents) : List (RecordKind × ComplexMatrix × (Nat × Nat)) :=
  [(.wing, c.wing, c.dimensions.wingShape),
   (.cwing, c.cwing, c.dimensions.wingShape),
   (.response, c.response, c.dimensions.responseShape)]

/-- Refuses a matrix that has not the shape it should have. -/
def checkShape (entry : RecordKind × ComplexMatrix × (Nat × Nat)) : Except FormatError Unit :=
  let (kind, matrix, expected) := entry
  if matrix.shape = expected then
    .ok ()
  else
    .error (.matrixShapeMismatch kind.index expected matrix.shape)

/-- Refuses contents in which a matrix has not the shape it should have, naming the first one. -/
def validate (c : Contents) : Except FormatError Unit := c.matrices.forM checkShape

/-- Equal in every part, numbers compared as numbers. -/
def sameNumbers (c d : Contents) : Bool :=
  let sameMatrix := Matrix.sameAs Complex128.sameNumber
  c.source == d.source && c.dimensions == d.dimensions && c.header.sameNumbers d.header &&
    sameMatrix c.wing d.wing && sameMatrix c.cwing d.cwing && sameMatrix c.response d.response

/-- Valid contents are those whose matrices have the shapes that the dimensions call for. -/
theorem validate_eq_ok_iff (c : Contents) :
    c.validate = .ok () ↔
      c.wing.shape = c.dimensions.wingShape ∧ c.cwing.shape = c.dimensions.wingShape ∧
        c.response.shape = c.dimensions.responseShape := by
  by_cases wing : c.wing.shape = c.dimensions.wingShape <;>
    by_cases cwing : c.cwing.shape = c.dimensions.wingShape <;>
    by_cases response : c.response.shape = c.dimensions.responseShape <;>
    simp [validate, matrices, checkShape, wing, cwing, response, bind, Except.bind, pure,
      Except.pure]

end Contents

end Screening
