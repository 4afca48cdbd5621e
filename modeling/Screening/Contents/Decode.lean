import Screening.Contents
import Screening.Reader

/-!
# Decoding a file

A file is five records in a fixed order.  `decode` reads them once, in that order, and ends at the
first one that is missing, badly framed or not what its place calls for; nothing is made of the
records before it, and nothing after the fifth record is ever read.
-/

set_option autoImplicit false

namespace Screening

namespace Contents

/-- The elements of the next record, which has to be there. -/
def nextElements (α : Type) [Element α] (kind : RecordKind) : Reading (List α) := do
  match ← Reader.readElements α with
  | some elements => return elements
  | none => throw (.format (.missing kind))

/-- The first record. -/
def readDimensions : Reading Dimensions := do
  let fields ← nextElements Int32 .dimensions
  Reading.ofFormat (Dimensions.ofFields fields)

/-- The second record. -/
def readHeader : Reading Header := do
  let values ← nextElements Binary64 .header
  let header ← Reading.ofFormat (Header.ofValues values)
  Reader.note .headerRead
  return header

/-- The elements of a record in the shape that its place calls for. -/
def reshape (kind : RecordKind) (data : List Complex128) (shape : Nat × Nat) :
    Except FormatError ComplexMatrix := do
  let expected ← checkedShape shape.1 shape.2
  match Matrix.ofColumnMajor data.toArray shape.1 shape.2 with
  | .ok matrix => return matrix
  | .error rejected => throw (.wrongCount kind expected rejected.size)

/-- The third, fourth or fifth record. -/
def readMatrix (kind : RecordKind) (shape : Nat × Nat) : Reading ComplexMatrix := do
  let data ← nextElements Complex128 kind
  let matrix ← Reading.ofFormat (reshape kind data shape)
  Reader.note (.matrixRead kind shape.1 shape.2)
  return matrix

/-- The five records of a file. -/
def read (label : String) : Reading Contents := do
  let dimensions ← readDimensions
  Reader.note (.dimensionsRead label dimensions.ngvector dimensions.ngvector2)
  let header ← readHeader
  let wing ← readMatrix .wing dimensions.wingShape
  let cwing ← readMatrix .cwing dimensions.wingShape
  let response ← readMatrix .response dimensions.responseShape
  return ⟨label, dimensions, header, wing, cwing, response⟩

end Contents

/-- The outcome of an operation on a reader, and the reader after it. -/
def Reading.outcome {α : Type} (reading : Reading α) (r : Reader) : Except Error α × Reader :=
  match reading r with
  | .ok x r' => (.ok x, r')
  | .error cause r' => (.error cause, r')

/-- The contents of the file that a source delivers, and the reader where it stopped. -/
def decode (source : Source) (label : String) : Except Error Contents × Reader :=
  (Contents.read label).outcome (Reader.ofSource source)

end Screening
