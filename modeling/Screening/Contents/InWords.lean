import Screening.Contents.Decode
import Screening.Matrix.InWords

/-!
# Decoding a file with machine words

Records and bytes are counted with words of a fixed size, and so are the bytes that a record takes
in its file, the elements of a payload and the places of a matrix.  Here decoding is written out
with these limits.  It breaks off where a number is not a word and where something is divided by
zero; a shape that is too large is not a failure of the file then, but breaks off as well.

* `ReadingInWords` — operations on a reader that may fail or break off.
* `Reader.InWords`, `Contents.InWords` — reading with all its computations.
* `InWords.decode` — decoding with all its computations.
-/

set_option autoImplicit false

namespace Screening

/-- Why an operation with machine words ends early. -/
inductive Halt where
  /-- The stream is not as it should be, or its source refused. -/
  | failure (cause : Error)
  /-- A computation broke off. -/
  | breakdown (cause : Breakdown)
  deriving DecidableEq, Repr

/-- Operations on a reader that may fail or break off. -/
abbrev ReadingInWords := EStateM Halt Reader

namespace ReadingInWords

variable {α : Type}

/-- An operation in which nothing is computed. -/
def ofReading (m : Reading α) : ReadingInWords α := fun r =>
  match m r with
  | .ok x r' => .ok x r'
  | .error cause r' => .error (.failure cause) r'

/-- A computation as an operation that reads nothing. -/
def compute : Except Breakdown α → ReadingInWords α
  | .ok x => pure x
  | .error cause => throw (.breakdown cause)

/-- A failure of the stream. -/
def fail (cause : FormatError) : ReadingInWords α := throw (.failure (.format cause))

end ReadingInWords

open ReadingInWords

namespace Reader.InWords

/-- The next `want` bytes, or those that are left if they are fewer. -/
def take (want : Nat) : ReadingInWords (List UInt8) := fun r =>
  match r.source.fill want with
  | (.error cause, source) => .error (.failure (.io cause)) { r with source }
  | (.ok bytes, source) =>
    match Word.add r.position bytes.length with
    | .ok position => .ok bytes { r with source, position }
    | .error cause => .error (.breakdown cause) { r with source }

/-- The next marker, or nothing if the source has ended. -/
def readMarker (record : Nat) : ReadingInWords (Option Nat) := do
  let bytes ← take markerSize
  if bytes.isEmpty then
    return none
  else if bytes.length < markerSize then
    fail (.truncatedRecord record markerSize bytes.length)
  else
    return some (markerLength bytes)

/-- The payload between two markers, which has to be there in full. -/
def readPayload (record length : Nat) : ReadingInWords (List UInt8) := do
  let payload ← take length
  if payload.length < length then
    fail (.truncatedRecord record length payload.length)
  else
    return payload

/-- The marker after a payload, which has to be there and to repeat the leading one. -/
def readTrailingMarker (record leading : Nat) : ReadingInWords Unit := do
  match ← readMarker record with
  | none => fail (.truncatedRecord record markerSize 0)
  | some trailing => ofReading (Reading.ofFormat (checkMarkers record leading trailing))

/-- What follows the leading marker of a record: its payload and the marker repeated. -/
def readBody (record length : Nat) : ReadingInWords (List UInt8) := do
  let payload ← readPayload record length
  readTrailingMarker record length
  return payload

/-- Notes a record with what it takes in its file. -/
def noteRecord (index length offset : Nat) : ReadingInWords Unit := do
  let _ ← compute (Word.add length (2 * markerSize))
  ofReading (Reader.note (.recordRead index length offset))

/-- The next record, or nothing if the source ends where the record would begin. -/
def readRecord : ReadingInWords (Option Record) := do
  let start ← get
  let index ← compute (Word.add start.recordsRead 1)
  match ← readMarker index with
  | none =>
    ofReading (Reader.note (.endOfStream start.recordsRead))
    return none
  | some length =>
    let payload ← readBody index length
    noteRecord index length start.position
    ofReading (Reader.countRecord index)
    return some ⟨index, start.position, payload⟩

/-- The payload of a record as elements of a type. -/
def elementsOfRecord (α : Type) [Element α] (record : Record) : ReadingInWords (List α) := do
  let rest ← compute (Word.mod record.payload.length (Element.size α))
  if rest = 0 then
    let count ← compute (Word.div record.payload.length (Element.size α))
    return elementsOf α count record.payload
  else
    fail (.malformedPayloadSize record.index record.payload.length (Element.size α))

/-- The next record as elements of a type. -/
def readElements (α : Type) [Element α] : ReadingInWords (Option (List α)) := do
  match ← readRecord with
  | none => return none
  | some record => some <$> elementsOfRecord α record

end Reader.InWords

namespace Contents.InWords

open Reader.InWords

/-- The elements of the next record, which has to be there. -/
def nextElements (α : Type) [Element α] (kind : RecordKind) : ReadingInWords (List α) := do
  match ← readElements α with
  | some elements => return elements
  | none => fail (.missing kind)

/-- The first record. -/
def readDimensions : ReadingInWords Dimensions := do
  let fields ← nextElements Int32 .dimensions
  ofReading (Reading.ofFormat (Dimensions.ofFields fields))

/-- The second record. -/
def readHeader : ReadingInWords Header := do
  let values ← nextElements Binary64 .header
  let header ← ofReading (Reading.ofFormat (Header.ofValues values))
  ofReading (Reader.note .headerRead)
  return header

/-- The elements of a record in the shape that its place calls for, the places being counted. -/
def reshape (kind : RecordKind) (data : List Complex128) (shape : Nat × Nat) :
    ReadingInWords ComplexMatrix := do
  let expected ← compute (Word.mul shape.1 shape.2)
  match Matrix.ofColumnMajor data.toArray shape.1 shape.2 with
  | .ok matrix => return matrix
  | .error rejected => fail (.wrongCount kind expected rejected.size)

/-- The third, fourth or fifth record. -/
def readMatrix (kind : RecordKind) (shape : Nat × Nat) : ReadingInWords ComplexMatrix := do
  let data ← nextElements Complex128 kind
  let matrix ← reshape kind data shape
  ofReading (Reader.note (.matrixRead kind shape.1 shape.2))
  return matrix

/-- The five records of a file. -/
def read (label : String) : ReadingInWords Contents := do
  let dimensions ← readDimensions
  ofReading (Reader.note (.dimensionsRead label dimensions.ngvector dimensions.ngvector2))
  let header ← readHeader
  let wing ← readMatrix .wing dimensions.wingShape
  let cwing ← readMatrix .cwing dimensions.wingShape
  let response ← readMatrix .response dimensions.responseShape
  return ⟨label, dimensions, header, wing, cwing, response⟩

end Contents.InWords

/-- The contents of the file that a source delivers, and the reader where it stopped. -/
def InWords.decode (source : Source) (label : String) : Except Halt Contents × Reader :=
  match Contents.InWords.read label (Reader.ofSource source) with
  | .ok c r => (.ok c, r)
  | .error halt r => (.error halt, r)

end Screening
