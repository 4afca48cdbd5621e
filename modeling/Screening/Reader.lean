import Screening.Element
import Screening.Journal
import Screening.Source

/-!
# Reading records from a source

A `Reader` walks a source record by record.  Its operations live in `Reading`, where a failure
keeps the reader as it stood, so that a walk may go on after one.

* `Reader.readRecord` — the next record, or nothing where the source ends between two records.
* `Reader.readElements`, `Reader.readAs` — the next record under a type.  The type has no say in
  the framing: a payload that does not fit it still counts as read.
* `Reader.Step`, `Reader.run` — several such readings, one after the other, whatever they answer.

The position counts the bytes of markers and payloads as they arrive.  Where a read is refused, the
bytes of the unfinished marker or payload are gone from the source but not counted.
-/

set_option autoImplicit false

namespace Screening

/-- A framed record. -/
structure Record where
  /-- Its position in the source, counted from one. -/
  index : Nat
  /-- The offset of its leading marker. -/
  offset : Nat
  /-- The bytes between its markers. -/
  payload : List UInt8
  deriving DecidableEq, Repr

namespace Record

/-- The length that both markers declare, cut to the 32 bits of a marker. -/
def declaredLength (record : Record) : Nat := (UInt32.ofNat record.payload.length).toNat

/-- Nothing is cut off a payload that a marker can announce. -/
theorem declaredLength_eq (record : Record) (h : record.payload.length < UInt32.size) :
    record.declaredLength = record.payload.length := by
  rw [declaredLength, UInt32.toNat_ofNat', Nat.mod_eq_of_lt h]

/-- The payload as elements of a type. -/
def decode (α : Type) [Element α] (record : Record) : Except FormatError (List α) :=
  decodeElements α record.index record.payload

/-- The payload under a type chosen at run time, or as bytes. -/
def decodeAs (record : Record) (type : Option ElementType) : Except FormatError TypedPayload :=
  TypedPayload.ofBytes record.index record.payload type

end Record

/-- A walk over the records of a source. -/
structure Reader where
  /-- What is left of the source. -/
  source : Source
  /-- How many records were framed. -/
  recordsRead : Nat
  /-- How many bytes were counted. -/
  position : Nat
  /-- The notes so far, the oldest first. -/
  journal : Array Event

/-- Operations on a reader that may fail; a failure keeps the reader as it stood then. -/
abbrev Reading := EStateM Error Reader

/-- A rule of the format as an operation that reads nothing. -/
def Reading.ofFormat {α : Type} : Except FormatError α → Reading α
  | .ok x => pure x
  | .error cause => throw (.format cause)

namespace Reader

/-- A reader at the start of a source. -/
def ofSource (source : Source) : Reader := ⟨source, 0, 0, #[]⟩

/-! ## Bytes and markers -/

/-- Adds a note. -/
def note (event : Event) : Reading Unit :=
  modify fun r => { r with journal := r.journal.push event }

/-- The next `want` bytes, or those that are left if they are fewer. -/
def take (want : Nat) : Reading (List UInt8) := fun r =>
  match r.source.fill want with
  | (.ok bytes, source) => .ok bytes { r with source, position := r.position + bytes.length }
  | (.error cause, source) => .error (.io cause) { r with source }

/-- The next marker, or nothing if the source has ended. -/
def readMarker (record : Nat) : Reading (Option Nat) := do
  let bytes ← take markerSize
  if bytes.isEmpty then
    return none
  else if bytes.length < markerSize then
    throw (.format (.truncatedRecord record markerSize bytes.length))
  else
    return some (markerLength bytes)

/-- The payload between two markers, which has to be there in full. -/
def readPayload (record length : Nat) : Reading (List UInt8) := do
  let payload ← take length
  if payload.length < length then
    throw (.format (.truncatedRecord record length payload.length))
  else
    return payload

/-- The marker after a payload, which has to be there and to repeat the leading one. -/
def readTrailingMarker (record leading : Nat) : Reading Unit := do
  match ← readMarker record with
  | none => throw (.format (.truncatedRecord record markerSize 0))
  | some trailing => Reading.ofFormat (checkMarkers record leading trailing)

/-- What follows the leading marker of a record: its payload and the marker repeated. -/
def readBody (record length : Nat) : Reading (List UInt8) := do
  let payload ← readPayload record length
  readTrailingMarker record length
  return payload

/-! ## Records -/

/-- Counts a record as framed. -/
def countRecord (index : Nat) : Reading Unit := modify fun r => { r with recordsRead := index }

/-- The next record, or nothing if the source ends where the record would begin. -/
def readRecord : Reading (Option Record) := do
  let start ← get
  let index := start.recordsRead + 1
  match ← readMarker index with
  | none =>
    note (.endOfStream start.recordsRead)
    return none
  | some length =>
    let payload ← readBody index length
    note (.recordRead index length start.position)
    countRecord index
    return some ⟨index, start.position, payload⟩

/-- What is made of the next record, if there is one. -/
def readWith {α : Type} (make : Record → Except FormatError α) : Reading (Option α) := do
  match ← readRecord with
  | none => return none
  | some record => some <$> Reading.ofFormat (make record)

/-- The next record as elements of a type. -/
def readElements (α : Type) [Element α] : Reading (Option (List α)) := readWith (Record.decode α)

/-- The next record under a type chosen at run time, or as bytes. -/
def readAs (type : Option ElementType) : Reading (Option TypedPayload) :=
  readWith fun record => record.decodeAs type

/-! ## Walks of several steps -/

/-- One reading of a walk. -/
inductive Step where
  /-- The next record as it is. -/
  | record
  /-- The next record as elements of a type. -/
  | elements (type : ElementType)
  /-- The next record under a type, or as bytes. -/
  | typed (type : Option ElementType)
  /-- The next record under every type and as bytes. -/
  | every
  deriving DecidableEq, Repr

/-- What a step answers when it does not fail. -/
inductive Answer where
  /-- The source ended where the record would begin. -/
  | endOfStream
  /-- A record as it is. -/
  | record (record : Record)
  /-- A payload under a type, or as bytes. -/
  | payload (payload : TypedPayload)
  /-- A payload as bytes and under each type, each on its own. -/
  | every (raw : Except FormatError TypedPayload)
      (typed : List (ElementType × Except FormatError TypedPayload))

namespace Answer

/-- The answer where there was a record, and the one where there was none. -/
def ofOption {α : Type} (make : α → Answer) : Option α → Answer
  | none => endOfStream
  | some x => make x

/-- A record under every type and as bytes. -/
def everyWay (found : Record) : Answer :=
  .every (found.decodeAs none) (ElementType.all.map fun type => (type, found.decodeAs (some type)))

end Answer

/-- Reads the next record and answers it in the way of the step. -/
def Step.run : Step → Reading Answer
  | record => Answer.ofOption .record <$> readRecord
  | elements .int32 => Answer.ofOption (.payload ∘ .int32) <$> readElements Int32
  | elements .float64 => Answer.ofOption (.payload ∘ .float64) <$> readElements Binary64
  | elements .complex128 => Answer.ofOption (.payload ∘ .complex128) <$> readElements Complex128
  | typed type => Answer.ofOption .payload <$> readAs type
  | every => Answer.ofOption .everyWay <$> readRecord

/-- An answer with the counters as they stood after it. -/
structure Observation where
  /-- The answer, or the failure. -/
  result : Except Error Answer
  /-- How many records had been framed. -/
  recordsRead : Nat
  /-- How many bytes had been counted. -/
  position : Nat

/-- Makes one step and says what could be seen of it. -/
def observe (step : Step) (r : Reader) : Observation × Reader :=
  match step.run r with
  | .ok answer r' => (⟨.ok answer, r'.recordsRead, r'.position⟩, r')
  | .error cause r' => (⟨.error cause, r'.recordsRead, r'.position⟩, r')

/-- Makes several steps, going on after failures. -/
def run : List Step → Reader → List Observation × Reader
  | [], r => ([], r)
  | step :: rest, r =>
    let (seen, r') := observe step r
    let (later, r'') := run rest r'
    (seen :: later, r'')

end Reader

end Screening
