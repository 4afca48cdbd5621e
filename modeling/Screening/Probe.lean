import Screening.Contents.Decode

/-!
# Probing the records of a source

A probe walks the records of any source without asking what they mean.  Of each it reports where it
lies, how many elements of each type its payload would hold, and how the payload begins.
-/

set_option autoImplicit false

namespace Screening

/-- What a probe reports of one record. -/
structure ProbedRecord where
  /-- The position of the record, counted from one. -/
  index : Nat
  /-- The offset of its leading marker. -/
  offset : Nat
  /-- The length of its payload. -/
  length : Nat
  /-- The number of elements under each type, where the payload holds whole ones. -/
  counts : List (ElementType × Option Nat)
  /-- The first bytes of its payload. -/
  preview : List UInt8
  deriving DecidableEq, Repr

namespace ProbedRecord

/-- What a probe reports of a record, keeping `previewSize` bytes of it. -/
def ofRecord (record : Record) (previewSize : Nat) : ProbedRecord where
  index := record.index
  offset := record.offset
  length := record.declaredLength
  counts := ElementType.all.map fun type =>
    (type, (elementCount record.index record.payload.length type.size).toOption)
  preview := record.payload.take previewSize

/-- The number of elements under one type. -/
def count (p : ProbedRecord) (type : ElementType) : Option Nat := (p.counts.lookup type).join

/-- The role that a record at this position has in a file. -/
def expectedKind (p : ProbedRecord) : Option RecordKind := RecordKind.atIndex? p.index

/-- The number of elements under the type that this position has in a file. -/
def expectedCount (p : ProbedRecord) : Option Nat :=
  p.expectedKind.bind fun kind => p.count kind.elementType

end ProbedRecord

namespace Reader

/-- Walks over at most `limit` records. -/
def probeUpTo (previewSize : Nat) : Nat → Reading (List ProbedRecord)
  | 0 => return []
  | limit + 1 => do
    match ← readRecord with
    | none => return []
    | some record =>
      let rest ← probeUpTo previewSize limit
      return ProbedRecord.ofRecord record previewSize :: rest

/-- More records than a source can hold: each of them takes its markers and so moves the source on
by some bytes. -/
def recordBound (r : Reader) : Nat := r.source.pending.length + 1

/-- Walks over the records of a source, all of them or at most `limit`. -/
def probe (limit : Option Nat) (previewSize : Nat) : Reading (List ProbedRecord) := fun r =>
  probeUpTo previewSize (limit.getD r.recordBound) r

end Reader

/-- The records of a source as a probe reports them. -/
def probeRecords (source : Source) (limit : Option Nat) (previewSize : Nat) :
    Except Error (List ProbedRecord) × Reader :=
  (Reader.probe limit previewSize).outcome (Reader.ofSource source)

end Screening
