import Screening.Error
import Screening.Frame

/-!
# The journal

Operations note what they do.  An `Event` is one note; `Event.level` says how important it is and
`Event.message` words it.
-/

set_option autoImplicit false

namespace Screening

/-- How important a note is, the least important first. -/
inductive Level where
  /-- Of use when looking for a fault. -/
  | debug
  /-- The course of an operation. -/
  | info
  /-- Something went wrong and was left aside. -/
  | warn
  deriving DecidableEq, Repr

/-- The name of a level. -/
def Level.name : Level → String
  | debug => "DEBUG"
  | info => "INFO"
  | warn => "WARN"

/-- What operations note. -/
inductive Event where
  /-- The source ended where a record may end. -/
  | endOfStream (records : Nat)
  /-- A record was framed. -/
  | recordRead (record length offset : Nat)
  /-- The sizes of a file are known. -/
  | dimensionsRead (source : String) (ngvector ngvector2 : Nat)
  /-- The header of a file is known. -/
  | headerRead
  /-- A matrix of a file is known. -/
  | matrixRead (kind : RecordKind) (nrows ncols : Nat)
  /-- A file is about to be opened. -/
  | opening (path : String)
  /-- A file was decoded. -/
  | decoded (path : String) (ngvector : Nat) (kpoint : Option Nat)
  /-- The files of a directory were counted. -/
  | filesFound (count : Nat) (directory : String)
  /-- A report was written. -/
  | reportWritten (path : String)
  /-- A file was left aside. -/
  | skipped (path : String) (cause : Error)
  deriving DecidableEq, Repr

namespace Event

/-- How important an event is. -/
def level : Event → Level
  | endOfStream _ => .debug
  | recordRead .. => .debug
  | dimensionsRead .. => .debug
  | headerRead => .debug
  | matrixRead .. => .debug
  | opening _ => .info
  | decoded .. => .info
  | filesFound .. => .info
  | reportWritten _ => .info
  | skipped .. => .warn

/-- A k-point index that may be absent. -/
def kpointText : Option Nat → String
  | some index => s!"Some({index})"
  | none => "None"

/-- The wording of an event. -/
def message : Event → String
  | endOfStream records => s!"End of stream after {records} records"
  | recordRead record length offset =>
    s!"Record {record}: {length} bytes at offset {offset} ({span length} bytes on disk)"
  | dimensionsRead source ngvector ngvector2 =>
    s!"{source}: ngvector={ngvector}, ngvector2={ngvector2}"
  | headerRead => "Read header block"
  | matrixRead kind nrows ncols => s!"Read {kind.name} matrix ({nrows} x {ncols})"
  | opening path => s!"Opening WFULL file: {path}"
  | decoded path ngvector kpoint =>
    s!"Decoded {path}: ngvector={ngvector}, k-point {kpointText kpoint}"
  | filesFound count directory => s!"Found {count} WFULL files in {directory}"
  | reportWritten path => s!"Data written to {path}"
  | skipped path cause => s!"Skipping {path}: {cause.message}"

/-- The line of an event: its level and its wording. -/
def line (e : Event) : String := e.level.name ++ " " ++ e.message

end Event

end Screening
