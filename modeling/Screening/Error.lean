import Screening.RecordKind

/-!
# What can go wrong

Errors are causes, one constructor for each; the wording of a cause is in its `message`.

* `FormatError` — the bytes, the sizes or the name are not those of a file.
* `IoError` — the system refused to read, write or list.
* `Error` — either of them, or a directory that is not there.
-/

set_option autoImplicit false

namespace Screening

/-- Ways in which bytes, sizes or names break the rules of the format. -/
inductive FormatError where
  /-- The source ended inside a marker or a payload. -/
  | truncatedRecord (record expected available : Nat)
  /-- The marker after a payload differs from the one before it. -/
  | recordSizeMismatch (record leading trailing : Nat)
  /-- A payload does not hold a whole number of elements. -/
  | malformedPayloadSize (record length elementSize : Nat)
  /-- The source ended before this record. -/
  | missing (kind : RecordKind)
  /-- This record holds the wrong number of elements. -/
  | wrongCount (kind : RecordKind) (expected found : Nat)
  /-- One of the sizes is not positive. -/
  | invalidDimensions (ngvector ngvector2 : Int)
  /-- A matrix of this shape cannot hold that many elements. -/
  | matrixLengthMismatch (nrows ncols found : Nat)
  /-- A matrix has another shape than the dimensions call for. -/
  | matrixShapeMismatch (record : Nat) (expected found : Nat × Nat)
  /-- A count does not fit in a machine word. -/
  | arraySizeOverflow
  /-- A file name carries no k-point index. -/
  | invalidFileName
  deriving DecidableEq, Repr

namespace FormatError

/-- What a record that is missing would have held. -/
def missingSubject : RecordKind → String
  | .dimensions => "dimensions"
  | .header => "header"
  | .wing => "WING matrix"
  | .cwing => "CWING matrix"
  | .response => "response matrix"

/-- A shape as two extents in parentheses. -/
def shapeText (shape : Nat × Nat) : String := s!"({shape.1}, {shape.2})"

/-- How a record with the wrong number of elements is reported. -/
def wrongCountMessage (kind : RecordKind) (expected found : Nat) : String :=
  match kind with
  | .dimensions => s!"Dimension record holds {found} integers, at least 2 required"
  | .header => s!"Header holds {found} values, expected {expected}"
  | .wing => s!"WING matrix holds {found} elements, expected {expected}"
  | .cwing => s!"CWING matrix holds {found} elements, expected {expected}"
  | .response => s!"Response matrix holds {found} elements, expected {expected}"

/-- The wording of a cause. -/
def message : FormatError → String
  | truncatedRecord record expected available =>
    s!"Truncated record {record}: expected {expected} bytes, only {available} available"
  | recordSizeMismatch record leading trailing =>
    s!"Record {record} size mismatch: leading marker {leading} != trailing marker {trailing}"
  | malformedPayloadSize record length elementSize =>
    s!"Record {record} payload of {length} bytes is not a multiple of element size {elementSize}"
  | missing kind => "Could not read " ++ missingSubject kind
  | wrongCount kind expected found => wrongCountMessage kind expected found
  | invalidDimensions ngvector ngvector2 =>
    s!"Invalid dimensions: ngvector={ngvector}, ngvector2={ngvector2}"
  | matrixLengthMismatch nrows ncols found =>
    s!"Matrix of shape {nrows} x {ncols} cannot hold {found} elements"
  | matrixShapeMismatch record expected found =>
    s!"Record {record} matrix shape {shapeText found} does not match expected {shapeText expected}"
  | arraySizeOverflow => "Array size calculation overflow"
  | invalidFileName => "Invalid WFULL file name"

end FormatError

/-- Refusals of the system. -/
inductive IoError where
  /-- Nothing is at the path. -/
  | notFound
  /-- Something is already at the path. -/
  | alreadyExists
  /-- The path leads through something that is not a directory. -/
  | notADirectory
  /-- The path leads to a directory where a file is needed. -/
  | isADirectory
  /-- What is at the path cannot be mapped into memory. -/
  | noSuchDevice
  /-- The path leads through too many symbolic links. -/
  | tooManyLinks
  /-- The path, or a name in it, is too long. -/
  | nameTooLong
  /-- The path holds the character that ends texts in the system. -/
  | nulInPath
  /-- Any other refusal, in the system's own words. -/
  | other (text : String)
  deriving DecidableEq, Repr

/-- The system's wording of a refusal, with its number where it has one. -/
def IoError.message : IoError → String
  | notFound => "No such file or directory (os error 2)"
  | alreadyExists => "File exists (os error 17)"
  | notADirectory => "Not a directory (os error 20)"
  | isADirectory => "Is a directory (os error 21)"
  | noSuchDevice => "No such device (os error 19)"
  | tooManyLinks => "Too many levels of symbolic links (os error 40)"
  | nameTooLong => "File name too long (os error 36)"
  | nulInPath => "file name contained an unexpected NUL byte"
  | other text => text

/-- Everything an operation of the library can fail with. -/
inductive Error where
  /-- The data is at fault. -/
  | format (cause : FormatError)
  /-- The system is at fault. -/
  | io (cause : IoError)
  /-- No directory is at the path. -/
  | directoryNotFound (path : String)
  deriving DecidableEq, Repr

namespace Error

/-- The wording of an error. -/
def message : Error → String
  | format cause => cause.message
  | io cause => "I/O error: " ++ cause.message
  | directoryNotFound path => s!"Directory {path} not found"

/-- The messages of an error and of the causes behind it, outermost first.  A refusal of the system
stands behind its own report; every other error is its own cause. -/
def chain : Error → List String
  | io cause => [message (io cause), cause.message]
  | e => [e.message]

end Error

end Screening
