import Screening.Contents.Decode
import Screening.FileName
import Screening.Workspace

/-!
# Data files

A data file is the contents of a file together with where it lies and the k-point that its name
carries.  There are three ways to open one, and they differ in how much they ask of the name and in
the label that the contents get:

* `DataFile.openIndexed` — the name has to carry an index; the label is the name.
* `DataFile.openLeniently` — any name will do; the label is the name, or the path if there is none.
* `DataFile.openLabelled` — any name will do; the label is given.
-/

set_option autoImplicit false

namespace Screening

/-- The contents of a file, where it lies, and its k-point. -/
structure DataFile where
  /-- The path under which the file was opened. -/
  path : String
  /-- The k-point index that its name carries. -/
  kpoint : Option Nat
  /-- What it says. -/
  contents : Contents

namespace DataFile

/-- The k-point index that the name of a path carries. -/
def kpointOfPath (path : String) : Option Nat := (Path.fileName? path).bind FileName.kpoint?

/-- Decodes bytes that were read from a file, adding the notes of the decoding. -/
def decodeBytes (bytes : List UInt8) (label : String) : Working Contents := do
  let (result, reader) := decode (Source.ofBytes bytes) label
  Working.noteAll reader.journal
  Working.ofExcept result

/-- Decodes the bytes of the file that was found at a location, from a map of it in memory. -/
def load (path label : String) (place : Location) : Working DataFile := do
  let bytes ← Working.ask (·.mappedAt place)
  let contents ← decodeBytes bytes label
  let kpoint := kpointOfPath path
  Working.note (.decoded path contents.dimensions.ngvector kpoint)
  return ⟨path, kpoint, contents⟩

/-- Opens a file under a given label. -/
def openLabelled (path label : String) : Working DataFile := do
  Working.note (.opening path)
  let place ← Working.ask (·.open? path)
  load path label place

/-- The label of a file that need not have a name. -/
def lenientLabel (path : String) : String := (Path.fileName? path).getD path

/-- Opens a file whatever its name. -/
def openLeniently (path : String) : Working DataFile := openLabelled path (lenientLabel path)

/-- The name of a path, which has to carry an index. -/
def indexedName (path : String) : Except Error String :=
  match (Path.fileName? path).filter fun name => (FileName.kpoint? name).isSome with
  | some name => .ok name
  | none => .error (.format .invalidFileName)

/-- Opens a file whose name carries an index; under another name nothing is looked at. -/
def openIndexed (path : String) : Working DataFile := do
  let name ← Working.ofExcept (indexedName path)
  openLabelled path name

end DataFile

end Screening
