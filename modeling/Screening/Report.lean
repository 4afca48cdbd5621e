import Screening.Decimal.Layout
import Screening.Statistics

/-!
# Reports

A report is what a person is told of a file: where it came from, its sizes, its header, the shapes
of its matrices, the top left corner of each, and their statistics.  It is a list of lines, put
together section by section; `Report.render` ends each with a line break.

`Report.numbers` is the one layout of its numbers.
-/

set_option autoImplicit false

namespace Screening

open Decimal

namespace Report

/-- How much of a file a report shows. -/
structure Config where
  /-- Rows shown of each matrix. -/
  previewRows : Nat
  /-- Columns shown of the response matrix; both wings are shown in full width. -/
  previewCols : Nat
  /-- Values of the header that are listed once more. -/
  headerPreview : Nat
  deriving DecidableEq, Repr

/-- Five rows, five columns and eight values of the header. -/
def Config.standard : Config := ⟨5, 5, 8⟩

/-! ## Numbers and titles -/

/-- Numbers have six places, an exponent of two digits or more, and twelve columns. -/
def numbers : Layout := ⟨6, 2, 12⟩

/-- A number with an exponent in its columns. -/
def scientific (x : Binary64) : String := numbers.scientific x

/-- A number with an exponent, without the blanks in front. -/
def bareScientific (x : Binary64) : String := String.ofList (numbers.scientificText x)

/-- A number without an exponent in its columns. -/
def fixed (x : Binary64) : String := numbers.fixed x

/-- A number without an exponent, without the blanks in front. -/
def bareFixed (x : Binary64) : String := String.ofList (numbers.fixedText x)

/-- A line under a title. -/
def rule (width : Nat) : String := String.ofList (List.replicate width '-')

/-- A title with a colon, and a line of the same width under it. -/
def heading (title : String) : List String := [title ++ ":", rule (title.length + 1)]

/-! ## Sections -/

/-- Where the file came from. -/
def fileInformation (c : Contents) (kpoint : Option Nat) : List String :=
  let index := match kpoint with
    | some n => toString n
    | none => "unknown"
  heading "File Information" ++
    ["Source: " ++ c.source,
     "K-point index: " ++ index,
     "Possible frequency point: " ++ bareFixed c.header.possibleFrequency,
     ""]

/-- The sizes of the file. -/
def sizes (c : Contents) : List String :=
  heading "Dimensions" ++
    [s!"ngvector: {c.dimensions.ngvector}", s!"ngvector2: {c.dimensions.ngvector2}", ""]

/-- The header on one line, and its first values once more. -/
def header (h : Header) (preview : Nat) : List String :=
  let shown := h.values.take preview
  heading s!"Header Block ({Header.length} values)" ++
    [String.join (h.values.map fun x => " " ++ fixed x),
     "",
     "Possible metadata from header:",
     s!"First {shown.length} values: " ++ String.intercalate ", " (shown.map bareFixed),
     ""]

/-- The name of a matrix in a report. -/
def matrixName : RecordKind → String
  | .response => "Response"
  | kind => kind.name

/-- The matrices of a file with their kinds. -/
def matrices (c : Contents) : List (RecordKind × ComplexMatrix) :=
  [(.wing, c.wing), (.cwing, c.cwing), (.response, c.response)]

/-- The shape of each matrix. -/
def shapes (c : Contents) : List String :=
  heading "Matrix Shapes" ++
    (matrices c).map (fun entry =>
      matrixName entry.1 ++ " matrix shape: " ++ FormatError.shapeText entry.2.shape) ++
    [""]

/-- One part of a block, a line for each row. -/
def part (block : List (List Complex128)) (select : Complex128 → Binary64) : List String :=
  block.map fun row => String.intercalate " " (row.map fun z => scientific (select z))

/-- The corner at the top left of a matrix: its size, its real and its imaginary part. -/
def block (name : String) (shown : List (List Complex128)) : List String :=
  let width := (shown.head?.map List.length).getD 0
  heading s!"{name} Matrix (first {shown.length}x{width} block)" ++
    "Real part:" :: part shown Complex128.re ++
    "" :: "Imaginary part:" :: part shown Complex128.im ++
    [""]

/-- The columns that a report shows of a matrix. -/
def columnsShown (config : Config) (kind : RecordKind) (m : ComplexMatrix) : Nat :=
  match kind with
  | .response => config.previewCols
  | _ => m.ncols

/-- The corner of one matrix as far as a report shows it. -/
def corner (config : Config) (entry : RecordKind × ComplexMatrix) : List String :=
  let (kind, m) := entry
  block (matrixName kind) (m.block config.previewRows (columnsShown config kind m))

/-- The statistics of one part of a matrix. -/
def partStatistics (label nothing : String) : Option PartStatistics → List String
  | some s =>
    [label ++ ":",
     "Mean value: " ++ bareScientific s.mean,
     "Standard deviation: " ++ bareScientific s.stdDev,
     "Minimum value: " ++ bareScientific s.min,
     "Maximum value: " ++ bareScientific s.max]
  | none => ["No finite values found in the " ++ nothing]

/-- The statistics of one matrix. -/
def statistics (entry : RecordKind × ComplexMatrix) : List String :=
  let name := matrixName entry.1
  let stats := MatrixStatistics.ofMatrix entry.2
  ["", name ++ " Matrix Statistics:", rule (name.length + 18)] ++
    partStatistics "Real part" "real part" stats.real ++
    partStatistics "Imaginary part" "imaginary part" stats.imag

/-- The lines of a report. -/
def lines (c : Contents) (kpoint : Option Nat) (config : Config) : List String :=
  ["WFULL File Contents", "=================", ""] ++
    fileInformation c kpoint ++
    sizes c ++
    header c.header config.headerPreview ++
    shapes c ++
    (matrices c).flatMap (corner config) ++
    (matrices c).flatMap statistics

/-- The text of lines, a line break after each. -/
def render (lines : List String) : String := String.join (lines.map (· ++ "\n"))

/-- The text of a report. -/
def text (c : Contents) (kpoint : Option Nat) (config : Config) : String :=
  render (lines c kpoint config)

end Report

end Screening
