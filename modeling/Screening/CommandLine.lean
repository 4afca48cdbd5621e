import Screening.Batch
import Screening.CommandLine.Arguments
import Screening.Hex
import Screening.Json.Summary
import Screening.Probe

/-!
# The commands of the command line

`CommandLine.execute` does what a command says in a workspace and gives the text to print, or a
failure to report.  `CommandLine.run` adds the arguments before and the exit code behind.
-/

set_option autoImplicit false

namespace Screening.CommandLine

/-! ## Failures -/

/-- A failure as a person is told of it: what did not work, and why. -/
structure Failure where
  /-- What did not work. -/
  message : String
  /-- Why, the nearest cause first. -/
  causes : List String
  deriving DecidableEq, Repr

/-- What did not work because of an error. -/
def Failure.because (message : String) (cause : Error) : Failure := ⟨message, cause.chain⟩

/-- A text with blanks in front of each further line. -/
def indentLines (blanks : String) (text : String) : String :=
  String.ofList (text.toList.flatMap fun c => if c = '\n' then '\n' :: blanks.toList else [c])

/-- One cause of several, with its number. -/
def numberedCause (number : Nat) (cause : String) : String :=
  "    " ++ toString number ++ ": " ++ indentLines "       " cause

/-- The causes of a failure; several of them are numbered from zero. -/
def causeLines : List String → List String
  | [cause] => ["    " ++ indentLines "    " cause]
  | causes => causes.mapIdx numberedCause

/-- The lines that report a failure. -/
def Failure.lines (failure : Failure) : List String :=
  ("Error: " ++ failure.message) ::
    if failure.causes.isEmpty then [] else "" :: "Caused by:" :: causeLines failure.causes

/-! ## Commands -/

/-- A command gives the text to print, or a failure, and leaves a workspace. -/
abbrev Run := EStateM Failure Workspace

/-- An operation whose error is reported under a message. -/
def attempt {α : Type} (message : String) (operation : Working α) : Run α := fun w =>
  match operation w with
  | .ok x w' => .ok x w'
  | .error cause w' => .error (Failure.because message cause) w'

/-- Shows one file. -/
def inspect (file : String) (json : Bool) (rows cols : Nat) : Run String := do
  let found ← attempt ("Failed to read " ++ file) (DataFile.openLeniently file)
  if json then
    return (JsonForm.toJson (Summary.ofContents found.contents found.kpoint)).pretty ++ "\n"
  else
    let config := { Report.Config.standard with previewRows := rows, previewCols := cols }
    return Report.text found.contents found.kpoint config

/-- A file that was decoded. -/
def succeeded : Batch.Status → Bool
  | .decoded .. => true
  | .failed _ => false

/-- What came of one file. -/
def outcomeLine (outcome : Batch.Outcome) : String :=
  match outcome.status with
  | .decoded summary report =>
    let written := match report with
      | some path => "  -> " ++ path
      | none => ""
    s!"OK    {outcome.path}  ngvector={summary.ngvector}" ++ written
  | .failed cause => s!"FAIL  {outcome.path}  {cause.message}"

/-- Decodes a directory. -/
def convert (directory : String) (writeReports : Bool) : Run String := do
  let config := { Batch.Config.standard with writeReports }
  let outcomes ← attempt ("Failed to process " ++ directory) (Batch.run directory config)
  if outcomes.isEmpty then
    throw ⟨"No WFULLXXXX.tmp files found in " ++ directory, []⟩
  let good := outcomes.countP (succeeded ·.status)
  return Report.render (outcomes.map outcomeLine ++
    ["", s!"{good} of {outcomes.length} files decoded"])

/-- A number moved to the right of a field. -/
def column (width n : Nat) : String :=
  let digits := toString n
  String.ofList (List.replicate (width - digits.length) ' ') ++ digits

/-- What a record would be in a file. -/
def role (record : ProbedRecord) : String :=
  match record.expectedKind with
  | none => "-"
  | some kind =>
    match record.expectedCount with
    | some n => s!"{kind.name}: {n} x {kind.elementType.name}"
    | none => s!"{kind.name}: not whole {kind.elementType.name}"

/-- How many elements of a type a record holds. -/
def countText (record : ProbedRecord) (type : ElementType) : String :=
  match record.count type with
  | some n => s!"{type.name}={n}"
  | none => s!"{type.name}=-"

/-- The lines on one record; its first bytes are shown if any are asked for. -/
def recordLines (hex : Nat) (record : ProbedRecord) : List String :=
  let counts := String.intercalate " " (ElementType.all.map (countText record))
  let place := s!"Record {column 3 record.index} @ {column 10 record.offset}"
  let line := s!"{place}  {column 10 record.length} bytes  [{role record}]  {counts}"
  if hex = 0 then [line] else [line, "    " ++ Hex.preview record.preview hex]

/-- The source that a path opens, which is read and not mapped. -/
def openSource (file : String) (tree : FileTree) : Except IoError Source := do
  let place ← tree.open? file
  match tree.bytesAt place with
  | .ok bytes => return Source.ofBytes bytes
  | .error cause => return Source.refusing cause

/-- Lists the records of any file. -/
def records (file : String) (limit : Option Nat) (hex : Nat) : Run String := do
  match openSource file (← get).tree with
  | .error cause => throw ⟨"Failed to open " ++ file, [cause.message]⟩
  | .ok source =>
    let walk : Working (List ProbedRecord) := do
      let (result, reader) := probeRecords source limit hex
      Working.noteAll reader.journal
      Working.ofExcept result
    let found ← attempt ("Failed to walk records of " ++ file) walk
    return Report.render (found.flatMap (recordLines hex) ++ [s!"{found.length} records"])

/-- Does what a command says. -/
def execute : Command → Run String
  | .inspect file json rows cols => inspect file json rows cols
  | .convert directory writeReports => convert directory writeReports
  | .records file limit hex => records file limit hex

/-! ## The program -/

/-- How a run of the program ends. -/
structure Result where
  /-- The exit code. -/
  exitCode : Nat
  /-- What was printed. -/
  output : String
  /-- What was printed for the person at the screen. -/
  errors : String
  deriving DecidableEq, Repr

/-- The version of the program. -/
def versionLine : String := "wfull 0.1.0"

/-- A reminder of the commands. -/
def usageLines : List String :=
  ["Usage: wfull [-v] inspect <FILE> [--json] [--rows <ROWS>] [--cols <COLS>]",
   "       wfull [-v] convert <DIR> [--no-write]",
   "       wfull [-v] records <FILE> [--limit <LIMIT>] [--hex <HEX>]"]

/-- The exit code of a command that failed. -/
def failureCode : Nat := 1

/-- The exit code of arguments that make no sense. -/
def misuseCode : Nat := 2

/-- Does what a request says. -/
def respond (request : Request) (w : Workspace) : Result × Workspace :=
  match request with
  | .help => (⟨0, Report.render usageLines, ""⟩, w)
  | .version => (⟨0, Report.render [versionLine], ""⟩, w)
  | .misuse => (⟨misuseCode, "", Report.render usageLines⟩, w)
  | .run command _ =>
    match execute command w with
    | .ok output w' => (⟨0, output, ""⟩, w')
    | .error failure w' => (⟨failureCode, "", Report.render failure.lines⟩, w')

/-- Runs the program on its arguments. -/
def run (arguments : List String) (w : Workspace) : Result × Workspace :=
  respond (Request.ofArguments arguments) w

end Screening.CommandLine
