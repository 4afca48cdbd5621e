import Screening.DataFile
import Screening.Report
import Screening.Summary

/-!
# Batches

A batch decodes every file of a directory and writes a report for each.  A file that fails is set
aside with its error and does not stop the others.

Each file is a `Task` of its own that goes through three steps: open, read, write the report.  A
task looks at nothing but its own file and changes nothing but its own report.  `Batch.run` takes
the tasks one after the other, in the order of the names; `Task.step` is there for any other order.
-/

set_option autoImplicit false

namespace Screening.Batch

/-- What a batch is to do. -/
structure Config where
  /-- The directory for reports, as seen from the directory of the files. -/
  outputDirectory : String
  /-- Reports are written. -/
  writeReports : Bool
  /-- How much a report shows. -/
  report : Report.Config
  deriving DecidableEq, Repr

/-- Standard reports in a directory beside the files. -/
def Config.standard : Config := ⟨"readable", true, Report.Config.standard⟩

/-- What came of one file. -/
inductive Status where
  /-- It was decoded, and its report written if there was to be one. -/
  | decoded (summary : Summary) (report : Option String)
  /-- It was set aside. -/
  | failed (cause : Error)
  deriving DecidableEq, Repr

/-- What came of the file at a path. -/
structure Outcome where
  /-- The path. -/
  path : String
  /-- What came of it. -/
  status : Status
  deriving DecidableEq, Repr

/-! ## Finding the files -/

/-- The paths of the files of a directory that are named in the usual way, in the order of their
names. -/
def scan (directory : String) (tree : FileTree) : Except Error (List String) :=
  match tree.locate .look directory with
  | .ok (place, some .directory) =>
    let names := (tree.filesIn place).filter FileName.isStandard
    .ok ((names.mergeSort fun a b => decide (a ≤ b)).map (Path.join directory))
  | _ => .error (.directoryNotFound directory)

/-! ## One file -/

/-- How far the work on one file has come. -/
inductive Task where
  /-- Nothing was done yet. -/
  | waiting (path : String)
  /-- The file was opened and is to be read. -/
  | opened (path label : String) (place : Location)
  /-- The file was decoded and its report is to be written. -/
  | decoded (file : DataFile)
  /-- The work is done. -/
  | finished (outcome : Outcome)

/-- The path of the report on a file in a directory for reports. -/
def reportPath (outputDirectory path : String) : String :=
  let stem := ((Path.fileName? path).map Path.stem).getD ""
  Path.join outputDirectory (stem ++ "_readable.txt")

/-- Opens a file whose name carries an index. -/
def openTask (path : String) : Working Task := do
  let label ← Working.ofExcept (DataFile.indexedName path)
  Working.note (.opening path)
  let place ← Working.ask (·.open? path)
  return .opened path label place

/-- A file that was decoded, when no report is to be written. -/
def decodedOutcome (file : DataFile) (report : Option String) : Outcome :=
  ⟨file.path, .decoded (Summary.ofContents file.contents file.kpoint) report⟩

/-- Reads a file that was opened. -/
def readTask (config : Config) (path label : String) (place : Location) : Working Task := do
  let file ← DataFile.load path label place
  if config.writeReports then return .decoded file
  else return .finished (decodedOutcome file none)

/-- The bytes of the report on a file. -/
def reportBytes (config : Config) (file : DataFile) : List UInt8 :=
  (Report.text file.contents file.kpoint config.report).toUTF8.toList

/-- Writes the report on a file that was decoded. -/
def writeTask (config : Config) (outputDirectory : String) (file : DataFile) : Working Task := do
  let path := reportPath outputDirectory file.path
  Working.change (FileTree.writeFile path (reportBytes config file))
  Working.note (.reportWritten path)
  return .finished (decodedOutcome file (some path))

namespace Task

/-- The file that a task is about. -/
def path : Task → String
  | waiting path => path
  | opened path _ _ => path
  | decoded file => file.path
  | finished outcome => outcome.path

/-- The next step of a task, which may fail. -/
def advance (config : Config) (outputDirectory : String) : Task → Working Task
  | waiting path => openTask path
  | opened path label place => readTask config path label place
  | decoded file => writeTask config outputDirectory file
  | finished outcome => pure (finished outcome)

/-- The next step of a task; one that fails is finished. -/
def step (config : Config) (outputDirectory : String) (task : Task) (w : Workspace) :
    Task × Workspace :=
  match task.advance config outputDirectory w with
  | .ok next w' => (next, w')
  | .error cause w' =>
    (finished ⟨task.path, .failed cause⟩,
      { w' with journal := w'.journal.push (.skipped task.path cause) })

/-- Steps that finish any task. -/
def stepsToFinish : Nat := 3

/-- Several steps of a task. -/
def steps (config : Config) (outputDirectory : String) : Nat → Task → Workspace → Task × Workspace
  | 0, task, w => (task, w)
  | count + 1, task, w =>
    let (next, w') := step config outputDirectory task w
    steps config outputDirectory count next w'

/-- What came of the file, once the task is finished. -/
def outcome? : Task → Option Outcome
  | finished outcome => some outcome
  | _ => none

end Task

/-! ## All files -/

/-- Takes the tasks of files one after the other, each to its end. -/
def runTasks (config : Config) (outputDirectory : String) :
    List String → Workspace → List Outcome × Workspace
  | [], w => ([], w)
  | path :: paths, w =>
    let (task, w') := Task.steps config outputDirectory Task.stepsToFinish (.waiting path) w
    let (outcomes, w'') := runTasks config outputDirectory paths w'
    (task.outcome?.toList ++ outcomes, w'')

/-- Decodes every file of a directory. -/
def run (directory : String) (config : Config) : Working (List Outcome) := do
  let paths ← Working.ofExcept (scan directory (← get).tree)
  Working.note (.filesFound paths.length directory)
  let outputDirectory := Path.join directory config.outputDirectory
  if config.writeReports && !paths.isEmpty then
    Working.change (FileTree.makeDirectories outputDirectory)
  let (outcomes, w) := runTasks config outputDirectory paths (← get)
  set w
  return outcomes

end Screening.Batch
