import Screening.CommandLine

/-!
# The program

The commands work on a file tree that is a value.  The program takes a picture of the files that
its arguments lead to, runs on that, prints what came out, and writes the files that are new.
-/

set_option autoImplicit false

namespace Screening.Program

open CommandLine

/-! ## Taking the picture -/

/-- The location of an absolute path. -/
def locationOf (path : String) : Location := (Path.names path).reverse

/-- The absolute path of a location. -/
def pathOf (place : Location) : String := "/" ++ String.intercalate "/" place.reverse

/-- Adds what is at a location, with its bytes if it is a file and they are wanted. -/
def addPlace (tree : FileTree) (place : Location) (bytesWanted : Bool) : IO FileTree := do
  let here := (← IO.currentDir) / pathOf place
  match ← here.metadata.toBaseIO with
  | .error _ => return tree
  | .ok found =>
    if found.type == .dir then
      return tree.plant place .directory
    else if bytesWanted then
      let bytes ← IO.FS.readBinFile here
      return tree.plant place (.file bytes.toList)
    else
      return tree.plant place (.file [])

/-- Adds everything along the steps of a path. -/
def addSteps (tree : FileTree) (place : Location) : List String → IO FileTree
  | [] => return tree
  | step :: rest =>
    if step = "" ∨ step = "." then addSteps tree place rest
    else if step = ".." then addSteps tree place.tail rest
    else do
      let inner := step :: place
      addSteps (← addPlace tree inner (rest.all (· = ""))) inner rest

/-- Adds everything along a path. -/
def addPath (tree : FileTree) (path : String) : IO FileTree :=
  addSteps tree (FileTree.start tree.workingDirectory path) (Path.steps path)

/-- Adds the data files of a directory, and the places where their reports go. -/
def addDirectory (tree : FileTree) (directory : String) : IO FileTree := do
  let tree ← addPath tree directory
  let output := Path.join directory Batch.Config.standard.outputDirectory
  let mut tree ← addPath tree output
  if tree.isDirectory directory then
    let here := (← IO.currentDir) / directory
    for entry in ← here.readDir do
      if FileName.isStandard entry.fileName then
        let path := Path.join directory entry.fileName
        if (← entry.path.symlinkMetadata).type == .file then
          tree ← addPath tree path
          tree ← addPath tree (Batch.reportPath output path)
  return tree

/-- The files that a request leads to. -/
def pictureFor (request : Request) : IO FileTree := do
  let working := locationOf (← IO.currentDir).toString
  let tree := (FileTree.empty working).plant working .directory
  match request with
  | .run (.inspect file ..) _ => addPath tree file
  | .run (.records file ..) _ => addPath tree file
  | .run (.convert directory _) _ => addDirectory tree directory
  | _ => return tree

/-! ## Leaving the results -/

/-- Writes what is at a location if it differs from what was there. -/
def writeEntry (before : FileTree) (entry : Location × Entry) : IO Unit := do
  if before.entryAt? entry.1 ≠ some entry.2 then
    match entry.2 with
    | .directory => IO.FS.createDirAll (pathOf entry.1)
    | .file bytes => IO.FS.writeBinFile (pathOf entry.1) ⟨bytes.toArray⟩
    | .link _ => return ()

/-- A note is shown: all of them if asked for, and otherwise the important ones. -/
def isShown (verbose : Bool) (event : Event) : Bool := verbose || event.level != .debug

/-- Whether a request asks for all notes. -/
def isVerbose : Request → Bool
  | .run _ verbose => verbose
  | _ => false

/-- Runs the program and answers its exit code. -/
def runProgram (arguments : List String) : IO UInt32 := do
  let request := Request.ofArguments arguments
  let tree ← pictureFor request
  let (result, w) := respond request ⟨tree, #[]⟩
  for entry in w.tree.entries.reverse do
    writeEntry tree entry
  for event in w.journal do
    if isShown (isVerbose request) event then IO.eprintln event.line
  IO.print result.output
  IO.eprint result.errors
  return UInt32.ofNat result.exitCode

end Screening.Program

/-- The program. -/
def main (arguments : List String) : IO UInt32 := Screening.Program.runProgram arguments
