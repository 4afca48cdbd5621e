import Screening.Error
import Screening.Path

/-!
# File trees

A tree holds files, directories and symbolic links, each at a location; a location is the list of
names that leads to it, the innermost first.  The root is a directory and needs no entry.  Names are
texts: a name whose bytes are not those of a text is in no tree.

* `FileTree.locate` — follows a path, links included, to a location; only its last name may be
  missing.  A path for a file to be written must not end in a slash, nor may that of a link at its
  end.
* `open?`, `bytesAt`, `mappedAt`, `isDirectory`, `filesIn` — looking at a tree.
* `writeFile`, `makeDirectory`, `makeDirectories` — changing one.

`entryAt?_put` says all about how a change shows.
-/

set_option autoImplicit false

namespace Screening

/-- What is at a location. -/
inductive Entry where
  /-- A file with its bytes. -/
  | file (bytes : List UInt8)
  /-- A directory. -/
  | directory
  /-- A symbolic link with the path that it stands for. -/
  | link (target : String)
  deriving DecidableEq, Repr

/-- The names that lead to a place, the innermost first; the root has none. -/
abbrev Location := List String

/-- Files, directories and links, and the directory from which relative paths start. -/
structure FileTree where
  /-- What is where. -/
  entries : List (Location × Entry)
  /-- Where relative paths start. -/
  workingDirectory : Location
  /-- One thing is at a location. -/
  nodup : (entries.map Prod.fst).Nodup

namespace FileTree

/-! ## Entries -/

/-- A tree with nothing in it. -/
def empty (workingDirectory : Location) : FileTree := ⟨[], workingDirectory, List.nodup_nil⟩

/-- What is at a location, if anything is. -/
def entryAt? (tree : FileTree) : Location → Option Entry
  | [] => some .directory
  | name :: outer => tree.entries.lookup (name :: outer)

/-- Puts something at a location, in place of what is there. -/
def put (tree : FileTree) (place : Location) (entry : Entry) : FileTree where
  entries := (place, entry) :: tree.entries.filter (·.1 ≠ place)
  workingDirectory := tree.workingDirectory
  nodup := by
    rw [List.map_cons, List.nodup_cons]
    constructor
    · simp
    · exact tree.nodup.sublist (List.filter_sublist.map _)

theorem lookup_filter_ne {β : Type} (entries : List (Location × β)) {place other : Location}
    (h : other ≠ place) :
    (entries.filter (·.1 ≠ place)).lookup other = entries.lookup other := by
  induction entries with
  | nil => rfl
  | cons pair rest ih =>
    obtain ⟨key, value⟩ := pair
    by_cases hkey : key = place
    · subst hkey
      have differs : (other == key) = false := by simpa using h
      simpa [List.lookup_cons, differs] using ih
    · by_cases hother : other = key
      · subst hother
        simp [hkey]
      · have differs : (other == key) = false := by simpa using hother
        simpa [List.lookup_cons, differs, hkey] using ih

/-- **A change shows at its own location and nowhere else.** -/
theorem entryAt?_put (tree : FileTree) {place : Location} (hplace : place ≠ []) (entry : Entry)
    (other : Location) :
    (tree.put place entry).entryAt? other =
      if other = place then some entry else tree.entryAt? other := by
  cases other with
  | nil => rw [if_neg (Ne.symm hplace)]; rfl
  | cons name outer =>
    by_cases h : name :: outer = place
    · rw [if_pos h]
      simp [entryAt?, put, h]
    · have differs : (name :: outer == place) = false := by simpa using h
      rw [if_neg h]
      simp only [entryAt?, put, List.lookup_cons, differs]
      exact lookup_filter_ne tree.entries h

@[simp] theorem workingDirectory_put (tree : FileTree) (place : Location) (entry : Entry) :
    (tree.put place entry).workingDirectory = tree.workingDirectory := rfl

/-- Puts directories at a location and everywhere on the way to it where nothing is yet. -/
def ensureDirectories (tree : FileTree) : Location → FileTree
  | [] => tree
  | name :: outer =>
    let tree := tree.ensureDirectories outer
    match tree.entryAt? (name :: outer) with
    | some _ => tree
    | none => tree.put (name :: outer) .directory

/-- Puts something at a location, and directories on the way to it where nothing is yet. -/
def plant (tree : FileTree) (place : Location) (entry : Entry) : FileTree :=
  (tree.ensureDirectories place.tail).put place entry

/-! ## Following paths -/

/-- What a path is followed for. -/
inductive Purpose where
  /-- To look at what is there. -/
  | look
  /-- To write a file there. -/
  | write
  deriving DecidableEq, Repr

/-- The most links that are followed along one path. -/
def maxLinks : Nat := 40

/-- The most bytes of one name. -/
def maxNameBytes : Nat := 255

/-- The most bytes of a path. -/
def maxPathBytes : Nat := 4095

/-- Refuses a path that is not one wherever it is asked for. -/
def checkPath (path : String) : Except IoError Unit :=
  if '\x00' ∈ path.toList then .error .nulInPath
  else if path = "" then .error .notFound
  else if maxPathBytes < path.utf8ByteSize then .error .nameTooLong
  else .ok ()

/-- Where a path starts that is met in a directory. -/
def start (directory : Location) (path : String) : Location :=
  if Path.isAbsolute path then [] else directory

/-- Follows steps from a place.  Everything on the way has to be a directory or a link to one; only
what the last step names may be missing.  A slash behind the last name asks for a directory, which
no file to be written is.  The answer is the location with what is there. -/
def follow (tree : FileTree) (purpose : Purpose) (links : Nat) (place : Location) :
    List String → Except IoError (Location × Option Entry)
  | [] => .ok (place, tree.entryAt? place)
  | step :: rest =>
    if tree.entryAt? place ≠ some .directory then .error .notADirectory
    else if step = "" ∨ step = "." then tree.follow purpose links place rest
    else if step = ".." then tree.follow purpose links place.tail rest
    else if purpose = .write ∧ Path.onlySlashes rest then .error .isADirectory
    else if maxNameBytes < step.utf8ByteSize then .error .nameTooLong
    else
      match tree.entryAt? (step :: place) with
      | some (.link target) =>
        match links with
        | 0 => .error .tooManyLinks
        | links + 1 => tree.follow purpose links (start place target) (Path.steps target ++ rest)
      | some _ => tree.follow purpose links (step :: place) rest
      | none => if rest.isEmpty then .ok (step :: place, none) else .error .notFound
termination_by steps => (links, steps.length)

/-- Follows a path from the working directory. -/
def locate (tree : FileTree) (purpose : Purpose) (path : String) :
    Except IoError (Location × Option Entry) := do
  checkPath path
  tree.follow purpose maxLinks (start tree.workingDirectory path) (Path.steps path)

/-! ## Looking -/

/-- The location of what a path leads to, which has to be there. -/
def open? (tree : FileTree) (path : String) : Except IoError Location := do
  match ← tree.locate .look path with
  | (place, some _) => return place
  | (_, none) => throw .notFound

/-- The bytes that are read from what was opened at a location; a directory can be opened, but not
read. -/
def bytesAt (tree : FileTree) (place : Location) : Except IoError (List UInt8) :=
  match tree.entryAt? place with
  | some (.file bytes) => .ok bytes
  | some .directory => .error .isADirectory
  | _ => .error .notFound

/-- The length of a directory, whatever is in it. -/
def directoryLength : Nat := 4096

/-- The length of what was opened at a location. -/
def lengthAt (tree : FileTree) (place : Location) : Except IoError Nat :=
  match tree.entryAt? place with
  | some (.file bytes) => .ok bytes.length
  | some .directory => .ok directoryLength
  | _ => .error .notFound

/-- The bytes of what was opened at a location, as a map in memory shows them; a directory cannot be
mapped either. -/
def mapAt (tree : FileTree) (place : Location) : Except IoError (List UInt8) :=
  match tree.entryAt? place with
  | some (.file bytes) => .ok bytes
  | some .directory => .error .noSuchDevice
  | _ => .error .notFound

/-- The bytes of what was opened at a location, which are mapped unless there are none. -/
def mappedAt (tree : FileTree) (place : Location) : Except IoError (List UInt8) := do
  if (← tree.lengthAt place) = 0 then return [] else tree.mapAt place

/-- **A map shows the bytes of a file**, and where nothing is mapped there are none. -/
theorem mappedAt_file {tree : FileTree} {place : Location} {bytes : List UInt8}
    (h : tree.entryAt? place = some (.file bytes)) : tree.mappedAt place = .ok bytes := by
  have hlength : tree.lengthAt place = .ok bytes.length := by rw [lengthAt, h]
  have hmap : tree.mapAt place = .ok bytes := by rw [mapAt, h]
  rw [mappedAt, hlength, hmap]
  cases bytes <;> rfl

theorem mappedAt_congr {tree other : FileTree} {place : Location}
    (h : other.entryAt? place = tree.entryAt? place) :
    other.mappedAt place = tree.mappedAt place := by
  rw [mappedAt, mappedAt, lengthAt, lengthAt, mapAt, mapAt, h]

/-- A path leads to a directory. -/
def isDirectory (tree : FileTree) (path : String) : Bool :=
  match tree.locate .look path with
  | .ok (_, some .directory) => true
  | _ => false

/-- The name of an entry if it is a file in the given directory. -/
def fileNameIn? (directory : Location) : Location × Entry → Option String
  | (name :: outer, .file _) => if outer = directory then some name else none
  | _ => none

/-- The names of the files in a directory, in no particular order; links do not count. -/
def filesIn (tree : FileTree) (directory : Location) : List String :=
  tree.entries.filterMap (fileNameIn? directory)

/-! ## Changing -/

/-- Operations on a tree; a failure keeps the tree as it stood then. -/
abbrev Change := EStateM IoError FileTree

/-- Follows the steps before the last name of a path, which have to lead to a directory. -/
def locateParent (tree : FileTree) (path : String) : Except IoError Location := do
  let steps := (Path.stepsBackwards path).tail.reverse
  match ← tree.follow .look maxLinks (start tree.workingDirectory path) steps with
  | (place, some .directory) => return place
  | (_, some _) => throw .notADirectory
  | (_, none) => throw .notFound

/-- Where a file can be written under a path: at the location of a file that is there, or at one
where nothing is. -/
def placeForFile (tree : FileTree) (path : String) : Except IoError Location := do
  match ← tree.locate .write path with
  | (_, some .directory) => throw .isADirectory
  | (place, _) => return place

/-- Writes a file, in place of one that is there. -/
def writeFile (path : String) (bytes : List UInt8) : Change Unit := fun tree =>
  match tree.placeForFile path with
  | .ok place => .ok () (tree.put place (.file bytes))
  | .error cause => .error cause tree

/-- Where a directory can be made under a path: in a directory that is there, under a name that is
not. -/
def placeForDirectory (tree : FileTree) (path : String) : Except IoError Location := do
  checkPath path
  let outer ← tree.locateParent path
  match Path.stepsBackwards path with
  | [] => throw .alreadyExists
  | name :: _ =>
    if name = "." ∨ name = ".." then throw .alreadyExists
    if maxNameBytes < name.utf8ByteSize then throw .nameTooLong
    if (tree.entryAt? (name :: outer)).isSome then throw .alreadyExists
    return name :: outer

/-- Makes a directory. -/
def makeDirectory (path : String) : Change Unit := fun tree =>
  match tree.placeForDirectory path with
  | .ok place => .ok () (tree.put place .directory)
  | .error cause => .error cause tree

/-- Makes a directory, or is content with one that is there. -/
def makeDirectoryUnlessThere (path : String) : Change Unit := fun tree =>
  match makeDirectory path tree with
  | .error .alreadyExists tree' =>
    if tree'.isDirectory path then .ok () tree' else .error .alreadyExists tree'
  | result => result

/-- Makes a directory; where what it is to be in is missing, that is made first. -/
def makeWithin (path : String) : List String → Change Unit
  | [] => makeDirectoryUnlessThere path
  | outer :: others => fun tree =>
    match makeDirectoryUnlessThere path tree with
    | .error .notFound tree' =>
      match makeWithin outer others tree' with
      | .ok () tree'' => makeDirectoryUnlessThere path tree''
      | failure => failure
    | result => result

/-- Makes a directory and all directories around it that are missing. -/
def makeDirectories (path : String) : Change Unit :=
  if path = "" then pure () else makeWithin path (Path.ancestors path)

end FileTree

end Screening
