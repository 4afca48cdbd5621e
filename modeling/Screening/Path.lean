/-!
# Paths

A path is a text in which slashes set names apart; bytes that are not those of a text are no path
here.  This module reads and joins paths as texts; where a path leads is the business of a file
tree.

* `Path.steps` — everything between slashes, as a walk along the path meets it.
* `Path.names` — the names that matter for what a path is called: empty ones and dots are left out.
* `Path.fileName?`, `Path.stem`, `Path.ancestors`, `Path.join`.
-/

set_option autoImplicit false

namespace Screening.Path

/-- The pieces of a text between slashes; there is always one. -/
def splitSlashes : List Char → List (List Char)
  | [] => [[]]
  | c :: rest =>
    match splitSlashes rest with
    | [] => [[c]]
    | piece :: pieces => if c = '/' then [] :: piece :: pieces else (c :: piece) :: pieces

/-- What a walk along the path meets; an empty step stays where it is. -/
def steps (path : String) : List String := (splitSlashes path.toList).map String.ofList

/-- The path begins at the root. -/
def isAbsolute (path : String) : Bool := path.toList.head? == some '/'

/-- The names in a path: neither the empty steps nor the dots, except for a dot at its front. -/
def names (path : String) : List String :=
  match steps path with
  | [] => []
  | first :: rest =>
    (if first = "" then [] else [first]) ++ rest.filter fun name => name ≠ "" ∧ name ≠ "."

/-- The name of what the path leads to; a path that ends in dots gives none. -/
def fileName? (path : String) : Option String :=
  match (names path).getLast? with
  | some name => if name = "." ∨ name = ".." then none else some name
  | none => none

/-- A name without its last point and what follows; a point at the front does not count. -/
def stem (name : String) : String :=
  let backwards := name.toList.reverse
  let before := ((backwards.dropWhile (· ≠ '.')).drop 1).reverse
  if before.isEmpty then name else String.ofList before

/-- The path of a list of names. -/
def ofNames (absolute : Bool) (names : List String) : String :=
  (if absolute then "/" else "") ++ String.intercalate "/" names

/-- The paths that lead to what a path lies in, the nearest first. -/
def ancestors (path : String) : List String :=
  let all := names path
  let heads := (List.range all.length).map fun n => all.take (all.length - 1 - n)
  (heads.map (ofNames (isAbsolute path))).filter (· ≠ "")

/-- The steps left behind a name are the slashes at the end of a path. -/
def onlySlashes (rest : List String) : Bool := !rest.isEmpty && rest.all (· = "")

/-- The steps of a path, the slashes at its end left out, in reverse. -/
def stepsBackwards (path : String) : List String := (steps path).reverse.dropWhile (· = "")

/-- A path followed from another one.  An absolute path stands for itself; otherwise one slash is
put between the two unless the first one brings it along. -/
def join (base path : String) : String :=
  if isAbsolute path then path
  else if base = "" ∨ base.toList.getLast? = some '/' then base ++ path
  else base ++ "/" ++ path

theorem splitSlashes_ne_nil (text : List Char) : splitSlashes text ≠ [] := by
  cases text with
  | nil => simp [splitSlashes]
  | cons c rest =>
    rw [splitSlashes]
    split
    · simp
    · split <;> simp

/-- A text without slashes is one piece. -/
theorem splitSlashes_of_notMem {text : List Char} (h : '/' ∉ text) :
    splitSlashes text = [text] := by
  induction text with
  | nil => rfl
  | cons c rest ih =>
    rw [List.mem_cons, not_or] at h
    rw [splitSlashes, ih h.2]
    exact if_neg fun same => h.1 same.symm

end Screening.Path
