import Screening.FileTree
import Screening.Journal

/-!
# Workspaces

A workspace is what operations on files work in: a file tree, and the journal of what was done.
Operations live in `Working`, where a failure keeps the workspace as it stood.
-/

set_option autoImplicit false

namespace Screening

/-- A file tree and the notes so far, the oldest first. -/
structure Workspace where
  /-- The files. -/
  tree : FileTree
  /-- The notes. -/
  journal : Array Event

/-- Operations in a workspace that may fail. -/
abbrev Working := EStateM Error Workspace

namespace Working

/-- Adds notes. -/
def noteAll (events : Array Event) : Working Unit :=
  modify fun w => { w with journal := w.journal ++ events }

/-- Adds a note. -/
def note (event : Event) : Working Unit := noteAll #[event]

/-- The answer to a question about the files. -/
def ask {α : Type} (question : FileTree → Except IoError α) : Working α := do
  match question (← get).tree with
  | .ok x => return x
  | .error cause => throw (.io cause)

/-- Changes the files. -/
def change (edit : FileTree.Change Unit) : Working Unit := fun w =>
  match edit w.tree with
  | .ok () tree => .ok () { w with tree }
  | .error cause tree => .error (.io cause) { w with tree }

/-- A result that was found without looking at the files. -/
def ofExcept {α : Type} : Except Error α → Working α
  | .ok x => pure x
  | .error cause => throw cause

/-- The result of an operation and the workspace after it, whether it failed or not. -/
def outcome {α : Type} (operation : Working α) (w : Workspace) : Except Error α × Workspace :=
  match operation w with
  | .ok x w' => (.ok x, w')
  | .error cause w' => (.error cause, w')

end Working

end Screening
