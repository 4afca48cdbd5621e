import Screening.DataFile

/-!
# Operations that only look

Opening a file changes nothing but the journal, and what it gives depends on the files alone.

* `Working.Looks operation answer` — an operation gives the answer about the files, and leaves them
  as they are.  `Looks.bind` puts such operations together.
* `DataFile.loadFrom`, `DataFile.openedIn` — the answers of `DataFile.load` and
  `DataFile.openIndexed`, as functions of the tree.
-/

set_option autoImplicit false

namespace Screening

section Except

variable {ε ε' α β : Type}

/-- A computation of two parts that succeeds does so in both. -/
theorem exists_of_bind_eq_ok {first : Except ε α} {next : α → Except ε β} {y : β}
    (h : (first >>= next) = .ok y) : ∃ x, first = .ok x ∧ next x = .ok y := by
  cases first with
  | error cause => cases h
  | ok x => exact ⟨x, rfl, h⟩

theorem eq_ok_of_mapError {x : Except ε α} {f : ε → ε'} {a : α} (h : x.mapError f = .ok a) :
    x = .ok a := by
  cases x with
  | error cause => cases h
  | ok _ =>
    cases h
    rfl

end Except

namespace Working

variable {α β : Type}

/-- The result of an operation that leaves a workspace. -/
def result : Except Error α → Workspace → EStateM.Result Error Workspace α
  | .ok x, w => .ok x w
  | .error cause, w => .error cause w

/-- Two operations one after the other. -/
theorem bind_eq (operation : Working α) (next : α → Working β) (w : Workspace) :
    (operation >>= next) w =
      match operation w with
      | .ok x later => next x later
      | .error cause later => .error cause later := by
  show EStateM.bind operation next w = _
  rw [EStateM.bind]
  cases operation w <;> rfl

theorem get_eq (w : Workspace) : (get : Working Workspace) w = .ok w w := rfl

theorem note_eq (event : Event) (w : Workspace) :
    Working.note event w = .ok () { w with journal := w.journal ++ #[event] } := rfl

theorem ofExcept_eq (x : Except Error α) (w : Workspace) : Working.ofExcept x w = result x w := by
  cases x <;> rfl

/-- An operation gives an answer about the files and leaves them as they are. -/
def Looks (operation : Working α) (answer : FileTree → Except Error α) : Prop :=
  ∀ w, ∃ journal, operation w = result (answer w.tree) ⟨w.tree, journal⟩

namespace Looks

theorem pure (x : α) : Looks (Pure.pure x) fun _ => .ok x := fun w => ⟨w.journal, rfl⟩

theorem noteAll (events : Array Event) : Looks (Working.noteAll events) fun _ => .ok () :=
  fun w => ⟨w.journal ++ events, rfl⟩

theorem note (event : Event) : Looks (Working.note event) fun _ => .ok () := noteAll #[event]

theorem ofExcept (x : Except Error α) : Looks (Working.ofExcept x) fun _ => x := by
  intro w
  cases x <;> exact ⟨w.journal, rfl⟩

theorem ask (question : FileTree → Except IoError α) :
    Looks (Working.ask question) fun tree => (question tree).mapError .io := by
  intro w
  refine ⟨w.journal, ?_⟩
  rw [Working.ask, bind_eq, get_eq]
  dsimp only
  cases question w.tree <;> rfl

/-- **Looking twice is looking**: the second operation finds the files as the first one did. -/
theorem bind {operation : Working α} {next : α → Working β} {answer : FileTree → Except Error α}
    {later : α → FileTree → Except Error β} (h : Looks operation answer)
    (hnext : ∀ x, Looks (next x) (later x)) :
    Looks (operation >>= next) fun tree => answer tree >>= fun x => later x tree := by
  intro w
  obtain ⟨journal, hfirst⟩ := h w
  show ∃ journal, (operation >>= next) w =
    result (answer w.tree >>= fun x => later x w.tree) ⟨w.tree, journal⟩
  rw [bind_eq, hfirst]
  cases answer w.tree with
  | error cause => exact ⟨journal, rfl⟩
  | ok x => exact hnext x ⟨w.tree, journal⟩

/-- The result of an operation that only looks is its answer. -/
theorem outcome {operation : Working α} {answer : FileTree → Except Error α}
    (h : Looks operation answer) (w : Workspace) :
    (operation.outcome w).1 = answer w.tree ∧ (operation.outcome w).2.tree = w.tree := by
  obtain ⟨journal, hw⟩ := h w
  rw [Working.outcome, hw]
  cases answer w.tree <;> exact ⟨rfl, rfl⟩

end Looks

end Working

namespace DataFile

open Working

/-- What is loaded from a location. -/
def loadFrom (path label : String) (place : Location) (tree : FileTree) :
    Except Error DataFile := do
  let bytes ← (tree.mappedAt place).mapError .io
  let contents ← (decode (Source.ofBytes bytes) label).1
  return ⟨path, kpointOfPath path, contents⟩

/-- What is opened under a label. -/
def labelledIn (path label : String) (tree : FileTree) : Except Error DataFile := do
  let place ← (tree.open? path).mapError .io
  loadFrom path label place tree

/-- What is opened under a path whose name carries an index. -/
def openedIn (path : String) (tree : FileTree) : Except Error DataFile := do
  let name ← indexedName path
  labelledIn path name tree

/-- A file keeps the path under which it was loaded. -/
theorem path_of_loadFrom {path label : String} {place : Location} {tree : FileTree}
    {file : DataFile} (h : loadFrom path label place tree = .ok file) : file.path = path := by
  obtain ⟨bytes, -, h⟩ := exists_of_bind_eq_ok h
  obtain ⟨contents, -, h⟩ := exists_of_bind_eq_ok h
  cases h
  rfl

theorem path_of_openedIn {path : String} {tree : FileTree} {file : DataFile}
    (h : openedIn path tree = .ok file) : file.path = path := by
  obtain ⟨label, -, h⟩ := exists_of_bind_eq_ok h
  obtain ⟨place, -, h⟩ := exists_of_bind_eq_ok h
  exact path_of_loadFrom h

theorem looks_decodeBytes (bytes : List UInt8) (label : String) :
    Looks (decodeBytes bytes label) fun _ => (decode (Source.ofBytes bytes) label).1 :=
  (Looks.noteAll _).bind fun _ => .ofExcept _

theorem looks_load (path label : String) (place : Location) :
    Looks (load path label place) (loadFrom path label place) :=
  (Looks.ask _).bind fun bytes =>
    (looks_decodeBytes bytes label).bind fun _ => (Looks.note _).bind fun _ => .pure _

theorem looks_openLabelled (path label : String) :
    Looks (openLabelled path label) (labelledIn path label) :=
  (Looks.note _).bind fun _ => (Looks.ask _).bind fun place => looks_load path label place

/-- **Opening a file whose name carries an index** is looking it up. -/
theorem looks_openIndexed (path : String) : Looks (openIndexed path) (openedIn path) :=
  (Looks.ofExcept _).bind fun name => looks_openLabelled path name

end DataFile

end Screening
