import Screening.Proofs.Looking
import Screening.Proofs.Scanning

/-!
# What one task does

A task looks at one file and writes one report.  Both have places of their own in the tree, and
nothing else in it matters to the task.

* `Task.next`, `Task.leaves` — what a step makes of a task and of the files; a step does this and
  adds notes (`step_eq`).
* `Batch.Site` — where a batch works: the directory of the files and that of the reports.
* `Site.Found tree`, `Site.Ready tree` — the files can be found, and the directory for reports too.
* `Site.Alike name` — two trees look the same to the task on one file.
* `Site.stage`, `Site.report?` — how far a task comes in a number of steps and what it has written
  by then, as functions of the tree at its beginning.
* `Site.outcome`, `stage_three` — what becomes of a task.
-/

set_option autoImplicit false

namespace Screening.Batch

open Working

/-! ## One step -/

namespace Task

variable {config : Config} {output : String}

/-- What the next step of a task comes to, or why it fails. -/
def answer (config : Config) (output : String) : Task → FileTree → Except Error Task
  | waiting path, tree => do
    let label ← DataFile.indexedName path
    let place ← (tree.open? path).mapError .io
    return .opened path label place
  | opened path label place, tree => do
    let file ← DataFile.loadFrom path label place tree
    return if config.writeReports then .decoded file else .finished (decodedOutcome file none)
  | decoded file, tree => do
    let path := reportPath output file.path
    let _ ← (tree.placeForFile path).mapError .io
    return .finished (decodedOutcome file (some path))
  | finished outcome, _ => return .finished outcome

/-- A task after a step; one that fails is finished. -/
def settle (path : String) : Except Error Task → Task
  | .ok next => next
  | .error cause => finished ⟨path, .failed cause⟩

/-- A task after its next step. -/
def next (config : Config) (output : String) (task : Task) (tree : FileTree) : Task :=
  settle task.path (task.answer config output tree)

/-- What a task writes in its next step, and where. -/
def writes? (config : Config) (output : String) : Task → FileTree → Option (Location × List UInt8)
  | decoded file, tree =>
    (tree.placeForFile (reportPath output file.path)).toOption.map (·, reportBytes config file)
  | _, _ => none

/-- The files after the next step of a task. -/
def leaves (config : Config) (output : String) (task : Task) (tree : FileTree) : FileTree :=
  match task.writes? config output tree with
  | some (place, bytes) => tree.put place (.file bytes)
  | none => tree

theorem step_of_looks (task : Task)
    (h : Looks (task.advance config output) (task.answer config output))
    (hwrites : ∀ tree, task.writes? config output tree = none) (w : Workspace) :
    ∃ journal, task.step config output w =
      (task.next config output w.tree, ⟨task.leaves config output w.tree, journal⟩) := by
  obtain ⟨journal, hadvance⟩ := h w
  rw [step, hadvance, leaves, hwrites, next]
  cases task.answer config output w.tree with
  | ok later => exact ⟨journal, rfl⟩
  | error cause => exact ⟨journal.push (.skipped task.path cause), rfl⟩

theorem looks_openTask (path : String) :
    Looks (openTask path) (answer config output (waiting path)) :=
  (Looks.ofExcept _).bind fun _ => (Looks.note _).bind fun _ => (Looks.ask _).bind fun _ => .pure _

theorem looks_readTask (path label : String) (place : Location) :
    Looks (readTask config path label place) (answer config output (opened path label place)) := by
  refine (DataFile.looks_load path label place).bind fun file => ?_
  cases config.writeReports
  · exact .pure _
  · exact .pure _

/-- **A step makes the next task and leaves the files as said**; all else that it does is notes. -/
theorem step_eq (config : Config) (output : String) (task : Task) (w : Workspace) :
    ∃ journal, task.step config output w =
      (task.next config output w.tree, ⟨task.leaves config output w.tree, journal⟩) := by
  cases task with
  | waiting path => exact step_of_looks (waiting path) (looks_openTask path) (fun _ => rfl) w
  | opened path label place =>
    exact step_of_looks (opened path label place) (looks_readTask path label place)
      (fun _ => rfl) w
  | decoded file =>
    rw [step, next, answer, leaves, writes?]
    cases hplace : w.tree.placeForFile (reportPath output file.path) with
    | error cause =>
      have hwrite : advance config output (decoded file) w = .error (.io cause) w := by
        rw [advance, writeTask, bind_eq, change, FileTree.writeFile, hplace]
      rw [hwrite]
      exact ⟨_, rfl⟩
    | ok place =>
      have hwrite : advance config output (decoded file) w =
          .ok (finished (decodedOutcome file (some (reportPath output file.path))))
            ⟨w.tree.put place (.file (reportBytes config file)),
              w.journal ++ #[.reportWritten (reportPath output file.path)]⟩ := by
        rw [advance, writeTask, bind_eq, change, FileTree.writeFile, hplace]
        rfl
      rw [hwrite]
      exact ⟨_, rfl⟩
  | finished outcome => exact step_of_looks (finished outcome) (.pure _) (fun _ => rfl) w

end Task

/-! ## Where a batch works -/

/-- What a batch is to do, in which directory, and where that and the directory for reports are. -/
structure Site where
  /-- What is to be done. -/
  config : Config
  /-- The path of the directory of the files. -/
  directory : String
  /-- Where that directory is. -/
  files : Location
  /-- Where the directory for reports is. -/
  reports : Location

namespace Site

variable (site : Site) (name : String)

/-- The path of the directory for reports. -/
def output : String := Path.join site.directory site.config.outputDirectory

/-- The path of a file. -/
def pathOf : String := Path.join site.directory name

/-- Where a file is. -/
def filePlace : Location := name :: site.files

/-- Where the report on a file goes. -/
def reportPlace : Location := FileName.reportName name :: site.reports

/-- The files of a batch can be found. -/
structure Found (tree : FileTree) : Prop where
  /-- There are no links. -/
  noLinks : tree.NoLinks
  /-- The files are in a directory. -/
  files : tree.LeadsTo site.directory site.files

/-- The directories of a batch are there. -/
structure Ready (tree : FileTree) : Prop extends site.Found tree where
  /-- So are the reports if there are any. -/
  reports : site.config.writeReports = true → tree.LeadsTo site.output site.reports

/-- Two trees look the same to the task on a file. -/
structure Alike (tree other : FileTree) : Prop where
  /-- They have the same file. -/
  file : other.entryAt? (site.filePlace name) = tree.entryAt? (site.filePlace name)
  /-- They agree on whether a directory is in the way of its report. -/
  report : other.entryAt? (site.reportPlace name) = some .directory ↔
    tree.entryAt? (site.reportPlace name) = some .directory

/-- A task is the one on a file. -/
def Concerns : Task → Prop
  | .waiting path => path = site.pathOf name
  | .opened path _ place => path = site.pathOf name ∧ place = site.filePlace name
  | .decoded file => file.path = site.pathOf name ∧ site.config.writeReports = true
  | .finished outcome => outcome.path = site.pathOf name

variable {site : Site} {name : String} {tree other : FileTree} {task : Task}

theorem Concerns.path_eq (h : site.Concerns name task) : task.path = site.pathOf name := by
  cases task with
  | waiting path => exact h
  | opened path label place => exact h.1
  | decoded file => exact h.1
  | finished outcome => exact h

/-- No file is where a report goes. -/
theorem filePlace_ne_reportPlace {report : String} (hname : FileName.isStandard name = true)
    (hreport : FileName.isStandard report = true) :
    site.filePlace name ≠ site.reportPlace report := by
  intro hsame
  have hstandard := FileName.isStandard_reportName hreport
  rw [← (List.cons.inj hsame).1, hname] at hstandard
  cases hstandard

theorem reportPlace_ne_nil (site : Site) (name : String) : site.reportPlace name ≠ [] :=
  List.cons_ne_nil _ _

/-- Different reports go to different places. -/
theorem reportPlace_inj {report : String} (hname : FileName.isStandard name = true)
    (hreport : FileName.isStandard report = true)
    (hsame : site.reportPlace name = site.reportPlace report) : name = report :=
  FileName.reportName_inj hname hreport (List.cons.inj hsame).1

namespace Found

theorem open? (h : site.Found tree) (hname : FileName.isStandard name = true) :
    tree.open? (site.pathOf name) = (FileTree.checkPath (site.pathOf name) >>= fun _ =>
      if (tree.entryAt? (site.filePlace name)).isSome then .ok (site.filePlace name)
      else .error .notFound) :=
  FileTree.open?_join h.noLinks h.files (FileName.isPlain_of_isStandard hname)
    (FileName.utf8ByteSize_of_isStandard hname)

theorem eq_of_open? (h : site.Found tree) (hname : FileName.isStandard name = true)
    {place : Location} (hplace : tree.open? (site.pathOf name) = .ok place) :
    place = site.filePlace name := by
  rw [h.open? hname] at hplace
  obtain ⟨-, -, hplace⟩ := exists_of_bind_eq_ok hplace
  split at hplace
  · exact (Except.ok.inj hplace).symm
  · cases hplace

end Found

namespace Ready

/-- The path of the report on a file. -/
theorem reportPath_eq (h : site.Ready tree) (hname : FileName.isStandard name = true) :
    reportPath site.output (site.pathOf name) =
      Path.join site.output (FileName.reportName name) :=
  FileName.reportPath_join h.files.ne_empty hname

theorem placeForFile (h : site.Ready tree) (hname : FileName.isStandard name = true)
    (hreports : site.config.writeReports = true) :
    tree.placeForFile (reportPath site.output (site.pathOf name)) =
      (FileTree.checkPath (Path.join site.output (FileName.reportName name)) >>= fun _ =>
        if tree.entryAt? (site.reportPlace name) = some .directory then .error .isADirectory
        else .ok (site.reportPlace name)) := by
  rw [h.reportPath_eq hname]
  exact FileTree.placeForFile_join h.noLinks (h.reports hreports)
    (FileName.isPlain_reportName hname) (FileName.utf8ByteSize_reportName hname)

/-- The path of a report that can be written is one. -/
theorem checkPath_of_placeForFile (h : site.Ready tree) (hname : FileName.isStandard name = true)
    (hreports : site.config.writeReports = true) {place : Location}
    (hplace : tree.placeForFile (reportPath site.output (site.pathOf name)) = .ok place) :
    FileTree.checkPath (Path.join site.output (FileName.reportName name)) = .ok () := by
  rw [h.placeForFile hname hreports] at hplace
  obtain ⟨⟨⟩, hcheck, -⟩ := exists_of_bind_eq_ok hplace
  exact hcheck

/-- A file that can be written has its place, where no directory is. -/
theorem eq_of_placeForFile (h : site.Ready tree) (hname : FileName.isStandard name = true)
    (hreports : site.config.writeReports = true) {place : Location}
    (hplace : tree.placeForFile (reportPath site.output (site.pathOf name)) = .ok place) :
    place = site.reportPlace name ∧ tree.entryAt? (site.reportPlace name) ≠ some .directory := by
  rw [h.placeForFile hname hreports] at hplace
  obtain ⟨-, -, hplace⟩ := exists_of_bind_eq_ok hplace
  split at hplace
  · cases hplace
  · rename_i hdirectory
    exact ⟨(Except.ok.inj hplace).symm, hdirectory⟩

/-- Where no directory is, a report can be written. -/
theorem placeForFile_of_ne (h : site.Ready tree) (hname : FileName.isStandard name = true)
    (hreports : site.config.writeReports = true)
    (hcheck : FileTree.checkPath (Path.join site.output (FileName.reportName name)) = .ok ())
    (hfree : tree.entryAt? (site.reportPlace name) ≠ some .directory) :
    tree.placeForFile (reportPath site.output (site.pathOf name)) =
      .ok (site.reportPlace name) := by
  rw [h.placeForFile hname hreports, hcheck]
  exact if_neg hfree

end Ready

/-! ## What a file is called -/

/-- The name of a file in a batch is its label, whichever way it is opened. -/
theorem labels_of_pathOf (hdirectory : site.directory ≠ "")
    (hname : FileName.isStandard name = true) :
    DataFile.indexedName (site.pathOf name) = .ok name ∧
      DataFile.lenientLabel (site.pathOf name) = name ∧
      DataFile.kpointOfPath (site.pathOf name) = FileName.kpoint? name := by
  have hfile : Path.fileName? (site.pathOf name) = some name :=
    Path.fileName?_join hdirectory (FileName.isPlain_of_isStandard hname)
  refine ⟨?_, ?_, ?_⟩
  · have hindex : (some name).filter (fun name => (FileName.kpoint? name).isSome) = some name :=
      Option.filter_eq_some_iff.2 ⟨rfl, FileName.isSome_kpoint?_of_isStandard hname⟩
    rw [DataFile.indexedName, hfile, hindex]
  · rw [DataFile.lenientLabel, hfile]
    rfl
  · rw [DataFile.kpointOfPath, hfile]
    rfl

/-- A task opens its file as everyone else does. -/
theorem openedIn_eq (hdirectory : site.directory ≠ "") (hname : FileName.isStandard name = true)
    (tree : FileTree) :
    DataFile.openedIn (site.pathOf name) tree =
      DataFile.labelledIn (site.pathOf name) (DataFile.lenientLabel (site.pathOf name)) tree := by
  obtain ⟨hindexed, hlenient, -⟩ := labels_of_pathOf hdirectory hname
  rw [DataFile.openedIn, hindexed, hlenient]
  rfl

/-! ## A task sees its own file alone -/

theorem open?_congr (h : site.Found tree) (h' : site.Found other)
    (hname : FileName.isStandard name = true)
    (hfile : other.entryAt? (site.filePlace name) = tree.entryAt? (site.filePlace name)) :
    other.open? (site.pathOf name) = tree.open? (site.pathOf name) := by
  rw [h'.open? hname, h.open? hname, hfile]

theorem placeForFile_congr (h : site.Ready tree) (h' : site.Ready other)
    (hname : FileName.isStandard name = true) (hreports : site.config.writeReports = true)
    (hdirectory : other.entryAt? (site.reportPlace name) = some .directory ↔
      tree.entryAt? (site.reportPlace name) = some .directory) :
    other.placeForFile (reportPath site.output (site.pathOf name)) =
      tree.placeForFile (reportPath site.output (site.pathOf name)) := by
  rw [h'.placeForFile hname hreports, h.placeForFile hname hreports]
  simp only [hdirectory]

theorem loadFrom_congr {path label : String} {place : Location}
    (h : other.entryAt? place = tree.entryAt? place) :
    DataFile.loadFrom path label place other = DataFile.loadFrom path label place tree := by
  rw [DataFile.loadFrom, DataFile.loadFrom, FileTree.mappedAt_congr h]

/-- **A file that is the same is opened alike.** -/
theorem openedIn_congr (h : site.Found tree) (h' : site.Found other)
    (hname : FileName.isStandard name = true)
    (hfile : other.entryAt? (site.filePlace name) = tree.entryAt? (site.filePlace name)) :
    DataFile.openedIn (site.pathOf name) other = DataFile.openedIn (site.pathOf name) tree := by
  have hlabelled (label : String) : DataFile.labelledIn (site.pathOf name) label other =
      DataFile.labelledIn (site.pathOf name) label tree := by
    rw [DataFile.labelledIn, DataFile.labelledIn, open?_congr h h' hname hfile]
    cases hplace : tree.open? (site.pathOf name) with
    | error cause => rfl
    | ok place =>
      rw [h.eq_of_open? hname hplace]
      exact loadFrom_congr hfile
  rw [DataFile.openedIn, DataFile.openedIn]
  simp only [hlabelled]

/-- **A task goes on alike in trees that look the same to it.** -/
theorem answer_congr (h : site.Ready tree) (h' : site.Ready other)
    (hname : FileName.isStandard name = true) (halike : site.Alike name tree other)
    (htask : site.Concerns name task) :
    task.answer site.config site.output other = task.answer site.config site.output tree := by
  cases task with
  | waiting path =>
    cases htask
    rw [Task.answer, Task.answer, open?_congr h.toFound h'.toFound hname halike.file]
  | opened path label place =>
    obtain ⟨-, rfl⟩ := htask
    rw [Task.answer, Task.answer, loadFrom_congr halike.file]
  | decoded file =>
    obtain ⟨hpath, hreports⟩ := htask
    rw [Task.answer, Task.answer, hpath, placeForFile_congr h h' hname hreports halike.report]
  | finished outcome => rfl

theorem next_congr (h : site.Ready tree) (h' : site.Ready other)
    (hname : FileName.isStandard name = true) (halike : site.Alike name tree other)
    (htask : site.Concerns name task) :
    task.next site.config site.output other = task.next site.config site.output tree := by
  rw [Task.next, Task.next, answer_congr h h' hname halike htask]

theorem writes?_congr (h : site.Ready tree) (h' : site.Ready other)
    (hname : FileName.isStandard name = true) (halike : site.Alike name tree other)
    (htask : site.Concerns name task) :
    task.writes? site.config site.output other = task.writes? site.config site.output tree := by
  cases task with
  | decoded file =>
    obtain ⟨hpath, hreports⟩ := htask
    rw [Task.writes?, Task.writes?, hpath, placeForFile_congr h h' hname hreports halike.report]
  | _ => rfl

/-- **A task writes nothing but its own report**, and not where a directory is. -/
theorem eq_of_writes? (h : site.Ready tree) (hname : FileName.isStandard name = true)
    (htask : site.Concerns name task) {place : Location} {bytes : List UInt8}
    (hwrites : task.writes? site.config site.output tree = some (place, bytes)) :
    place = site.reportPlace name ∧ tree.entryAt? (site.reportPlace name) ≠ some .directory := by
  cases task with
  | decoded file =>
    obtain ⟨hpath, hreports⟩ := htask
    rw [Task.writes?, hpath] at hwrites
    cases hplace : tree.placeForFile (reportPath site.output (site.pathOf name)) with
    | error cause =>
      rw [hplace] at hwrites
      cases hwrites
    | ok found =>
      rw [hplace] at hwrites
      obtain ⟨rfl, -⟩ := Prod.mk.inj (Option.some.inj hwrites)
      exact h.eq_of_placeForFile hname hreports hplace
  | waiting path => cases hwrites
  | opened path label place => cases hwrites
  | finished outcome => cases hwrites

/-- A task stays the one on its file. -/
theorem concerns_next (h : site.Ready tree) (hname : FileName.isStandard name = true)
    (htask : site.Concerns name task) :
    site.Concerns name (task.next site.config site.output tree) := by
  rw [Task.next]
  cases hanswer : task.answer site.config site.output tree with
  | error cause => exact htask.path_eq
  | ok later =>
    cases task with
    | waiting path =>
      cases htask
      obtain ⟨label, -, hanswer⟩ := exists_of_bind_eq_ok hanswer
      obtain ⟨place, hplace, hanswer⟩ := exists_of_bind_eq_ok hanswer
      cases hanswer
      exact ⟨rfl, h.eq_of_open? hname (eq_ok_of_mapError hplace)⟩
    | opened path label place =>
      obtain ⟨file, hfile, hanswer⟩ := exists_of_bind_eq_ok hanswer
      have hpath := (DataFile.path_of_loadFrom hfile).trans htask.1
      cases hanswer
      show site.Concerns name (if site.config.writeReports then _ else _)
      split
      · rename_i hreports
        exact ⟨hpath, hreports⟩
      · exact hpath
    | decoded file =>
      obtain ⟨place, -, hanswer⟩ := exists_of_bind_eq_ok hanswer
      cases hanswer
      exact htask.1
    | finished outcome =>
      cases hanswer
      exact htask

/-! ## Several steps of a task -/

/-- The task on a file after a number of steps in a tree that stays as it is. -/
def stage (site : Site) (tree : FileTree) (name : String) : Nat → Task
  | 0 => .waiting (site.pathOf name)
  | count + 1 => (site.stage tree name count).next site.config site.output tree

/-- The report that the task on a file has written after a number of steps. -/
def report? (site : Site) (tree : FileTree) (name : String) : Nat → Option (List UInt8)
  | 0 => none
  | count + 1 =>
    (((site.stage tree name count).writes? site.config site.output tree).map Prod.snd).or
      (site.report? tree name count)

theorem concerns_stage (h : site.Ready tree) (hname : FileName.isStandard name = true)
    (count : Nat) : site.Concerns name (site.stage tree name count) := by
  induction count with
  | zero => rfl
  | succ count ih => exact concerns_next h hname ih

/-- **In trees that look the same to it a task comes equally far.** -/
theorem stage_congr (h : site.Ready tree) (h' : site.Ready other)
    (hname : FileName.isStandard name = true) (halike : site.Alike name tree other) (count : Nat) :
    site.stage other name count = site.stage tree name count := by
  induction count with
  | zero => rfl
  | succ count ih =>
    rw [stage, stage, ih, next_congr h h' hname halike (concerns_stage h hname count)]

theorem report?_congr (h : site.Ready tree) (h' : site.Ready other)
    (hname : FileName.isStandard name = true) (halike : site.Alike name tree other) (count : Nat) :
    site.report? other name count = site.report? tree name count := by
  induction count with
  | zero => rfl
  | succ count ih =>
    rw [report?, report?, stage_congr h h' hname halike,
      writes?_congr h h' hname halike (concerns_stage h hname count), ih]

/-- A report was written where no directory is. -/
theorem ne_directory_of_report? (h : site.Ready tree) (hname : FileName.isStandard name = true)
    {count : Nat} {bytes : List UInt8} (hreport : site.report? tree name count = some bytes) :
    tree.entryAt? (site.reportPlace name) ≠ some .directory := by
  induction count with
  | zero => cases hreport
  | succ count ih =>
    rw [report?] at hreport
    cases hwrites : (site.stage tree name count).writes? site.config site.output tree with
    | none =>
      rw [hwrites] at hreport
      exact ih hreport
    | some found => exact (eq_of_writes? h hname (concerns_stage h hname count) hwrites).2

/-- A finished task stays as it is and writes nothing. -/
theorem stage_of_finished {count later : Nat} {outcome : Outcome}
    (h : site.stage tree name count = .finished outcome) (hle : count ≤ later) :
    site.stage tree name later = .finished outcome ∧
      site.report? tree name later = site.report? tree name count := by
  induction hle with
  | refl => exact ⟨h, rfl⟩
  | step _ ih =>
    rw [stage, report?, ih.1]
    exact ⟨rfl, ih.2⟩

/-! ## What becomes of a task -/

/-- What comes of a file in a tree. -/
def outcome (site : Site) (tree : FileTree) (name : String) : Outcome :=
  match DataFile.openedIn (site.pathOf name) tree with
  | .error cause => ⟨site.pathOf name, .failed cause⟩
  | .ok file =>
    if site.config.writeReports then
      match tree.placeForFile (reportPath site.output (site.pathOf name)) with
      | .error cause => ⟨site.pathOf name, .failed (.io cause)⟩
      | .ok _ => decodedOutcome file (some (reportPath site.output (site.pathOf name)))
    else decodedOutcome file none

/-- The report on a file in a tree, if there is one. -/
def written? (site : Site) (tree : FileTree) (name : String) : Option (List UInt8) :=
  match DataFile.openedIn (site.pathOf name) tree with
  | .error _ => none
  | .ok file =>
    if site.config.writeReports then
      (tree.placeForFile (reportPath site.output (site.pathOf name))).toOption.map fun _ =>
        reportBytes site.config file
    else none

/-- A file that cannot be opened fails. -/
theorem outcome_of_error {cause : Error}
    (h : DataFile.openedIn (site.pathOf name) tree = .error cause) :
    site.outcome tree name = ⟨site.pathOf name, .failed cause⟩ := by
  unfold outcome
  rw [h]

/-- A file that can be opened has a report, if that has a place. -/
theorem outcome_of_reported {file : DataFile} {place : Location}
    (hopened : DataFile.openedIn (site.pathOf name) tree = .ok file)
    (hreports : site.config.writeReports = true)
    (hplace : tree.placeForFile (reportPath site.output (site.pathOf name)) = .ok place) :
    site.outcome tree name =
        decodedOutcome file (some (reportPath site.output (site.pathOf name))) ∧
      site.written? tree name = some (reportBytes site.config file) := by
  unfold outcome written?
  rw [hopened, hplace]
  dsimp only
  rw [if_pos hreports, if_pos hreports]
  exact ⟨rfl, rfl⟩

/-- **After two steps the file was opened and read**, or the task is finished. -/
theorem stage_two (site : Site) (tree : FileTree) (name : String) :
    site.stage tree name 2 =
      match DataFile.openedIn (site.pathOf name) tree with
      | .error cause => .finished ⟨site.pathOf name, .failed cause⟩
      | .ok file =>
        if site.config.writeReports then .decoded file
        else .finished (decodedOutcome file none) := by
  cases hlabel : DataFile.indexedName (site.pathOf name) with
  | error cause =>
    have hopened : DataFile.openedIn (site.pathOf name) tree = .error cause := by
      rw [DataFile.openedIn, hlabel]
      rfl
    have hfirst : site.stage tree name 1 = .finished ⟨site.pathOf name, .failed cause⟩ := by
      rw [stage, stage, Task.next, Task.answer, hlabel]
      rfl
    rw [hopened, (stage_of_finished hfirst (Nat.le_succ 1)).1]
  | ok label =>
    have hopened : DataFile.openedIn (site.pathOf name) tree =
        DataFile.labelledIn (site.pathOf name) label tree := by
      rw [DataFile.openedIn, hlabel]
      rfl
    rw [hopened, DataFile.labelledIn]
    cases hplace : tree.open? (site.pathOf name) with
    | error cause =>
      have hfirst : site.stage tree name 1 = .finished ⟨site.pathOf name, .failed (.io cause)⟩ := by
        rw [stage, stage, Task.next, Task.answer, hlabel, hplace]
        rfl
      rw [(stage_of_finished hfirst (Nat.le_succ 1)).1]
      rfl
    | ok place =>
      have hfirst : site.stage tree name 1 = .opened (site.pathOf name) label place := by
        rw [stage, stage, Task.next, Task.answer, hlabel, hplace]
        rfl
      rw [stage, hfirst, Task.next, Task.answer]
      show _ = match DataFile.loadFrom (site.pathOf name) label place tree with
        | .error cause => _
        | .ok file => _
      cases DataFile.loadFrom (site.pathOf name) label place tree <;> rfl

/-- Nothing is written before the third step. -/
theorem report?_two (site : Site) (tree : FileTree) (name : String) :
    site.report? tree name 2 = none := by
  have hfirst : (site.stage tree name 1).writes? site.config site.output tree = none := by
    rw [stage, stage, Task.next]
    cases hanswer : (Task.waiting (site.pathOf name)).answer site.config site.output tree with
    | error cause => rfl
    | ok later =>
      obtain ⟨label, -, hanswer⟩ := exists_of_bind_eq_ok hanswer
      obtain ⟨place, -, hanswer⟩ := exists_of_bind_eq_ok hanswer
      cases hanswer
      rfl
  rw [report?, hfirst]
  rfl

/-- What can come of a file, and when a report on it is written. -/
theorem outcome_cases (site : Site) (tree : FileTree) (name : String) :
    (∃ cause, DataFile.openedIn (site.pathOf name) tree = .error cause ∧
        site.outcome tree name = ⟨site.pathOf name, .failed cause⟩ ∧
        site.written? tree name = none) ∨
    ∃ file, DataFile.openedIn (site.pathOf name) tree = .ok file ∧
      ((site.config.writeReports = false ∧
          site.outcome tree name = decodedOutcome file none ∧ site.written? tree name = none) ∨
        site.config.writeReports = true ∧
          ((∃ cause,
              tree.placeForFile (reportPath site.output (site.pathOf name)) = .error cause ∧
              site.outcome tree name = ⟨site.pathOf name, .failed (.io cause)⟩ ∧
              site.written? tree name = none) ∨
            ∃ place, tree.placeForFile (reportPath site.output (site.pathOf name)) = .ok place ∧
              site.outcome tree name =
                decodedOutcome file (some (reportPath site.output (site.pathOf name))) ∧
              site.written? tree name = some (reportBytes site.config file))) := by
  unfold outcome written?
  cases DataFile.openedIn (site.pathOf name) tree with
  | error cause => exact .inl ⟨cause, rfl, rfl, rfl⟩
  | ok file =>
    refine .inr ⟨file, rfl, ?_⟩
    cases hreports : site.config.writeReports with
    | false => exact .inl ⟨rfl, rfl, rfl⟩
    | true =>
      refine .inr ⟨rfl, ?_⟩
      cases tree.placeForFile (reportPath site.output (site.pathOf name)) with
      | error cause => exact .inl ⟨cause, rfl, rfl, rfl⟩
      | ok place => exact .inr ⟨place, rfl, rfl, rfl⟩

/-- **After three steps the task is finished**, and its report is written if there is one. -/
theorem stage_three (site : Site) (tree : FileTree) (name : String) :
    site.stage tree name 3 = .finished (site.outcome tree name) ∧
      site.report? tree name 3 = site.written? tree name := by
  have htwo := stage_two site tree name
  have hlast : site.stage tree name 3 =
      (site.stage tree name 2).next site.config site.output tree := rfl
  have hwritten : site.report? tree name 3 =
      ((site.stage tree name 2).writes? site.config site.output tree).map Prod.snd := by
    rw [report?, report?_two, Option.or_none]
  rw [hlast, hwritten]
  rcases outcome_cases site tree name with ⟨cause, hopened, houtcome, hreport⟩ |
    ⟨file, hopened, ⟨hreports, houtcome, hreport⟩ | ⟨hreports, hplace⟩⟩
  · rw [hopened] at htwo
    rw [htwo, houtcome, hreport]
    exact ⟨rfl, rfl⟩
  · rw [hopened] at htwo
    dsimp only at htwo
    rw [hreports, if_neg Bool.false_ne_true] at htwo
    rw [htwo, houtcome, hreport]
    exact ⟨rfl, rfl⟩
  · have hpath : file.path = site.pathOf name := DataFile.path_of_openedIn hopened
    rw [hopened] at htwo
    dsimp only at htwo
    rw [hreports, if_pos rfl] at htwo
    rw [htwo, Task.next, Task.answer, Task.writes?, hpath]
    rcases hplace with ⟨cause, hplace, houtcome, hreport⟩ | ⟨place, hplace, houtcome, hreport⟩
    · rw [hplace, houtcome, hreport, ← hpath]
      exact ⟨rfl, rfl⟩
    · rw [hplace, houtcome, hreport]
      exact ⟨rfl, rfl⟩

/-- **Whenever a task is finished its outcome is the same**, and so is its report. -/
theorem stage_of_isSome {count : Nat}
    (h : (site.stage tree name count).outcome?.isSome = true) :
    site.stage tree name count = .finished (site.outcome tree name) ∧
      site.report? tree name count = site.report? tree name Task.stepsToFinish := by
  obtain ⟨outcome, hcount⟩ : ∃ outcome, site.stage tree name count = .finished outcome := by
    cases hstage : site.stage tree name count with
    | finished outcome => exact ⟨outcome, rfl⟩
    | waiting path => rw [hstage] at h; cases h
    | opened path label place => rw [hstage] at h; cases h
    | decoded file => rw [hstage] at h; cases h
  have hthree := (stage_three site tree name).1
  have hlate := stage_of_finished hcount (Nat.le_max_left count 3)
  have hlate' := stage_of_finished hthree (Nat.le_max_right count 3)
  have hsame := Task.finished.inj (hlate.1.symm.trans hlate'.1)
  exact ⟨by rw [hcount, hsame], hlate.2.symm.trans hlate'.2⟩

/-- **The outcome of a file is the same in trees that look the same to its task.** -/
theorem outcome_congr (h : site.Ready tree) (h' : site.Ready other)
    (hname : FileName.isStandard name = true) (halike : site.Alike name tree other) :
    site.outcome other name = site.outcome tree name := by
  have hstage := stage_congr h h' hname halike 3
  rw [(stage_three site other name).1, (stage_three site tree name).1] at hstage
  exact Task.finished.inj hstage

/-- An outcome is that of its file. -/
theorem path_outcome (site : Site) (tree : FileTree) (name : String) :
    (site.outcome tree name).path = site.pathOf name := by
  rcases outcome_cases site tree name with ⟨cause, -, houtcome, -⟩ |
    ⟨file, hopened, ⟨-, houtcome, -⟩ | ⟨-, ⟨cause, -, houtcome, -⟩ | ⟨place, -, houtcome, -⟩⟩⟩
  · rw [houtcome]
  · rw [houtcome]
    exact DataFile.path_of_openedIn hopened
  · rw [houtcome]
  · rw [houtcome]
    exact DataFile.path_of_openedIn hopened

/-- **An outcome that is not a failure** is that of a file that was opened, and if it tells of a
report then that is written. -/
theorem exists_file_of_decoded {summary : Summary} {report : Option String}
    (h : (site.outcome tree name).status = .decoded summary report) :
    ∃ file, DataFile.openedIn (site.pathOf name) tree = .ok file ∧
      summary = Summary.ofContents file.contents file.kpoint ∧
      (report = none ∨ report = some (reportPath site.output (site.pathOf name)) ∧
        site.written? tree name = some (reportBytes site.config file)) := by
  rcases outcome_cases site tree name with ⟨cause, -, houtcome, -⟩ |
    ⟨file, hopened, ⟨-, houtcome, -⟩ | ⟨-, ⟨cause, -, houtcome, -⟩ |
      ⟨place, -, houtcome, hwritten⟩⟩⟩
  · rw [houtcome] at h
    cases h
  · rw [houtcome] at h
    cases h
    exact ⟨file, hopened, rfl, .inl rfl⟩
  · rw [houtcome] at h
    cases h
  · rw [houtcome] at h
    cases h
    exact ⟨file, hopened, rfl, .inr ⟨rfl, hwritten⟩⟩

/-- A report that is written has its place. -/
theorem placeForFile_of_written? (h : site.Ready tree) (hname : FileName.isStandard name = true)
    {bytes : List UInt8} (hwritten : site.written? tree name = some bytes) :
    site.config.writeReports = true ∧
      tree.placeForFile (reportPath site.output (site.pathOf name)) =
        .ok (site.reportPlace name) ∧
      ∃ summary, (site.outcome tree name).status =
        .decoded summary (some (reportPath site.output (site.pathOf name))) := by
  rcases outcome_cases site tree name with ⟨cause, -, -, hnone⟩ |
    ⟨file, -, ⟨-, -, hnone⟩ | ⟨hreports, ⟨cause, -, -, hnone⟩ | ⟨place, hplace, houtcome, -⟩⟩⟩
  · rw [hnone] at hwritten
    cases hwritten
  · rw [hnone] at hwritten
    cases hwritten
  · rw [hnone] at hwritten
    cases hwritten
  · rw [(h.eq_of_placeForFile hname hreports hplace).1] at hplace
    exact ⟨hreports, hplace, _, congrArg Outcome.status houtcome⟩

end Site

end Screening.Batch
