import Screening.Proofs.Tasks

/-!
# How far several tasks have come

The tasks on the files of a directory leave each other alone: what a tree looks like after all of
them have taken some steps depends on how many steps each has taken, and not on their order.

* `FileTree.Same` — two trees hold the same at every place.
* `Site.Reached names start progress tree` — the tree is the one that the tasks reach, each after
  the number of steps that `progress` says.
* `Reached.step` — one more step of one task; `Reached.steps` — several of them.
* `runTasks_reached` — taking the tasks one after the other finishes them all.
-/

set_option autoImplicit false

namespace Screening

/-- Two trees hold the same at every place, in whatever order they list it. -/
structure FileTree.Same (tree other : FileTree) : Prop where
  /-- Relative paths start at the same place. -/
  workingDirectory : other.workingDirectory = tree.workingDirectory
  /-- The same is at every place. -/
  places : ∀ place, other.entryAt? place = tree.entryAt? place

namespace Batch.Site

/-- The numbers of steps after a task has taken some more. -/
def ahead (progress : String → Nat) (name : String) (count : Nat) : String → Nat := fun other =>
  if other = name then progress other + count else progress other

/-- A tree is what the tasks on some files make of another one, each in a number of steps. -/
structure Reached (site : Site) (names : List String) (start : FileTree) (progress : String → Nat)
    (tree : FileTree) : Prop where
  /-- Relative paths start where they did. -/
  workingDirectory : tree.workingDirectory = start.workingDirectory
  /-- A report is what its own task has written, or what was there before. -/
  reports : ∀ name ∈ names, tree.entryAt? (site.reportPlace name) =
    ((site.report? start name (progress name)).map Entry.file).or
      (start.entryAt? (site.reportPlace name))
  /-- Everywhere else things are as they were. -/
  others : ∀ place, (∀ name ∈ names, place ≠ site.reportPlace name) →
    tree.entryAt? place = start.entryAt? place

variable {site : Site} {names : List String} {start tree other : FileTree}
  {progress progress' : String → Nat} {name : String} {place : Location}

namespace Reached

theorem refl (site : Site) (names : List String) (start : FileTree) :
    site.Reached names start (fun _ => 0) start :=
  ⟨rfl, fun _ _ => rfl, fun _ _ => rfl⟩

/-- What the tasks on these files have written is all that matters. -/
theorem congr_report? (h : site.Reached names start progress tree)
    (hsame : ∀ name ∈ names, site.report? start name (progress' name) =
      site.report? start name (progress name)) :
    site.Reached names start progress' tree where
  workingDirectory := h.workingDirectory
  reports name hname := by rw [h.reports name hname, hsame name hname]
  others := h.others

theorem congr (h : site.Reached names start progress tree)
    (hsame : ∀ name ∈ names, progress' name = progress name) :
    site.Reached names start progress' tree :=
  h.congr_report? fun name hname => by rw [hsame name hname]

/-- **The numbers of steps determine the tree.** -/
theorem same (h : site.Reached names start progress tree)
    (h' : site.Reached names start progress other) : tree.Same other where
  workingDirectory := h'.workingDirectory.trans h.workingDirectory.symm
  places place := by
    by_cases hplace : ∃ name ∈ names, place = site.reportPlace name
    · obtain ⟨name, hname, rfl⟩ := hplace
      rw [h.reports name hname, h'.reports name hname]
    · have hother : ∀ name ∈ names, place ≠ site.reportPlace name := fun name hname hsame =>
        hplace ⟨name, hname, hsame⟩
      rw [h.others place hother, h'.others place hother]

/-- What is at a place was there before, or is a report of which a directory was not in the way. -/
theorem place_cases (h : site.Reached names start progress tree) (hready : site.Ready start)
    (hnames : ∀ name ∈ names, FileName.isStandard name = true) (place : Location) :
    tree.entryAt? place = start.entryAt? place ∨
      ∃ name ∈ names, ∃ bytes, place = site.reportPlace name ∧
        site.report? start name (progress name) = some bytes ∧
        tree.entryAt? place = some (.file bytes) ∧ start.entryAt? place ≠ some .directory := by
  by_cases hplace : ∃ name ∈ names, place = site.reportPlace name
  · obtain ⟨name, hname, rfl⟩ := hplace
    have hentry := h.reports name hname
    cases hreport : site.report? start name (progress name) with
    | none =>
      rw [hreport] at hentry
      exact .inl hentry
    | some bytes =>
      rw [hreport] at hentry
      exact .inr ⟨name, hname, bytes, rfl, hreport, hentry,
        ne_directory_of_report? hready (hnames name hname) hreport⟩
  · exact .inl (h.others place fun name hname hsame => hplace ⟨name, hname, hsame⟩)

theorem directory_iff (h : site.Reached names start progress tree) (hready : site.Ready start)
    (hnames : ∀ name ∈ names, FileName.isStandard name = true) (place : Location) :
    tree.entryAt? place = some .directory ↔ start.entryAt? place = some .directory := by
  rcases h.place_cases hready hnames place with hsame | ⟨-, -, bytes, -, -, hentry, hstart⟩
  · rw [hsame]
  · rw [hentry]
    refine ⟨fun hfile => ?_, fun hdirectory => absurd hdirectory hstart⟩
    cases hfile

theorem keeps (h : site.Reached names start progress tree) (hready : site.Ready start)
    (hnames : ∀ name ∈ names, FileName.isStandard name = true) : start.Keeps tree :=
  ⟨h.workingDirectory, fun place => (h.directory_iff hready hnames place).2⟩

theorem noLinks (h : site.Reached names start progress tree) (hready : site.Ready start)
    (hnames : ∀ name ∈ names, FileName.isStandard name = true) : tree.NoLinks := by
  intro place target hlink
  rcases h.place_cases hready hnames place with hsame | ⟨-, -, bytes, -, -, hentry, -⟩
  · exact hready.noLinks place target (hsame.symm.trans hlink)
  · rw [hentry] at hlink
    cases hlink

/-- The directories stay there. -/
theorem ready (h : site.Reached names start progress tree) (hready : site.Ready start)
    (hnames : ∀ name ∈ names, FileName.isStandard name = true) : site.Ready tree where
  noLinks := h.noLinks hready hnames
  files := hready.files.keeps (h.keeps hready hnames)
  reports hreports := (hready.reports hreports).keeps (h.keeps hready hnames)

/-- No file is written over. -/
theorem entryAt?_filePlace (h : site.Reached names start progress tree)
    (hnames : ∀ name ∈ names, FileName.isStandard name = true)
    (hname : FileName.isStandard name = true) :
    tree.entryAt? (site.filePlace name) = start.entryAt? (site.filePlace name) :=
  h.others _ fun report hreport => filePlace_ne_reportPlace hname (hnames report hreport)

/-- **A task does not see what the others have done.** -/
theorem alike (h : site.Reached names start progress tree) (hready : site.Ready start)
    (hnames : ∀ name ∈ names, FileName.isStandard name = true)
    (hname : FileName.isStandard name = true) : site.Alike name start tree where
  file := h.entryAt?_filePlace hnames hname
  report := h.directory_iff hready hnames _

/-- A task that writes nothing comes a step further in the same tree. -/
theorem ahead_of_same (h : site.Reached names start progress tree)
    (hreport : site.report? start name (progress name + 1) =
      site.report? start name (progress name)) :
    site.Reached names start (ahead progress name 1) tree where
  workingDirectory := h.workingDirectory
  reports other hother := by
    rw [h.reports other hother, ahead]
    split
    · rename_i hsame
      rw [hsame, hreport]
    · rfl
  others := h.others

/-- A task that writes its report comes a step further where the report is. -/
theorem ahead_of_written {bytes : List UInt8} (h : site.Reached names start progress tree)
    (hnames : ∀ name ∈ names, FileName.isStandard name = true) (hname : name ∈ names)
    (hreport : site.report? start name (progress name + 1) = some bytes) :
    site.Reached names start (ahead progress name 1)
      (tree.put (site.reportPlace name) (.file bytes)) where
  workingDirectory := h.workingDirectory
  reports other hother := by
    rw [FileTree.entryAt?_put tree (reportPlace_ne_nil site name), ahead]
    by_cases hsame : other = name
    · rw [hsame, if_pos rfl, if_pos rfl, hreport]
      rfl
    · have hne : site.reportPlace other ≠ site.reportPlace name := fun heq =>
        hsame (reportPlace_inj (hnames other hother) (hnames name hname) heq)
      rw [if_neg hne, if_neg hsame, h.reports other hother]
  others place hplace := by
    rw [FileTree.entryAt?_put tree (reportPlace_ne_nil site name), if_neg (hplace name hname),
      h.others place hplace]

/-- **One step of one task**: it comes one step further, and so does the tree. -/
theorem step {w : Workspace} (h : site.Reached names start progress w.tree)
    (hready : site.Ready start) (hnames : ∀ name ∈ names, FileName.isStandard name = true)
    (hname : name ∈ names) :
    ∃ later journal,
      (site.stage start name (progress name)).step site.config site.output w =
          (site.stage start name (progress name + 1), ⟨later, journal⟩) ∧
        site.Reached names start (ahead progress name 1) later := by
  have hstandard := hnames name hname
  have hthere := h.ready hready hnames
  have halike := h.alike hready hnames hstandard
  have htask := concerns_stage hready hstandard (progress name)
  obtain ⟨journal, hstep⟩ :=
    Task.step_eq site.config site.output (site.stage start name (progress name)) w
  -- What the task finds now is what it would have found at the start.
  rw [next_congr hready hthere hstandard halike htask] at hstep
  refine ⟨_, journal, hstep, ?_⟩
  rw [Task.leaves, writes?_congr hready hthere hstandard halike htask]
  cases hwrites : (site.stage start name (progress name)).writes? site.config site.output start with
  | none => exact h.ahead_of_same (by rw [report?, hwrites]; rfl)
  | some found =>
    obtain ⟨place, bytes⟩ := found
    obtain ⟨rfl, -⟩ := eq_of_writes? hready hstandard htask hwrites
    exact h.ahead_of_written hnames hname (by rw [report?, hwrites]; rfl)

/-- Several steps of one task. -/
theorem steps {w : Workspace} (h : site.Reached names start progress w.tree)
    (hready : site.Ready start) (hnames : ∀ name ∈ names, FileName.isStandard name = true)
    (hname : name ∈ names) (count : Nat) :
    ∃ later journal,
      Task.steps site.config site.output count (site.stage start name (progress name)) w =
          (site.stage start name (progress name + count), ⟨later, journal⟩) ∧
        site.Reached names start (ahead progress name count) later := by
  induction count generalizing progress w with
  | zero =>
    refine ⟨w.tree, w.journal, rfl, h.congr fun other _ => ?_⟩
    rw [ahead]
    split <;> rfl
  | succ count ih =>
    obtain ⟨middle, journal, hstep, hmiddle⟩ := h.step hready hnames hname
    have hone : ahead progress name 1 name = progress name + 1 := if_pos rfl
    obtain ⟨later, journal', hsteps, hlater⟩ := ih (w := ⟨middle, journal⟩) hmiddle
    rw [hone] at hsteps
    refine ⟨later, journal', ?_, hlater.congr fun other _ => ?_⟩
    · rw [Task.steps, hstep]
      dsimp only
      rw [hsteps, Nat.add_assoc, Nat.add_comm 1 count]
    · rw [ahead, ahead, ahead]
      split
      · rw [Nat.add_assoc, Nat.add_comm 1 count]
      · rfl

end Reached

/-- Some tasks are finished, and the others have come as far as they had. -/
def finishing (names : List String) (progress : String → Nat) : String → Nat := fun name =>
  if name ∈ names then Task.stepsToFinish else progress name

/-- **Taking tasks one after the other finishes them.** -/
theorem runTasks_reached {w : Workspace} {todo : List String}
    (h : site.Reached names start progress w.tree) (hready : site.Ready start)
    (hnames : ∀ name ∈ names, FileName.isStandard name = true)
    (htodo : ∀ name ∈ todo, name ∈ names ∧ progress name = 0) (hnodup : todo.Nodup) :
    ∃ later journal,
      runTasks site.config site.output (todo.map site.pathOf) w =
          (todo.map (site.outcome start), ⟨later, journal⟩) ∧
        site.Reached names start (finishing todo progress) later := by
  induction todo generalizing progress w with
  | nil =>
    exact ⟨w.tree, w.journal, rfl, h.congr fun name _ => if_neg List.not_mem_nil⟩
  | cons first todo ih =>
    obtain ⟨hfirst, hzero⟩ := htodo first (List.mem_cons_self ..)
    obtain ⟨hnew, hnodup⟩ := List.nodup_cons.1 hnodup
    obtain ⟨middle, journal, hsteps, hmiddle⟩ :=
      h.steps hready hnames hfirst Task.stepsToFinish
    have hlater : ∀ name ∈ todo,
        name ∈ names ∧ ahead progress first Task.stepsToFinish name = 0 := by
      intro name hname
      obtain ⟨hmem, hzero⟩ := htodo name (List.mem_cons_of_mem first hname)
      refine ⟨hmem, ?_⟩
      rw [ahead, if_neg, hzero]
      rintro rfl
      exact hnew hname
    obtain ⟨later, journal', hrest, hreached⟩ :=
      ih (w := ⟨middle, journal⟩) hmiddle hlater hnodup
    have hfinished : site.stage start first (progress first + Task.stepsToFinish) =
        .finished (site.outcome start first) := by
      rw [hzero, Nat.zero_add]
      exact (stage_three site start first).1
    have hwaiting : Task.waiting (site.pathOf first) = site.stage start first (progress first) := by
      rw [hzero]
      rfl
    refine ⟨later, journal', ?_, hreached.congr fun name _ => ?_⟩
    · rw [List.map_cons, runTasks, hwaiting, hsteps, hfinished]
      dsimp only
      rw [hrest]
      rfl
    · rw [finishing, finishing, ahead]
      by_cases hsame : name = first
      · subst hsame
        rw [if_pos (List.mem_cons_self ..), if_neg hnew, if_pos rfl, hzero, Nat.zero_add]
      · by_cases hmem : name ∈ todo
        · rw [if_pos (List.mem_cons_of_mem _ hmem), if_pos hmem]
        · have hnot : name ∉ first :: todo := by
            rw [List.mem_cons, not_or]
            exact ⟨hsame, hmem⟩
          rw [if_neg hnot, if_neg hmem, if_neg hsame]

end Batch.Site

end Screening
