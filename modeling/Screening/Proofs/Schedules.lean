import Screening.Proofs.Preparation

/-!
# Schedules

The tasks of a batch may take their steps in any order.  Nothing that can be seen afterwards depends
on it.

* `Batch.takeTurns` — tasks take their steps in the order that a schedule says; `runInTurns` is a
  batch that does so.
* `Reached.takeTurns` — the number of its turns determines how far a task comes.
* `Batch.OrderFree`, `orderFree_of_finished` — a batch gives the same outcomes and leaves the same
  files under every schedule that finishes its tasks, and three turns of each do.
-/

set_option autoImplicit false

namespace Screening.Batch

open FileTree Working

/-! ## Taking turns -/

/-- The task at a place takes its next step; if there is none nothing happens. -/
def turn (config : Config) (output : String) (place : Nat) (tasks : List Task) (w : Workspace) :
    List Task × Workspace :=
  match tasks[place]? with
  | some task =>
    let (next, w') := task.step config output w
    (tasks.set place next, w')
  | none => (tasks, w)

/-- Tasks take their steps in the order that a schedule says. -/
def takeTurns (config : Config) (output : String) :
    List Nat → List Task → Workspace → List Task × Workspace
  | [], tasks, w => (tasks, w)
  | place :: schedule, tasks, w =>
    let (tasks', w') := turn config output place tasks w
    takeTurns config output schedule tasks' w'

/-- A batch whose tasks take turns. -/
def runInTurns (directory : String) (config : Config) (schedule : List Nat) :
    Working (List Task) := do
  let paths ← prepare directory config
  let outputDirectory := Path.join directory config.outputDirectory
  let (tasks, w) := takeTurns config outputDirectory schedule (paths.map .waiting) (← get)
  set w
  return tasks

namespace Site

variable {site : Site} {names : List String} {start : FileTree} {progress : String → Nat}

/-- The numbers of steps after the turns of a schedule. -/
def turned (names : List String) (schedule : List Nat) (progress : String → Nat) : String → Nat :=
  fun name => progress name + schedule.count (names.idxOf name)

/-- The tasks on some files after some steps of each. -/
def tasks (site : Site) (start : FileTree) (names : List String) (progress : String → Nat) :
    List Task :=
  names.map fun name => site.stage start name (progress name)

/-- A task that has moved on is in its place among the others. -/
theorem set_tasks {name : String} {place : Nat} (hnodup : names.Nodup)
    (hname : names[place]? = some name) :
    (site.tasks start names progress).set place (site.stage start name (progress name + 1)) =
      site.tasks start names (ahead progress name 1) := by
  obtain ⟨hlt, hget⟩ := List.getElem?_eq_some_iff.1 hname
  refine List.ext_getElem (by simp [tasks]) fun other h h' => ?_
  have hother : other < names.length := by simpa [tasks] using h'
  rw [List.getElem_set]
  simp only [tasks, List.getElem_map, ahead]
  by_cases hsame : place = other
  · subst hsame
    rw [if_pos rfl, if_pos hget, hget]
  · have hne : names[other] ≠ name := fun heq => hsame
      (hnodup.getElem_inj_iff.1 (hget.trans heq.symm))
    rw [if_neg hsame, if_neg hne]

theorem tasks_congr {progress' : String → Nat}
    (h : ∀ name ∈ names, progress' name = progress name) :
    site.tasks start names progress' = site.tasks start names progress :=
  List.map_congr_left fun name hname => by rw [h name hname]

/-- The turn of a place is that of the task there. -/
theorem turned_of_getElem? (progress : String → Nat) {name : String} {place : Nat}
    (hnodup : names.Nodup) (hname : names[place]? = some name) (other : String)
    (hother : other ∈ names) :
    turned names [place] progress other = ahead progress name 1 other := by
  obtain ⟨hlt, hget⟩ := List.getElem?_eq_some_iff.1 hname
  have hplace : names.idxOf name = place := by rw [← hget, hnodup.idxOf_getElem]
  rw [turned, ahead, List.count_singleton]
  by_cases hsame : other = name
  · rw [hsame, hplace, if_pos rfl]
    simp
  · have hne : place ≠ names.idxOf other := fun heq =>
      hsame ((List.idxOf_inj hother).1 (heq.symm.trans hplace.symm))
    rw [if_neg hsame]
    simp [hne]

theorem turned_of_getElem?_none (progress : String → Nat) {place : Nat}
    (hnone : names[place]? = none) (other : String) (hother : other ∈ names) :
    turned names [place] progress other = progress other := by
  have hne : place ≠ names.idxOf other := by
    have hlt := List.idxOf_lt_length_of_mem hother
    have hle := List.getElem?_eq_none_iff.1 hnone
    omega
  rw [turned, List.count_singleton]
  simp [hne]

/-- **One turn**: the task whose turn it is comes one step further. -/
theorem Reached.turn {w : Workspace} (h : site.Reached names start progress w.tree)
    (hready : site.Ready start) (hnames : ∀ name ∈ names, FileName.isStandard name = true)
    (hnodup : names.Nodup) (place : Nat) :
    ∃ later journal,
      Batch.turn site.config site.output place (site.tasks start names progress) w =
          (site.tasks start names (turned names [place] progress), ⟨later, journal⟩) ∧
        site.Reached names start (turned names [place] progress) later := by
  have htask : (site.tasks start names progress)[place]? =
      names[place]?.map fun name => site.stage start name (progress name) := List.getElem?_map
  rw [Batch.turn, htask]
  cases hplace : names[place]? with
  | none =>
    have hsame := turned_of_getElem?_none progress hplace
    rw [tasks_congr hsame]
    exact ⟨w.tree, w.journal, rfl, h.congr hsame⟩
  | some name =>
    have hsame := turned_of_getElem? progress hnodup hplace
    obtain ⟨later, journal, hstep, hlater⟩ :=
      h.step hready hnames (List.mem_of_getElem? hplace)
    refine ⟨later, journal, ?_, hlater.congr hsame⟩
    rw [tasks_congr hsame, ← set_tasks hnodup hplace, Option.map_some]
    dsimp only
    rw [hstep]

/-- **The numbers of their turns determine how far tasks come**, and with them the tree. -/
theorem Reached.takeTurns {w : Workspace} {schedule : List Nat}
    (h : site.Reached names start progress w.tree) (hready : site.Ready start)
    (hnames : ∀ name ∈ names, FileName.isStandard name = true) (hnodup : names.Nodup) :
    ∃ later journal,
      Batch.takeTurns site.config site.output schedule (site.tasks start names progress) w =
          (site.tasks start names (turned names schedule progress), ⟨later, journal⟩) ∧
        site.Reached names start (turned names schedule progress) later := by
  induction schedule generalizing progress w with
  | nil => exact ⟨w.tree, w.journal, rfl, h⟩
  | cons place schedule ih =>
    obtain ⟨middle, journal, hturn, hmiddle⟩ := h.turn hready hnames hnodup place
    obtain ⟨later, journal', hturns, hlater⟩ := ih (w := ⟨middle, journal⟩) hmiddle
    have hcount (name : String) : turned names schedule (turned names [place] progress) name =
        turned names (place :: schedule) progress name := by
      rw [turned, turned, turned, List.count_singleton, List.count_cons]
      omega
    refine ⟨later, journal', ?_, hlater.congr fun name _ => (hcount name).symm⟩
    rw [Batch.takeTurns, hturn]
    dsimp only
    rw [hturns, tasks_congr fun name _ => hcount name]

end Site

/-! ## Batches under a schedule -/

variable {directory : String} {config : Config} {w w' : Workspace}

theorem takeTurns_nil (config : Config) (output : String) (schedule : List Nat) (w : Workspace) :
    takeTurns config output schedule [] w = ([], w) := by
  induction schedule with
  | nil => rfl
  | cons place schedule ih => exact ih

/-- The tasks that a batch starts come as far as their turns take them. -/
theorem exists_turned {site : Site} {tree : FileTree}
    (hready : site.names tree ≠ [] → site.Ready w.tree) (schedule : List Nat) :
    let progress := Site.turned (site.names tree) schedule fun _ => 0
    ∃ later journal,
      takeTurns site.config site.output schedule
          (((site.names tree).map site.pathOf).map .waiting) w =
          (site.tasks w.tree (site.names tree) progress, ⟨later, journal⟩) ∧
        site.Reached (site.names tree) w.tree progress later := by
  by_cases hnames : site.names tree = []
  · rw [hnames]
    exact ⟨w.tree, w.journal, takeTurns_nil _ _ schedule w, rfl,
      fun _ hname => absurd hname List.not_mem_nil, fun _ _ => rfl⟩
  · obtain ⟨later, journal, hturns, hreached⟩ :=
      Site.Reached.takeTurns (.refl site (site.names tree) w.tree) (hready hnames)
        (site.isStandard_names tree) (site.nodup_names tree)
    refine ⟨later, journal, ?_, hreached⟩
    rw [List.map_map]
    exact hturns

theorem runInTurns_of_prepare {paths : List String} {start : Workspace}
    (h : prepare directory config w = .ok paths start) (schedule : List Nat) :
    runInTurns directory config schedule w =
      let (tasks, later) := takeTurns config (Path.join directory config.outputDirectory) schedule
        (paths.map .waiting) start
      .ok tasks later := by
  rw [runInTurns, bind_eq, h]
  rfl

/-- **Order does not matter**: under every schedule the tasks of a batch that are finished have come
to these outcomes and left these files; and they are finished after three turns of each. -/
def OrderFree (directory : String) (config : Config) (w : Workspace) (outcomes : List Outcome)
    (tree : FileTree) : Prop :=
  ∀ schedule, ∃ tasks later, runInTurns directory config schedule w = .ok tasks later ∧
    tasks.length = outcomes.length ∧
    ((∀ place < outcomes.length, Task.stepsToFinish ≤ schedule.count place) →
      ∀ task ∈ tasks, task.outcome?.isSome = true) ∧
    ((∀ task ∈ tasks, task.outcome?.isSome = true) →
      tasks.map Task.outcome? = outcomes.map some ∧ tree.Same later.tree)

/-- **A batch is the same in any order.** -/
theorem orderFree_of_finished {site : Site} {start : Workspace} {tree : FileTree}
    (hprepare : prepare site.directory site.config w =
      .ok ((site.names w.tree).map site.pathOf) start)
    (hready : site.names w.tree ≠ [] → site.Ready start.tree)
    (hreached : site.Reached (site.names w.tree) start.tree (fun _ => Task.stepsToFinish) tree) :
    OrderFree site.directory site.config w ((site.names w.tree).map (site.outcome start.tree))
      tree := by
  intro schedule
  obtain ⟨later, journal, hturns, hlater⟩ := exists_turned hready schedule
  have hrun : runInTurns site.directory site.config schedule w =
      .ok (site.tasks start.tree (site.names w.tree)
        (Site.turned (site.names w.tree) schedule fun _ => 0)) ⟨later, journal⟩ := by
    rw [runInTurns_of_prepare hprepare]
    show EStateM.Result.ok (takeTurns site.config site.output schedule _ start).1
      (takeTurns site.config site.output schedule _ start).2 = _
    rw [hturns]
  refine ⟨_, ⟨later, journal⟩, hrun, ?_, fun hcounts task htask => ?_, fun hfinished => ?_⟩
  · rw [Site.tasks, List.length_map, List.length_map]
  · obtain ⟨name, hname, rfl⟩ := List.mem_map.1 htask
    have hlt : (site.names w.tree).idxOf name <
        ((site.names w.tree).map (site.outcome start.tree)).length := by
      rw [List.length_map]
      exact List.idxOf_lt_length_of_mem hname
    have hle : 3 ≤ Site.turned (site.names w.tree) schedule (fun _ => 0) name := by
      rw [Site.turned, Nat.zero_add]
      exact hcounts _ hlt
    rw [(Site.stage_of_finished (Site.stage_three site start.tree name).1 hle).1]
    rfl
  · have hall (name : String) (hname : name ∈ site.names w.tree) :=
      Site.stage_of_isSome (hfinished _ (List.mem_map_of_mem hname))
    constructor
    · rw [Site.tasks, List.map_map, List.map_map]
      refine List.map_congr_left fun name hname => ?_
      rw [Function.comp_apply, Function.comp_apply, (hall name hname).1]
      rfl
    · exact hreached.same (hlater.congr_report? fun name hname => (hall name hname).2.symm)

end Screening.Batch
