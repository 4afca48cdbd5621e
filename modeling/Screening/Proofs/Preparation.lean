import Screening.Proofs.MakingDirectories
import Screening.Proofs.Progress

/-!
# How a batch begins and ends

Before the first task a batch finds the files and makes the directory for reports.  After that the
tasks are on their own.

* `Batch.prepare` — everything before the first task; a batch is this and then the tasks (`run_eq`).
* `Site.Prepared tree start` — the tree in which the tasks start has grown by the directory for
  reports, if there is to be one, and everything is in place.
* `exists_prepared`, `exists_reached` — how a batch begins, and how it ends if it is one.
-/

set_option autoImplicit false

namespace Screening.Batch

open FileTree Working

/-- Everything that a batch does before its first task. -/
def prepare (directory : String) (config : Config) : Working (List String) := do
  let paths ← Working.ofExcept (scan directory (← get).tree)
  Working.note (.filesFound paths.length directory)
  if config.writeReports && !paths.isEmpty then
    Working.change (FileTree.makeDirectories (Path.join directory config.outputDirectory))
  return paths

variable {directory : String} {config : Config} {w w' : Workspace}

/-- **A batch is its preparation and then its tasks.** -/
theorem run_eq (directory : String) (config : Config) (w : Workspace) :
    run directory config w =
      match prepare directory config w with
      | .ok paths w' =>
        let (outcomes, later) :=
          runTasks config (Path.join directory config.outputDirectory) paths w'
        .ok outcomes later
      | .error cause w' => .error cause w' := by
  simp only [run, prepare, bind_eq, get_eq, ofExcept_eq]
  cases scan directory w.tree with
  | error cause => rfl
  | ok paths =>
    simp only [result, note_eq]
    split
    · simp only [bind_eq]
      cases change (makeDirectories (Path.join directory config.outputDirectory))
        ⟨w.tree, w.journal ++ #[.filesFound paths.length directory]⟩ <;> rfl
    · rfl

/-- The notes after the files were found. -/
def journalOfScan (directory : String) (paths : List String) (w : Workspace) : Array Event :=
  w.journal ++ #[.filesFound paths.length directory]

theorem prepare_of_scan_error {cause : Error} (h : scan directory w.tree = .error cause) :
    prepare directory config w = .error cause w := by
  rw [prepare, bind_eq, get_eq]
  dsimp only
  rw [h]
  rfl

theorem prepare_of_scan {paths : List String} (h : scan directory w.tree = .ok paths) :
    prepare directory config w =
      if config.writeReports && !paths.isEmpty then
        match makeDirectories (Path.join directory config.outputDirectory) w.tree with
        | .ok _ tree => .ok paths ⟨tree, journalOfScan directory paths w⟩
        | .error cause tree => .error (.io cause) ⟨tree, journalOfScan directory paths w⟩
      else .ok paths ⟨w.tree, journalOfScan directory paths w⟩ := by
  simp only [prepare, bind_eq, get_eq, ofExcept_eq, h, result, note_eq]
  split
  · rw [bind_eq, change]
    dsimp only
    cases makeDirectories (Path.join directory config.outputDirectory) w.tree <;> rfl
  · rfl

/-- The names of the files in a directory of a tree. -/
def Site.names (site : Site) (tree : FileTree) : List String := tree.dataFiles site.files

/-- The tasks can start in a tree, now that everything before them was done in another one. -/
structure Site.Prepared (site : Site) (tree start : FileTree) : Prop where
  /-- The files are in a directory. -/
  files : tree.LeadsTo site.directory site.files
  /-- The directory for reports was made, and nothing else. -/
  grown : Grown (site.output :: Path.ancestors site.output) tree start
  /-- Nothing was made if there is nothing to report. -/
  unchanged : site.config.writeReports = false ∨ site.names tree = [] → start = tree
  /-- Everything is in place if there is a file. -/
  ready : site.names tree ≠ [] → site.Ready start

namespace Site

theorem isStandard_names (site : Site) (tree : FileTree) :
    ∀ name ∈ site.names tree, FileName.isStandard name = true :=
  fun _ hname => (mem_dataFiles.1 hname).1

theorem nodup_names (site : Site) (tree : FileTree) : (site.names tree).Nodup :=
  nodup_dataFiles tree site.files

end Site

/-- A batch that finds the directory for reports there begins at once. -/
theorem exists_prepare_of_ready {site : Site} (hready : site.Ready w.tree) :
    ∃ journal, prepare site.directory site.config w =
      .ok ((site.names w.tree).map site.pathOf) ⟨w.tree, journal⟩ := by
  have hscan : scan site.directory w.tree = .ok ((site.names w.tree).map site.pathOf) :=
    scan_of_leadsTo hready.files
  refine ⟨journalOfScan site.directory ((site.names w.tree).map site.pathOf) w, ?_⟩
  rw [prepare_of_scan hscan]
  split
  · rename_i hreports
    rw [Bool.and_eq_true] at hreports
    have hmade : makeDirectories (Path.join site.directory site.config.outputDirectory) w.tree =
        .ok () w.tree := makeDirectories_of_leadsTo (hready.reports hreports.1)
    rw [hmade]
  · rfl

/-- **How a batch begins**, if it gets to its tasks. -/
theorem exists_prepared {paths : List String} (hlinks : w.tree.NoLinks)
    (h : prepare directory config w = .ok paths w') :
    ∃ site : Site, site.directory = directory ∧ site.config = config ∧
      site.Prepared w.tree w'.tree ∧ scan directory w.tree = .ok paths ∧
      paths = (site.names w.tree).map site.pathOf := by
  cases hscan : scan directory w.tree with
  | error cause =>
    rw [prepare_of_scan_error hscan] at h
    cases h
  | ok found =>
    obtain ⟨files, hfiles, hfound⟩ := exists_leadsTo_of_scan hlinks hscan
    have hempty : found.isEmpty = (w.tree.dataFiles files).isEmpty := by
      rw [hfound, List.isEmpty_map]
    rw [prepare_of_scan hscan] at h
    split at h
    · rename_i hreports
      rw [hempty, Bool.and_eq_true, Bool.not_eq_true', List.isEmpty_eq_false_iff] at hreports
      obtain ⟨hwrite, hnames⟩ := hreports
      have hgrown := grown_makeDirectories hlinks (Path.join directory config.outputDirectory)
      split at h
      · rename_i tree hmade
        cases h
        rw [treeAfter_ok hmade] at hgrown
        obtain ⟨reports, hleads⟩ := leadsTo_of_makeDirectories hlinks
          (Path.join_ne_empty hfiles.ne_empty config.outputDirectory) hmade
        refine ⟨⟨config, directory, files, reports⟩, rfl, rfl, ⟨hfiles, hgrown, ?_, fun _ => ?_⟩,
          rfl, hfound⟩
        · rintro (hno | hno)
          · exact absurd (hwrite.symm.trans hno) Bool.noConfusion
          · exact absurd hno hnames
        · exact ⟨⟨hgrown.noLinks hlinks, hfiles.keeps hgrown.keeps⟩, fun _ => hleads⟩
      · cases h
    · rename_i hreports
      cases h
      -- No reports will be written, so it does not matter where they would go.
      refine ⟨⟨config, directory, files, []⟩, rfl, rfl,
        ⟨hfiles, .refl _ _, fun _ => rfl, fun hnames => ⟨⟨hlinks, hfiles⟩, fun hwrite => ?_⟩⟩,
        rfl, hfound⟩
      refine absurd ?_ hreports
      rw [hempty, Bool.and_eq_true, Bool.not_eq_true', List.isEmpty_eq_false_iff]
      exact ⟨hwrite, hnames⟩

/-- The tasks that a batch starts finish, and leave the tree that three steps of each lead to. -/
theorem exists_reached {site : Site} {tree : FileTree}
    (hready : site.names tree ≠ [] → site.Ready w.tree) :
    ∃ later journal,
      runTasks site.config site.output ((site.names tree).map site.pathOf) w =
          ((site.names tree).map (site.outcome w.tree), ⟨later, journal⟩) ∧
        site.Reached (site.names tree) w.tree (fun _ => Task.stepsToFinish) later := by
  by_cases hnames : site.names tree = []
  · rw [hnames]
    exact ⟨w.tree, w.journal, rfl, rfl, fun _ hname => absurd hname List.not_mem_nil,
      fun _ _ => rfl⟩
  · obtain ⟨later, journal, hrun, hreached⟩ :=
      Site.runTasks_reached (.refl site (site.names tree) w.tree) (hready hnames)
        (site.isStandard_names tree) (fun _ hname => ⟨hname, rfl⟩) (site.nodup_names tree)
    exact ⟨later, journal, hrun, hreached.congr fun _ hname => (if_pos hname).symm⟩

/-- A batch that gets to its tasks finishes. -/
theorem exists_run_of_prepare {site : Site} {paths : List String} {start : Workspace}
    (hpaths : paths = (site.names w.tree).map site.pathOf)
    (hprepare : prepare site.directory site.config w = .ok paths start)
    (hready : site.names w.tree ≠ [] → site.Ready start.tree) :
    ∃ later, run site.directory site.config w =
        .ok ((site.names w.tree).map (site.outcome start.tree)) later ∧
      site.Reached (site.names w.tree) start.tree (fun _ => Task.stepsToFinish) later.tree := by
  obtain ⟨later, journal, hrun, hreached⟩ := exists_reached hready
  refine ⟨⟨later, journal⟩, ?_, hreached⟩
  rw [run_eq, hprepare]
  dsimp only
  rw [hpaths]
  show EStateM.Result.ok (runTasks site.config site.output _ start).1
    (runTasks site.config site.output _ start).2 = _
  rw [hrun]

/-- **How a batch ends**, if it gets to its tasks. -/
theorem exists_finished {outcomes : List Outcome} (hlinks : w.tree.NoLinks)
    (h : run directory config w = .ok outcomes w') :
    ∃ (site : Site) (start : Workspace), site.directory = directory ∧ site.config = config ∧
      prepare directory config w = .ok ((site.names w.tree).map site.pathOf) start ∧
      scan directory w.tree = .ok ((site.names w.tree).map site.pathOf) ∧
      site.Prepared w.tree start.tree ∧
      outcomes = (site.names w.tree).map (site.outcome start.tree) ∧
      site.Reached (site.names w.tree) start.tree (fun _ => Task.stepsToFinish) w'.tree := by
  cases hprepare : prepare directory config w with
  | error cause start =>
    rw [run_eq, hprepare] at h
    cases h
  | ok paths start =>
    obtain ⟨site, rfl, rfl, hprepared, hscan, hpaths⟩ := exists_prepared hlinks hprepare
    obtain ⟨later, hrun, hreached⟩ := exists_run_of_prepare hpaths hprepare hprepared.ready
    rw [hrun] at h
    cases h
    rw [hpaths] at hscan
    exact ⟨site, start, rfl, rfl, by rw [hpaths], hscan, hprepared, rfl, hreached⟩

/-! ## A directory with one file -/

/-- A directory with a file and nothing else. -/
def oneFile (bytes : List UInt8) : FileTree :=
  ((FileTree.empty []).put ["d"] .directory).put ["WFULL0007.tmp", "d"] (.file bytes)

theorem entryAt?_oneFile (bytes : List UInt8) (place : Location) :
    (oneFile bytes).entryAt? place =
      if place = ["WFULL0007.tmp", "d"] then some (.file bytes)
      else if place = ["d"] then some .directory
      else if place = [] then some .directory else none := by
  rw [oneFile, entryAt?_put _ (List.cons_ne_nil _ _), entryAt?_put _ (List.cons_ne_nil _ _)]
  cases place <;> rfl

theorem noLinks_oneFile (bytes : List UInt8) : (oneFile bytes).NoLinks := by
  intro place target hlink
  rw [entryAt?_oneFile] at hlink
  split at hlink
  · cases hlink
  · split at hlink
    · cases hlink
    · split at hlink <;> cases hlink

theorem leadsTo_oneFile (bytes : List UInt8) : (oneFile bytes).LeadsTo "d" ["d"] where
  allowed := rfl
  steps := .down (by rw [entryAt?_oneFile]; rfl) (by decide) (by decide)
    (.here (by rw [entryAt?_oneFile]; rfl))

theorem makeDirectories_oneFile (bytes : List UInt8) :
    makeDirectories "d/readable" (oneFile bytes) =
      .ok () ((oneFile bytes).put ["readable", "d"] .directory) := by
  have hplan : (oneFile bytes).planFor "d/readable" = .ok (some ["readable", "d"]) := by
    have hparent : (oneFile bytes).locateParent "d/readable" = .ok ["d"] :=
      locateParent_of_leads rfl (leadsTo_oneFile bytes).steps
    have hback : Path.stepsBackwards "d/readable" = ["readable", "d"] := by decide
    rw [planFor, placeForDirectory_eq (by decide) hback hparent, entryAt?_oneFile]
    rfl
  have hancestors : Path.ancestors "d/readable" = ["d"] := by decide
  have hmissing : (oneFile bytes).planFor "d/readable" ≠ .error .notFound := fun h => by
    rw [hplan] at h
    cases h
  rw [makeDirectories, if_neg (by decide), hancestors, makeWithin_of_ne hmissing,
    makeDirectoryUnlessThere_eq, hplan]
  rfl

/-- A batch can be run there. -/
theorem exists_run_oneFile (bytes : List UInt8) :
    ∃ outcomes w', run "d" Config.standard ⟨oneFile bytes, #[]⟩ = .ok outcomes w' := by
  have honeFile : (⟨oneFile bytes, #[]⟩ : Workspace).tree = oneFile bytes := rfl
  have houtput : Path.join "d" Config.standard.outputDirectory = "d/readable" := by decide
  rw [run_eq, prepare_of_scan (scan_of_leadsTo (leadsTo_oneFile bytes)), houtput, honeFile,
    makeDirectories_oneFile]
  split
  · exact ⟨_, _, rfl⟩
  · rename_i hprepare
    split at hprepare <;> cases hprepare

end Screening.Batch
