import Screening.Proofs.Acceptance
import Screening.Proofs.Preparation

/-!
# What a batch leaves behind

A batch writes its reports and makes the directory for them.  It leaves everything else alone, and
it can be run again: then it comes to the same outcomes and finds the files as they are to be.

* `Batch.Footprint outcomes` — what a batch may have done to the files of a tree.
* `footprint_of_finished`, `footprint_of_error` — it has done no more when it ends or fails.
* `exists_rerun` — running it again changes nothing.
* `batch_footprint` — all of it.
-/

set_option autoImplicit false

namespace Screening.Batch

open FileTree Working

/-- A place is that of the report of one of the outcomes. -/
def IsReport (tree : FileTree) (outcomes : List Outcome) (place : Location) : Prop :=
  ∃ outcome ∈ outcomes, ∃ summary report,
    outcome.status = .decoded summary (some report) ∧ tree.open? report = .ok place

/-- What a batch may have done to the files by the time it ends or fails. -/
structure Footprint (directory : String) (config : Config) (w : Workspace)
    (outcomes : List Outcome) (tree : FileTree) : Prop where
  /-- Relative paths start where they did. -/
  workingDirectory : tree.workingDirectory = w.tree.workingDirectory
  /-- A place is as it was, or a directory for reports was made where nothing was, or a report is
  there. -/
  places : ∀ place, tree.entryAt? place = w.tree.entryAt? place ∨
    (w.tree.entryAt? place = none ∧ tree.entryAt? place = some .directory ∧
      ∃ path ∈ Path.join directory config.outputDirectory ::
        Path.ancestors (Path.join directory config.outputDirectory), tree.LeadsTo path place) ∨
    IsReport tree outcomes place
  /-- A report says what the file said that was there to begin with. -/
  reports : ∀ outcome ∈ outcomes, ∀ summary report,
    outcome.status = .decoded summary (some report) →
    ∃ file place, ((DataFile.openIndexed outcome.path).outcome w).1 = .ok file ∧
      tree.locate .look report = .ok (place, some (.file
        (Report.text file.contents file.kpoint config.report).toUTF8.toList))
  /-- Nothing is done if there is nothing to report. -/
  idle : config.writeReports = false ∨ scan directory w.tree = .ok [] ∨
    w.tree.isDirectory directory = false → w.tree.Same tree

variable {directory : String} {config : Config} {w w' : Workspace} {outcomes : List Outcome}

namespace Site

variable {site : Site} {tree start later : FileTree} {name : String}

/-! ## Files before and after -/

theorem Prepared.found (h : site.Prepared tree start) (hlinks : tree.NoLinks) : site.Found start :=
  ⟨h.grown.noLinks hlinks, h.files.keeps h.grown.keeps⟩

/-- The files are there when the tasks start. -/
theorem Prepared.entryAt?_filePlace (h : site.Prepared tree start)
    (hname : name ∈ site.names tree) :
    start.entryAt? (site.filePlace name) = tree.entryAt? (site.filePlace name) := by
  obtain ⟨-, bytes, hfile⟩ := mem_dataFiles.1 hname
  exact (h.grown.entryAt? hfile).trans hfile.symm

/-- The tasks find the files as they were to begin with. -/
theorem Prepared.openedIn (h : site.Prepared tree start) (hlinks : tree.NoLinks)
    (hname : name ∈ site.names tree) :
    DataFile.openedIn (site.pathOf name) start = DataFile.openedIn (site.pathOf name) tree :=
  openedIn_congr ⟨hlinks, h.files⟩ (h.found hlinks) (site.isStandard_names tree name hname)
    (h.entryAt?_filePlace hname)

/-! ## Reports -/

/-- **A report is where its path leads**, once it is written. -/
theorem locate_report {names : List String} {bytes : List UInt8} (hready : site.Ready start)
    (hnames : ∀ name ∈ names, FileName.isStandard name = true)
    (hreached : site.Reached names start (fun _ => Task.stepsToFinish) later)
    (hname : name ∈ names) (hwritten : site.written? start name = some bytes) :
    later.locate .look (reportPath site.output (site.pathOf name)) =
      .ok (site.reportPlace name, some (.file bytes)) := by
  have hstandard := hnames name hname
  have hthere := hreached.ready hready hnames
  obtain ⟨hreports, hplace, -⟩ := placeForFile_of_written? hready hstandard hwritten
  have hcheck := hready.checkPath_of_placeForFile hstandard hreports hplace
  have hthree : site.report? start name Task.stepsToFinish = some bytes :=
    (stage_three site start name).2.trans hwritten
  have hentry : later.entryAt? (site.reportPlace name) = some (.file bytes) := by
    rw [hreached.reports name hname, hthree]
    rfl
  rw [hready.reportPath_eq hstandard, locate_join hthere.noLinks (hthere.reports hreports)
    (FileName.isPlain_reportName hstandard) (FileName.utf8ByteSize_reportName hstandard) hcheck]
  exact congrArg (fun entry => Except.ok (site.reportPlace name, entry)) hentry

end Site

/-! ## The end of a batch -/

/-- A batch without outcomes may have made directories alone. -/
theorem footprint_of_grown {tree : FileTree}
    (hgrown : Grown (Path.join directory config.outputDirectory ::
      Path.ancestors (Path.join directory config.outputDirectory)) w.tree tree)
    (hidle : config.writeReports = false ∨ scan directory w.tree = .ok [] ∨
      w.tree.isDirectory directory = false → w.tree.Same tree) :
    Footprint directory config w [] tree where
  workingDirectory := hgrown.workingDirectory
  places place := (hgrown.places place).imp_right .inl
  reports := fun _ hmem => absurd hmem List.not_mem_nil
  idle := hidle

section Finished

variable {site : Site} {start tree : FileTree}

/-- What the tasks of a batch have done. -/
theorem places_of_reached (hready : site.Ready start)
    (hnames : ∀ name ∈ site.names w.tree, FileName.isStandard name = true)
    (hgrown : Grown (site.output :: Path.ancestors site.output) w.tree start)
    (hreached : site.Reached (site.names w.tree) start (fun _ => Task.stepsToFinish) tree)
    (place : Location) :
    tree.entryAt? place = w.tree.entryAt? place ∨
      (w.tree.entryAt? place = none ∧ tree.entryAt? place = some .directory ∧
        ∃ path ∈ site.output :: Path.ancestors site.output, tree.LeadsTo path place) ∨
      IsReport tree ((site.names w.tree).map (site.outcome start)) place := by
  rcases hreached.place_cases hready hnames place with hsame |
    ⟨name, hname, bytes, rfl, hreport, -, -⟩
  · rcases hgrown.places place with hbefore | ⟨hnone, hdirectory, path, hpath, hleads⟩
    · exact .inl (hsame.trans hbefore)
    · exact .inr (.inl ⟨hnone, hsame.trans hdirectory, path, hpath,
        hleads.keeps (hreached.keeps hready hnames)⟩)
  · have hwritten : site.written? start name = some bytes :=
      (Site.stage_three site start name).2.symm.trans hreport
    obtain ⟨-, -, summary, hstatus⟩ :=
      Site.placeForFile_of_written? hready (hnames name hname) hwritten
    refine .inr (.inr ⟨_, List.mem_map_of_mem hname, summary, _, hstatus, ?_⟩)
    rw [open?, Site.locate_report hready hnames hreached hname hwritten]
    rfl

/-- Nothing is written if no reports are. -/
theorem same_of_reached (hready : site.Ready start)
    (hnames : ∀ name ∈ site.names w.tree, FileName.isStandard name = true)
    (hreached : site.Reached (site.names w.tree) start (fun _ => Task.stepsToFinish) tree)
    (hreports : site.config.writeReports = false) : start.Same tree where
  workingDirectory := hreached.workingDirectory
  places place := by
    rcases hreached.place_cases hready hnames place with hsame | ⟨name, hname, bytes, -, hreport, -⟩
    · exact hsame
    · have hwritten : site.written? start name = some bytes :=
        (Site.stage_three site start name).2.symm.trans hreport
      have hwrites := (Site.placeForFile_of_written? hready (hnames name hname) hwritten).1
      rw [hreports] at hwrites
      cases hwrites

/-- **A batch that ends has written its reports and done nothing else.** -/
theorem footprint_of_finished (hlinks : w.tree.NoLinks)
    (hscan : scan site.directory w.tree = .ok ((site.names w.tree).map site.pathOf))
    (hprepared : site.Prepared w.tree start)
    (hreached : site.Reached (site.names w.tree) start (fun _ => Task.stepsToFinish) tree) :
    Footprint site.directory site.config w ((site.names w.tree).map (site.outcome start)) tree := by
  have hthere : w.tree.isDirectory site.directory ≠ false := by
    rw [hprepared.files.isDirectory]
    exact Bool.noConfusion
  by_cases hnames : site.names w.tree = []
  · have hsame : w.tree.Same tree := by
      have hstart := hprepared.unchanged (.inr hnames)
      rw [hnames, hstart] at hreached
      exact ⟨hreached.workingDirectory, fun place =>
        hreached.others place fun _ hname => absurd hname List.not_mem_nil⟩
    rw [hnames]
    exact footprint_of_grown ⟨hsame.workingDirectory, fun place => .inl (hsame.places place)⟩
      fun _ => hsame
  · have hready := hprepared.ready hnames
    have hstandard := site.isStandard_names w.tree
    refine ⟨hreached.workingDirectory.trans hprepared.grown.workingDirectory,
      places_of_reached hready hstandard hprepared.grown hreached, ?_, ?_⟩
    · intro outcome hmem summary report hstatus
      obtain ⟨name, hname, rfl⟩ := List.mem_map.1 hmem
      obtain ⟨file, hopened, -, hno | ⟨hreport, hwritten⟩⟩ := Site.exists_file_of_decoded hstatus
      · cases hno
      obtain rfl := Option.some.inj hreport
      refine ⟨file, site.reportPlace name, ?_,
        Site.locate_report hready hstandard hreached hname hwritten⟩
      rw [Site.path_outcome, ((DataFile.looks_openIndexed _).outcome w).1,
        ← hprepared.openedIn hlinks hname, hopened]
    · rintro (hreports | hempty | hmissing)
      · have hsame := same_of_reached hready hstandard hreached hreports
        rwa [hprepared.unchanged (.inl hreports)] at hsame
      · rw [hscan] at hempty
        exact absurd (List.map_eq_nil_iff.1 (Except.ok.inj hempty)) hnames
      · exact absurd hmissing hthere

end Finished

/-- **A batch that fails has done nothing but make directories.** -/
theorem footprint_of_error {cause : Error} (hlinks : w.tree.NoLinks)
    (h : run directory config w = .error cause w') : Footprint directory config w [] w'.tree := by
  rw [run_eq] at h
  cases hscan : scan directory w.tree with
  | error cause =>
    rw [prepare_of_scan_error hscan] at h
    cases h
    exact footprint_of_grown (.refl _ _) fun _ => ⟨rfl, fun _ => rfl⟩
  | ok paths =>
    obtain ⟨files, hfiles, -⟩ := exists_leadsTo_of_scan hlinks hscan
    have hgrown := grown_makeDirectories hlinks (Path.join directory config.outputDirectory)
    rw [prepare_of_scan hscan] at h
    by_cases hreports : (config.writeReports && !paths.isEmpty) = true
    · rw [if_pos hreports] at h
      rw [Bool.and_eq_true, Bool.not_eq_true', List.isEmpty_eq_false_iff] at hreports
      cases hmade : makeDirectories (Path.join directory config.outputDirectory) w.tree with
      | ok _ tree =>
        rw [hmade] at h
        cases h
      | error cause tree =>
        rw [hmade] at h
        cases h
        rw [treeAfter_error hmade] at hgrown
        refine footprint_of_grown hgrown ?_
        rintro (hno | hempty | hmissing)
        · rw [hreports.1] at hno
          cases hno
        · exact absurd (Except.ok.inj (hscan.symm.trans hempty)) hreports.2
        · rw [hfiles.isDirectory] at hmissing
          cases hmissing
    · rw [if_neg hreports] at h
      cases h

/-! ## Running it again -/

section Again

variable {site : Site} {start : FileTree}

/-- The directories of a tree are there after a batch. -/
theorem keeps_of_reached {names : List String} {tree : FileTree}
    (hready : names ≠ [] → site.Ready start)
    (hnames : ∀ name ∈ names, FileName.isStandard name = true)
    (hreached : site.Reached names start (fun _ => Task.stepsToFinish) tree) :
    start.Keeps tree := by
  by_cases hempty : names = []
  · refine ⟨hreached.workingDirectory, fun place hdirectory => ?_⟩
    rw [hreached.others place (by simp [hempty]), hdirectory]
  · exact hreached.keeps (hready hempty) hnames

/-- **A batch finds the same files afterwards**: no report is taken for a file. -/
theorem names_of_reached {tree : FileTree} (hprepared : site.Prepared w.tree start)
    (hreached : site.Reached (site.names w.tree) start (fun _ => Task.stepsToFinish) tree) :
    site.names tree = site.names w.tree := by
  refine dataFiles_congr fun name hname => ?_
  have hsame : tree.entryAt? (name :: site.files) = start.entryAt? (name :: site.files) :=
    hreached.entryAt?_filePlace (site.isStandard_names w.tree) hname
  rw [hsame]
  rcases hprepared.grown.places (name :: site.files) with hbefore | ⟨hnone, hdirectory, -⟩
  · rw [hbefore]
  · -- A directory for reports may have got the name of a file; a scan passes over it.
    rw [hnone, hdirectory]
    constructor
    · rintro ⟨bytes, hfile⟩
      cases hfile
    · rintro ⟨bytes, hfile⟩
      cases hfile

/-- The tasks write what is there already. -/
theorem same_of_again {names : List String} {tree later : FileTree} (hready : site.Ready start)
    (hnames : ∀ name ∈ names, FileName.isStandard name = true)
    (hreached : site.Reached names start (fun _ => Task.stepsToFinish) tree)
    (hlater : site.Reached names tree (fun _ => Task.stepsToFinish) later) : tree.Same later where
  workingDirectory := hlater.workingDirectory
  places place := by
    by_cases hreport : ∃ name ∈ names, place = site.reportPlace name
    · obtain ⟨name, hname, rfl⟩ := hreport
      have halike := hreached.alike hready hnames (hnames name hname)
      rw [hlater.reports name hname, hreached.reports name hname,
        Site.report?_congr hready (hreached.ready hready hnames) (hnames name hname) halike]
      cases site.report? start name Task.stepsToFinish <;> rfl
    · exact hlater.others place fun name hname hsame => hreport ⟨name, hname, hsame⟩

/-- **A batch that is run again comes to the same outcomes and changes nothing.** -/
theorem exists_rerun (hprepared : site.Prepared w.tree start)
    (hreached : site.Reached (site.names w.tree) start (fun _ => Task.stepsToFinish) w'.tree) :
    ∃ later, run site.directory site.config w' =
        .ok ((site.names w.tree).map (site.outcome start)) later ∧
      w'.tree.Same later.tree := by
  have hstandard := site.isStandard_names w.tree
  have hkeeps := keeps_of_reached hprepared.ready hstandard hreached
  have hnames := names_of_reached hprepared hreached
  have hready' (hne : site.names w.tree ≠ []) : site.Ready w'.tree :=
    hreached.ready (hprepared.ready hne) hstandard
  have hscan : scan site.directory w'.tree = .ok ((site.names w'.tree).map site.pathOf) :=
    scan_of_leadsTo ((hprepared.files.keeps hprepared.grown.keeps).keeps hkeeps)
  have hprepare : prepare site.directory site.config w' =
      .ok ((site.names w'.tree).map site.pathOf)
        ⟨w'.tree, journalOfScan site.directory ((site.names w'.tree).map site.pathOf) w'⟩ := by
    rw [prepare_of_scan hscan]
    split
    · rename_i hreports
      rw [Bool.and_eq_true, Bool.not_eq_true', List.isEmpty_eq_false_iff, Ne,
        List.map_eq_nil_iff, hnames] at hreports
      have hmade := makeDirectories_of_leadsTo ((hready' hreports.2).reports hreports.1)
      rw [Site.output] at hmade
      rw [hmade]
    · rfl
  obtain ⟨later, hrun, hlater⟩ := exists_run_of_prepare rfl hprepare fun hne =>
    hready' (hnames ▸ hne)
  rw [hnames] at hrun hlater
  refine ⟨later, hrun.trans ?_, ?_⟩
  · refine congrArg (EStateM.Result.ok · later) (List.map_congr_left fun name hname => ?_)
    have hready := hprepared.ready (List.ne_nil_of_mem hname)
    exact Site.outcome_congr hready (hready' (List.ne_nil_of_mem hname)) (hstandard name hname)
      (hreached.alike hready hstandard (hstandard name hname))
  · by_cases hne : site.names w.tree = []
    · exact ⟨hlater.workingDirectory, fun place => hlater.others place (by simp [hne])⟩
    · exact same_of_again (hprepared.ready hne) hstandard hreached hlater

end Again

/-- **A batch touches nothing but its own reports, and can be repeated.**  Whether it ends or fails,
it has written the reports that it tells of and made the directory for them, if there was one to
make; if it ends, it comes to the same outcomes again and leaves everything as it is. -/
theorem batch_footprint (hlinks : w.tree.NoLinks) (directory : String) (config : Config) :
    (∀ outcomes w', run directory config w = .ok outcomes w' →
      Footprint directory config w outcomes w'.tree ∧
        ∃ later, run directory config w' = .ok outcomes later ∧ w'.tree.Same later.tree) ∧
    ∀ cause w', run directory config w = .error cause w' →
      Footprint directory config w [] w'.tree := by
  refine ⟨fun outcomes w' hrun => ?_, fun cause w' => footprint_of_error hlinks⟩
  obtain ⟨site, start, rfl, rfl, -, hscan, hprepared, rfl, hreached⟩ := exists_finished hlinks hrun
  exact ⟨footprint_of_finished hlinks hscan hprepared hreached, exists_rerun hprepared hreached⟩

theorem batch_footprint_oneFile :
    let w : Workspace := ⟨oneFile (single.bytes RecordKind.sequence), #[]⟩
    w.tree.NoLinks ∧
      (∃ outcomes w', run "d" Config.standard w = .ok outcomes w' ∧
        Footprint "d" Config.standard w outcomes w'.tree ∧
        ∃ later, run "d" Config.standard w' = .ok outcomes later ∧ w'.tree.Same later.tree) ∧
      ∃ cause w', run "e" Config.standard w = .error cause w' ∧
        Footprint "e" Config.standard w [] w'.tree := by
  intro w
  have hlinks : w.tree.NoLinks := noLinks_oneFile _
  have hmissing : scan "e" w.tree = .error (.directoryNotFound "e") := by
    have hlocate : w.tree.locate .look "e" = .ok (["e"], none) := by
      rw [locate_eq rfl]
      have hsteps : Path.steps "e" = ["e"] := by decide
      have hstart : start w.tree.workingDirectory "e" = [] := rfl
      rw [hsteps, hstart, follow, entryAt?_oneFile, entryAt?_oneFile]
      decide
    rw [scan, hlocate]
  have hfails : run "e" Config.standard w = .error (.directoryNotFound "e") w := by
    rw [run_eq, prepare_of_scan_error hmissing]
  obtain ⟨outcomes, w', hrun⟩ := exists_run_oneFile (single.bytes RecordKind.sequence)
  exact ⟨hlinks, ⟨outcomes, w', hrun, (batch_footprint hlinks "d" _).1 outcomes w' hrun⟩,
    _, w, hfails, (batch_footprint hlinks "e" _).2 _ w hfails⟩

end Screening.Batch
