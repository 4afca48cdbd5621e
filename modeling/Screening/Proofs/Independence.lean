import Screening.Proofs.Acceptance
import Screening.Proofs.Opening
import Screening.Proofs.SameKinds
import Screening.Proofs.Schedules

/-!
# Files do not influence each other

What a file holds matters to its own outcome and to its own report.  Whatever else its bytes were,
the other files would have the same outcomes and the same reports.

* `Batch.rewritten` — a workspace in which one file holds other bytes.
* `exists_prepare_alike` — a batch begins in the same way there.
* `Batch.DifferIn` — two results differ in what comes of one file alone.
* `files_are_independent` — a batch is the same in any order of its steps, and no file influences
  another one.
* `openedIn_of_file`, `exists_outcome_decoded` — what comes of a file whose bytes are known.
-/

set_option autoImplicit false

namespace Screening.Batch

open FileTree

/-! ## Other bytes in one file -/

/-- A workspace in which other bytes are in a file. -/
def rewritten (w : Workspace) (place : Location) (bytes : List UInt8) : Workspace :=
  { w with tree := w.tree.put place (.file bytes) }

variable {w : Workspace} {place : Location} {old bytes : List UInt8} {name : String} {site : Site}

theorem ne_nil_of_file {tree : FileTree} (h : tree.entryAt? place = some (.file old)) :
    place ≠ [] := by
  rintro rfl
  cases h

theorem entryAt?_rewritten (hold : w.tree.entryAt? place = some (.file old))
    (bytes : List UInt8) {other : Location} (hother : other ≠ place) :
    (rewritten w place bytes).tree.entryAt? other = w.tree.entryAt? other := by
  rw [rewritten, entryAt?_put w.tree (ne_nil_of_file hold), if_neg hother]

theorem sameKinds_rewritten (hold : w.tree.entryAt? place = some (.file old))
    (bytes : List UInt8) : SameKinds w.tree (rewritten w place bytes).tree where
  workingDirectory := rfl
  places other := by
    by_cases hother : other = place
    · subst hother
      refine .inr ⟨old, bytes, hold, ?_⟩
      rw [rewritten, entryAt?_put w.tree (ne_nil_of_file hold), if_pos rfl]
    · exact .inl (entryAt?_rewritten hold bytes hother)

/-! ## Trees that differ in the bytes of files -/

variable {tree other start start' : FileTree}

theorem names_of_sameKinds (h : SameKinds tree other) (site : Site) :
    site.names other = site.names tree :=
  dataFiles_congr fun name _ => h.file_iff (name :: site.files)

/-- A batch begins alike in trees that differ in the bytes of files. -/
theorem exists_prepare_alike {directory : String} {config : Config} {w' : Workspace}
    {paths : List String} {start : Workspace} (hlinks : w.tree.NoLinks)
    (hkinds : SameKinds w.tree w'.tree) (hscan : scan directory w.tree = .ok paths)
    (hscan' : scan directory w'.tree = .ok paths)
    (hprepare : prepare directory config w = .ok paths start) :
    ∃ start', prepare directory config w' = .ok paths start' ∧
      GrownAlike w.tree w'.tree start.tree start'.tree := by
  rw [prepare_of_scan hscan] at hprepare
  rw [prepare_of_scan hscan']
  split
  · rename_i hreports
    rw [if_pos hreports] at hprepare
    rcases endAlike_makeDirectories hlinks hkinds (Path.join directory config.outputDirectory) with
      ⟨later, later', hmade, hmade', halike⟩ | ⟨cause, later, later', hmade, hmade', halike⟩
    · rw [hmade] at hprepare
      rw [hmade']
      cases hprepare
      exact ⟨_, rfl, halike⟩
    · rw [hmade] at hprepare
      cases hprepare
  · rename_i hreports
    rw [if_neg hreports] at hprepare
    cases hprepare
    exact ⟨_, rfl, .refl hkinds⟩

theorem Site.Ready.of_sameKinds (h : site.Ready start) (hkinds : SameKinds start start') :
    site.Ready start' where
  noLinks := hkinds.noLinks h.noLinks
  files := h.files.keeps hkinds.keeps
  reports hreports := (h.reports hreports).keeps hkinds.keeps

/-- Where trees were the same they are so after both have grown alike. -/
theorem entryAt?_of_grownAlike (h : GrownAlike tree other start start')
    (hplace : other.entryAt? place = tree.entryAt? place) :
    start'.entryAt? place = start.entryAt? place := by
  rcases h.places place with ⟨hsame, hsame'⟩ | ⟨hdirectory, hdirectory'⟩
  · rw [hsame', hplace, hsame]
  · rw [hdirectory', hdirectory]

/-- To the task on a file that is the same, the trees look the same. -/
theorem alike_of_grownAlike (h : GrownAlike tree other start start')
    (hfile : other.entryAt? (site.filePlace name) = tree.entryAt? (site.filePlace name)) :
    site.Alike name start start' where
  file := entryAt?_of_grownAlike h hfile
  report := h.sameKinds.directory_iff _

/-! ## What differs -/

/-- Two results of a batch differ in what comes of one file alone: in its bytes, its outcome and its
report. -/
structure DifferIn (directory : String) (config : Config) (files : Location) (name : String)
    (outcomes outcomes' : List Outcome) (tree tree' : FileTree) : Prop where
  /-- The outcomes are those of the same files. -/
  paths : outcomes'.map Outcome.path = outcomes.map Outcome.path
  /-- The outcomes of the other files are the same. -/
  outcomes : ∀ index : Nat, outcomes[index]?.map Outcome.path ≠ some (Path.join directory name) →
    outcomes'[index]? = outcomes[index]?
  /-- The same is at every place but that of the file and that of its report. -/
  places : ∀ place, place ≠ name :: files →
    tree.placeForFile (reportPath (Path.join directory config.outputDirectory)
      (Path.join directory name)) ≠ .ok place →
    tree'.entryAt? place = tree.entryAt? place

theorem outcomes_of_grownAlike {names : List String} (h : GrownAlike tree other start start')
    (hready : site.Ready start) (hnames : ∀ name ∈ names, FileName.isStandard name = true)
    (hother : ∀ place, place ≠ site.filePlace name → other.entryAt? place = tree.entryAt? place)
    (index : Nat)
    (hindex : (names.map (site.outcome start))[index]?.map Outcome.path ≠ some (site.pathOf name)) :
    (names.map (site.outcome start'))[index]? = (names.map (site.outcome start))[index]? := by
  rw [List.getElem?_map, List.getElem?_map]
  cases hfound : names[index]? with
  | none => rfl
  | some found =>
    rw [List.getElem?_map, hfound, Option.map_some, Option.map_some, Site.path_outcome] at hindex
    have hplace : site.filePlace found ≠ site.filePlace name := by
      intro hsame
      rw [(List.cons.inj hsame).1] at hindex
      exact hindex rfl
    have halike := alike_of_grownAlike h (hother _ hplace)
    rw [Option.map_some, Option.map_some, Site.outcome_congr hready
      (hready.of_sameKinds h.sameKinds) (hnames found (List.mem_of_getElem? hfound)) halike]

/-- The report on a file was not written if its place is elsewhere. -/
theorem report?_eq_none (hready : site.Ready start) (hname : FileName.isStandard name = true)
    (hready' : site.Ready start')
    (hdirectory : start'.entryAt? (site.reportPlace name) = some .directory ↔
      start.entryAt? (site.reportPlace name) = some .directory)
    (hplace : start'.placeForFile (reportPath site.output (site.pathOf name)) ≠
      .ok (site.reportPlace name)) :
    site.report? start name Task.stepsToFinish = none := by
  have hthree : site.report? start name Task.stepsToFinish = site.written? start name :=
    (Site.stage_three site start name).2
  rw [hthree]
  cases hwritten : site.written? start name with
  | none => rfl
  | some bytes =>
    obtain ⟨hreports, hfree, -⟩ := Site.placeForFile_of_written? hready hname hwritten
    rw [← Site.placeForFile_congr hready hready' hname hreports hdirectory] at hfree
    exact absurd hfree hplace

/-- What the tasks leave differs at the place of the file and at that of its report alone. -/
theorem places_of_grownAlike {names : List String} {later later' : FileTree}
    (h : GrownAlike tree other start start') (hready : site.Ready start)
    (hnames : ∀ name ∈ names, FileName.isStandard name = true)
    (hname : FileName.isStandard name = true)
    (hother : ∀ place, place ≠ site.filePlace name → other.entryAt? place = tree.entryAt? place)
    (hlater : site.Reached names start (fun _ => Task.stepsToFinish) later)
    (hlater' : site.Reached names start' (fun _ => Task.stepsToFinish) later')
    (hplace : place ≠ site.filePlace name)
    (hreport : later.placeForFile (reportPath site.output (site.pathOf name)) ≠ .ok place) :
    later'.entryAt? place = later.entryAt? place := by
  have hready' := hready.of_sameKinds h.sameKinds
  have hbefore := entryAt?_of_grownAlike h (hother place hplace)
  by_cases hreports : ∃ report ∈ names, place = site.reportPlace report
  · obtain ⟨report, hmem, rfl⟩ := hreports
    rw [hlater'.reports report hmem, hlater.reports report hmem, hbefore]
    by_cases hsame : report = name
    · -- The report of the file itself is exempt, unless it could be written in neither tree.
      subst hsame
      have hdirectory := hlater.directory_iff hready hnames (site.reportPlace report)
      have hthere := hlater.ready hready hnames
      rw [report?_eq_none hready hname hthere hdirectory hreport,
        report?_eq_none hready' hname hthere
          (hdirectory.trans (h.sameKinds.directory_iff _).symm) hreport]
    · have hfile : site.filePlace report ≠ site.filePlace name := fun heq =>
        hsame (List.cons.inj heq).1
      rw [Site.report?_congr hready hready' (hnames report hmem)
        (alike_of_grownAlike h (hother _ hfile))]
  · have hno : ∀ report ∈ names, place ≠ site.reportPlace report := fun report hmem heq =>
      hreports ⟨report, hmem, heq⟩
    rw [hlater'.others place hno, hlater.others place hno, hbefore]

/-- **A batch is the same in any order of its steps, and no file influences another one**: with
other bytes in a file, what comes of the others is the same. -/
theorem files_are_independent {directory : String} {config : Config} {w w' : Workspace}
    {outcomes : List Outcome} (hlinks : w.tree.NoLinks)
    (h : run directory config w = .ok outcomes w') :
    ∃ paths files, scan directory w.tree = .ok paths ∧
      w.tree.locate .look directory = .ok (files, some .directory) ∧
      outcomes.map Outcome.path = paths ∧
      OrderFree directory config w outcomes w'.tree ∧
      ∀ name old bytes, FileName.isStandard name = true →
        w.tree.entryAt? (name :: files) = some (.file old) →
        ∃ outcomes' later,
          run directory config (rewritten w (name :: files) bytes) = .ok outcomes' later ∧
          DifferIn directory config files name outcomes outcomes' w'.tree later.tree := by
  obtain ⟨site, start, rfl, rfl, hprepare, hscan, hprepared, rfl, hreached⟩ :=
    exists_finished hlinks h
  have hpaths (tree : FileTree) : ((site.names w.tree).map (site.outcome tree)).map Outcome.path =
      (site.names w.tree).map site.pathOf := by
    rw [List.map_map]
    exact List.map_congr_left fun name _ => Site.path_outcome site tree name
  refine ⟨_, site.files, hscan, hprepared.files.locate, hpaths _,
    orderFree_of_finished hprepare hprepared.ready hreached, ?_⟩
  intro name old bytes hname hold
  have hkinds := sameKinds_rewritten hold bytes
  have hsame := names_of_sameKinds hkinds site
  have hmem : name ∈ site.names w.tree := mem_dataFiles.2 ⟨hname, old, hold⟩
  have hready := hprepared.ready (List.ne_nil_of_mem hmem)
  have hscan' : scan site.directory (rewritten w (name :: site.files) bytes).tree =
      .ok ((site.names w.tree).map site.pathOf) := by
    rw [scan_of_leadsTo (hprepared.files.keeps hkinds.keeps), ← hsame]
    rfl
  obtain ⟨start', hprepare', halike⟩ := exists_prepare_alike hlinks hkinds hscan hscan' hprepare
  have hready' := hready.of_sameKinds halike.sameKinds
  rw [← hsame] at hprepare'
  obtain ⟨later, hrun, hlater⟩ := exists_run_of_prepare rfl hprepare' fun _ => hready'
  rw [hsame] at hrun hlater
  have hnames := site.isStandard_names w.tree
  refine ⟨_, later, hrun, (hpaths _).trans (hpaths _).symm,
    outcomes_of_grownAlike halike hready hnames fun place hplace =>
      entryAt?_rewritten hold bytes hplace, fun place hplace hreport => ?_⟩
  exact places_of_grownAlike halike hready hnames hname
    (fun place hplace => entryAt?_rewritten hold bytes hplace) hreached hlater hplace hreport

/-! ## One file -/

/-- What is opened under the path of a file is decoded from its bytes. -/
theorem openedIn_of_file {site : Site} {tree : FileTree} {name : String} {bytes : List UInt8}
    (h : site.Found tree) (hname : FileName.isStandard name = true)
    (hcheck : checkPath (site.pathOf name) = .ok ())
    (hfile : tree.entryAt? (site.filePlace name) = some (.file bytes)) :
    DataFile.openedIn (site.pathOf name) tree =
      (decode (Source.ofBytes bytes) name).1.map fun c =>
        ⟨site.pathOf name, FileName.kpoint? name, c⟩ := by
  obtain ⟨-, hlenient, hkpoint⟩ := Site.labels_of_pathOf h.files.ne_empty hname
  have hopen : tree.open? (site.pathOf name) = .ok (site.filePlace name) := by
    rw [h.open? hname, hcheck, hfile]
    rfl
  rw [Site.openedIn_eq h.files.ne_empty hname, hlenient, ← hkpoint]
  exact DataFile.labelledIn_of_file hopen hfile (Source.steady_ofBytes bytes)

/-- A file whose bytes can be decoded is decoded and has its report, if that can be written. -/
theorem exists_outcome_decoded {site : Site} {tree : FileTree} {name : String} {bytes : List UInt8}
    (h : site.Ready tree) (hname : FileName.isStandard name = true)
    (hreports : site.config.writeReports = true) (hcheck : checkPath (site.pathOf name) = .ok ())
    (hcheck' : checkPath (Path.join site.output (FileName.reportName name)) = .ok ())
    (hfile : tree.entryAt? (site.filePlace name) = some (.file bytes))
    (hfree : tree.entryAt? (site.reportPlace name) ≠ some .directory)
    (hdecode : ∃ c, (decode (Source.ofBytes bytes) name).1 = .ok c) :
    ∃ summary report, site.outcome tree name = ⟨site.pathOf name, .decoded summary
        (some (reportPath site.output (site.pathOf name)))⟩ ∧
      site.written? tree name = some report := by
  obtain ⟨c, hdecode⟩ := hdecode
  have hopened := openedIn_of_file h.toFound hname hcheck hfile
  rw [hdecode] at hopened
  obtain ⟨houtcome, hwritten⟩ := Site.outcome_of_reported hopened hreports
    (h.placeForFile_of_ne hname hreports hcheck' hfree)
  exact ⟨_, _, houtcome, hwritten⟩

/-! ## A directory with two files -/

/-- Reports go where the files are. -/
def Config.inPlace : Config := ⟨"", true, Report.Config.standard⟩

/-- The directory `d`, with its reports in it. -/
def Site.inPlace : Site := ⟨Config.inPlace, "d", ["d"], ["d"]⟩

/-- A directory with two files and nothing else. -/
def twoFiles (first second : List UInt8) : FileTree :=
  (oneFile first).put ["WFULL0008.tmp", "d"] (.file second)

section TwoFiles

variable (first second : List UInt8)

theorem entryAt?_twoFiles (place : Location) :
    (twoFiles first second).entryAt? place =
      if place = ["WFULL0008.tmp", "d"] then some (.file second)
      else (oneFile first).entryAt? place :=
  entryAt?_put _ (List.cons_ne_nil _ _) _ _

theorem entryAt?_first :
    (twoFiles first second).entryAt? ["WFULL0007.tmp", "d"] = some (.file first) := by
  rw [entryAt?_twoFiles, entryAt?_oneFile]
  rfl

theorem entryAt?_second :
    (twoFiles first second).entryAt? ["WFULL0008.tmp", "d"] = some (.file second) := by
  rw [entryAt?_twoFiles]
  rfl

theorem noLinks_twoFiles : (twoFiles first second).NoLinks := by
  intro place target hlink
  rw [entryAt?_twoFiles] at hlink
  split at hlink
  · cases hlink
  · exact noLinks_oneFile first place target hlink

theorem found_twoFiles : Site.inPlace.Found (twoFiles first second) where
  noLinks := noLinks_twoFiles first second
  files := (leadsTo_oneFile first).keeps ⟨rfl, fun place hplace => by
    rw [entryAt?_twoFiles, if_neg, hplace]
    rintro rfl
    rw [entryAt?_oneFile] at hplace
    cases hplace⟩

/-- The slash behind the name of the directory makes no difference. -/
theorem leadsTo_output_twoFiles :
    (twoFiles first second).LeadsTo Site.inPlace.output Site.inPlace.reports where
  allowed := rfl
  steps := (found_twoFiles first second).files.steps.append_blanks 1

theorem ready_twoFiles : Site.inPlace.Ready (twoFiles first second) where
  toFound := found_twoFiles first second
  reports _ := leadsTo_output_twoFiles first second

/-- The tree lists the second file first, and a scan puts it behind the other. -/
theorem names_twoFiles :
    Site.inPlace.names (twoFiles first second) = ["WFULL0007.tmp", "WFULL0008.tmp"] := by
  have hlisted : ((twoFiles first second).filesIn ["d"]).filter FileName.isStandard =
      ["WFULL0008.tmp", "WFULL0007.tmp"] := rfl
  have hperm := perm_dataFiles (twoFiles first second) ["d"]
  rw [hlisted] at hperm
  exact (hperm.trans (.swap ..)).eq_of_pairwise (fun _ _ _ _ => String.le_antisymm)
    (pairwise_dataFiles _ _) (by decide)

/-- **A batch goes through both files.** -/
theorem exists_run_twoFiles :
    ∃ later, run "d" Config.inPlace ⟨twoFiles first second, #[]⟩ =
        .ok [Site.inPlace.outcome (twoFiles first second) "WFULL0007.tmp",
          Site.inPlace.outcome (twoFiles first second) "WFULL0008.tmp"] later ∧
      Site.inPlace.Reached ["WFULL0007.tmp", "WFULL0008.tmp"] (twoFiles first second)
        (fun _ => Task.stepsToFinish) later.tree := by
  have hready := ready_twoFiles first second
  obtain ⟨journal, hprepare⟩ :=
    exists_prepare_of_ready (w := ⟨twoFiles first second, #[]⟩) hready
  have hrun := exists_run_of_prepare rfl hprepare fun _ => hready
  dsimp only at hrun
  rwa [names_twoFiles] at hrun

/-- The second file, with nothing in it, fails. -/
theorem outcome_second : Site.inPlace.outcome (twoFiles first []) "WFULL0008.tmp" =
    ⟨Site.inPlace.pathOf "WFULL0008.tmp", .failed (.format (.missing .dimensions))⟩ := by
  have hname : FileName.isStandard "WFULL0008.tmp" = true := by decide
  have hopened := openedIn_of_file (found_twoFiles first []) hname rfl (entryAt?_second first [])
  rw [DataFile.decode_empty (Source.steady_ofBytes []) rfl] at hopened
  exact Site.outcome_of_error hopened

/-- No directory is where a report goes. -/
theorem free_twoFiles (name : String) : (twoFiles first second).entryAt?
    (Site.inPlace.reportPlace name) ≠ some .directory := by
  have hdeep : Site.inPlace.reportPlace name ≠ ["d"] := fun h =>
    List.cons_ne_nil _ _ (List.cons.inj h).2
  have hroot : Site.inPlace.reportPlace name ≠ [] := List.cons_ne_nil _ _
  rw [entryAt?_twoFiles, entryAt?_oneFile, if_neg hdeep, if_neg hroot]
  split
  · exact nofun
  · split <;> exact nofun

theorem rewritten_twoFiles (third : List UInt8) :
    rewritten ⟨twoFiles first second, #[]⟩ ["WFULL0008.tmp", "d"] third =
      ⟨twoFiles first third, #[]⟩ := rfl

end TwoFiles

/-- Of two files with their reports among them the second one fails.  When they take turns the same
comes of both; and with other bytes in the second one, which can then be decoded, the same comes of
the first. -/
theorem files_are_independent_twoFiles :
    let good := single.bytes RecordKind.sequence
    let w : Workspace := ⟨twoFiles good [], #[]⟩
    w.tree.NoLinks ∧ ∃ summary report outcomes w', run "d" Config.inPlace w = .ok outcomes w' ∧
      outcomes = [⟨"d/WFULL0007.tmp", .decoded summary (some "d/WFULL0007_readable.txt")⟩,
        ⟨"d/WFULL0008.tmp", .failed (.format (.missing .dimensions))⟩] ∧
      w'.tree.entryAt? ["WFULL0007_readable.txt", "d"] = some (.file report) ∧
      (∃ tasks later, runInTurns "d" Config.inPlace [1, 0, 0, 1, 1, 0] w = .ok tasks later ∧
        tasks.map Task.outcome? = outcomes.map some ∧ w'.tree.Same later.tree) ∧
      ∃ outcomes' later summary',
        run "d" Config.inPlace (rewritten w ["WFULL0008.tmp", "d"] good) = .ok outcomes' later ∧
        outcomes'[0]? = outcomes[0]? ∧
        outcomes'[1]? = some
          ⟨"d/WFULL0008.tmp", .decoded summary' (some "d/WFULL0008_readable.txt")⟩ ∧
        later.tree.entryAt? ["WFULL0007_readable.txt", "d"] = some (.file report) := by
  intro good w
  have hdecode (label : String) : ∃ c, (decode (Source.ofBytes good) label).1 = .ok c := by
    obtain ⟨c, r, hdecode, -⟩ := decode_of_isFile (Source.steady_ofBytes good) label single_isFile
      (List.prefix_refl _)
    exact ⟨c, by rw [hdecode]⟩
  -- What the bytes are matters no more.
  clear_value good
  have hready := ready_twoFiles good []
  have hlocate : w.tree.locate .look "d" = .ok (["d"], some .directory) := hready.files.locate
  have hname : FileName.isStandard "WFULL0007.tmp" = true := by decide
  have hname' : FileName.isStandard "WFULL0008.tmp" = true := by decide
  have hpaths : Path.join "d" "WFULL0007.tmp" ≠ Path.join "d" "WFULL0008.tmp" := by decide
  obtain ⟨summary, report, hfirst, hwritten⟩ :=
    exists_outcome_decoded hready hname rfl rfl rfl (entryAt?_first good [])
      (free_twoFiles good [] _) (hdecode "WFULL0007.tmp")
  obtain ⟨summary', -, hsecond, -⟩ :=
    exists_outcome_decoded (ready_twoFiles good good) hname' rfl rfl rfl
      (entryAt?_second good good) (free_twoFiles good good _) (hdecode "WFULL0008.tmp")
  obtain ⟨w', hrun, hreached⟩ := exists_run_twoFiles good []
  obtain ⟨later, hrun', -⟩ := exists_run_twoFiles good good
  obtain ⟨paths, files, -, hfiles, -, horder, hfile⟩ :=
    files_are_independent (noLinks_twoFiles good []) hrun
  rw [hlocate] at hfiles
  cases hfiles
  obtain ⟨outcomes', later', hrewritten, hdiffer⟩ :=
    hfile "WFULL0008.tmp" _ good hname' (entryAt?_second good [])
  rw [rewritten_twoFiles, hrun'] at hrewritten
  obtain ⟨rfl, rfl⟩ := EStateM.Result.ok.inj hrewritten
  rw [hfirst, outcome_second] at hrun horder hdiffer
  rw [hsecond] at hrun' hdiffer
  have hreport : w'.tree.entryAt? ["WFULL0007_readable.txt", "d"] = some (.file report) := by
    have hthree : Site.inPlace.report? (twoFiles good []) "WFULL0007.tmp" Task.stepsToFinish =
        some report := (Site.stage_three ..).2.trans hwritten
    have hplace := hreached.reports "WFULL0007.tmp" (List.mem_cons_self ..)
    rw [hthree] at hplace
    exact hplace
  have hready' : Site.inPlace.Ready w'.tree := hreached.ready hready (by decide)
  refine ⟨noLinks_twoFiles good [], summary, report, _, w', hrun, rfl, hreport, ?_, _, later,
    summary', hrun', ?_, rfl, ?_⟩
  · have hturns : ∀ place < 2, Task.stepsToFinish ≤ [1, 0, 0, 1, 1, 0].count place := by decide
    obtain ⟨tasks, later, hrun, -, hfinish, hsame⟩ := horder [1, 0, 0, 1, 1, 0]
    exact ⟨tasks, later, hrun, hsame (hfinish hturns)⟩
  · exact hdiffer.outcomes 0 fun hsame => hpaths (Option.some.inj hsame)
  · rw [hdiffer.places _ (by decide), hreport]
    intro hplace
    have hother := (hready'.eq_of_placeForFile hname' rfl hplace).1
    exact absurd hother (by decide)

end Screening.Batch
