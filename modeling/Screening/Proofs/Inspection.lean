import Screening.CommandLine
import Screening.Proofs.Footprint

/-!
# Batches and inspections

A batch says of each file what inspecting the file says.

* `CommandLine.AsksFor` — arguments ask for one file to be shown, as it is shown by default.
* `CommandLine.run_inspect` — what is printed then, if the file can be opened.
* `Batch.Agrees` — an outcome of a batch says what opening and inspecting its file says.
* `batch_agrees_with_inspection` — so do all outcomes.
-/

set_option autoImplicit false

namespace Screening

open Working

namespace DataFile

variable {path label : String} {tree : FileTree} {file : DataFile}

/-- A file carries the index of its path and the label that it was opened under. -/
theorem labels_of_labelledIn (h : labelledIn path label tree = .ok file) :
    file.kpoint = kpointOfPath path ∧ file.contents.source = label := by
  obtain ⟨place, -, h⟩ := exists_of_bind_eq_ok h
  obtain ⟨bytes, -, h⟩ := exists_of_bind_eq_ok h
  obtain ⟨contents, hdecode, h⟩ := exists_of_bind_eq_ok h
  cases h
  have hresult : decode (Source.ofBytes bytes) label =
      (.ok contents, (decode (Source.ofBytes bytes) label).2) := Prod.ext hdecode rfl
  obtain ⟨payloads, -, -, hcontents, -⟩ := file_of_decode (Source.steady_ofBytes bytes) hresult
  exact ⟨rfl, hcontents.source⟩

end DataFile

/-! ## Inspections -/

namespace CommandLine

/-- Arguments ask for a file to be shown with default flags, as JSON or not. -/
def AsksFor (arguments : List String) (path : String) (json : Bool) : Prop :=
  ∃ verbose, Request.ofArguments arguments = .run (.inspect path json 5 5) verbose

variable {path : String}

theorem addPath?_nothing (hpath : path ≠ "") (given : Given) (hnone : given.path = none) :
    given.addPath? path = some { given with path := some path } := by
  rw [Given.addPath?, if_pos ⟨by rw [hnone]; rfl, hpath⟩]

theorem shape_of_ne_dash (hdash : path.toList.head? ≠ some '-') : Shape.of path = .plain := by
  have hno {rest : List Char} (hchars : path.toList = '-' :: rest) : False :=
    hdash (by rw [hchars]; rfl)
  rw [Shape.of]
  split
  · exact (hno ‹_›).elim
  · exact (hno ‹_›).elim
  · exact (hno ‹_›).elim
  · rfl

theorem shape_inspect : Shape.of "inspect" = .plain := by decide

theorem shape_json : Shape.of "--json" = .long "json" none := by decide

/-- The path of a file is enough, unless it looks like an option. -/
theorem asksFor_plain (hpath : path ≠ "") (hdash : path.toList.head? ≠ some '-') :
    AsksFor ["inspect", path] path false ∧ AsksFor ["inspect", "--json", path] path true := by
  constructor
  · refine ⟨false, ?_⟩
    simp [Request.ofArguments, readFrom, shape_inspect, Verb.ofName?, readCommand,
      shape_of_ne_dash hdash, addPath?_nothing hpath, Given.nothing, finish, Verb.command?]
  · refine ⟨false, ?_⟩
    simp [Request.ofArguments, readFrom, shape_inspect, shape_json, Verb.ofName?, readCommand,
      Verb.flags, Given.addFlag?, shape_of_ne_dash hdash, addPath?_nothing hpath, Given.nothing,
      finish, Verb.command?]

/-- Behind two dashes any text is a path. -/
theorem asksFor_separated (hpath : path ≠ "") :
    AsksFor ["inspect", "--", path] path false ∧
      AsksFor ["inspect", "--json", "--", path] path true := by
  have hseparator : Shape.of "--" = .separator := by decide
  constructor
  · refine ⟨false, ?_⟩
    simp [Request.ofArguments, readFrom, shape_inspect, hseparator, Verb.ofName?, readCommand,
      readPaths, addPath?_nothing hpath, Given.nothing, finish, Verb.command?]
  · refine ⟨false, ?_⟩
    simp [Request.ofArguments, readFrom, shape_inspect, shape_json, hseparator, Verb.ofName?,
      readCommand, Verb.flags, Given.addFlag?, readPaths, addPath?_nothing hpath, Given.nothing,
      finish, Verb.command?]

/-- What is printed of a file. -/
def shown (json : Bool) (file : DataFile) : String :=
  if json then (JsonForm.toJson (Summary.ofContents file.contents file.kpoint)).pretty ++ "\n"
  else Report.text file.contents file.kpoint Report.Config.standard

/-- **A file that can be opened is shown.** -/
theorem run_inspect {arguments : List String} {json : Bool} {w : Workspace} {file : DataFile}
    (hasks : AsksFor arguments path json)
    (hfile : DataFile.labelledIn path (DataFile.lenientLabel path) w.tree = .ok file) :
    (run arguments w).1 = ⟨0, shown json file, ""⟩ := by
  obtain ⟨verbose, hrequest⟩ := hasks
  obtain ⟨journal, hopen⟩ := DataFile.looks_openLabelled path (DataFile.lenientLabel path) w
  rw [hfile] at hopen
  have hattempt (message : String) : attempt message (DataFile.openLeniently path) w =
      .ok file ⟨w.tree, journal⟩ := by
    rw [attempt, DataFile.openLeniently, hopen]
    rfl
  have hinspect : execute (.inspect path json 5 5) w = .ok (shown json file) ⟨w.tree, journal⟩ := by
    show EStateM.bind _ _ w = _
    rw [EStateM.bind, hattempt]
    cases json <;> rfl
  rw [run, hrequest, respond, hinspect]

end CommandLine

/-! ## Outcomes -/

namespace Batch

open FileTree

/-- An outcome of a batch says what opening and inspecting its file says, before the batch and after
it. -/
structure Agrees (directory : String) (config : Config) (w w' : Workspace) (outcome : Outcome)
    (digits : List Char) : Prop where
  /-- The name of the file has an index of four digits. -/
  index : FileName.IsIndex digits
  /-- The outcome is that of the file of this name. -/
  path : outcome.path = Path.join directory (FileName.nameOf digits)
  /-- If the file cannot be opened, the outcome says why. -/
  failed : ∀ cause, ((DataFile.openIndexed outcome.path).outcome w).1 = .error cause →
    outcome.status = .failed cause
  /-- If it can, the outcome says what it contains, unless its report cannot be written. -/
  decoded : ∀ file, ((DataFile.openIndexed outcome.path).outcome w).1 = .ok file →
    let report := reportPath (Path.join directory config.outputDirectory) outcome.path
    outcome.status = .decoded (Summary.ofContents file.contents file.kpoint)
        (if config.writeReports then some report else none) ∨
      config.writeReports = true ∧ ∃ cause,
        FileTree.writeFile report (reportBytes config file) w'.tree = .error cause w'.tree ∧
        outcome.status = .failed (.io cause)
  /-- A summary carries the number of the digits and the name of the file. -/
  summary : ∀ summary report, outcome.status = .decoded summary report →
    summary.kpoint = some (FileName.numberOf digits) ∧ summary.source = FileName.nameOf digits
  /-- The file can be inspected by its path, behind two dashes if it looks like an option. -/
  asked : (CommandLine.AsksFor ["inspect", "--", outcome.path] outcome.path false ∧
      CommandLine.AsksFor ["inspect", "--json", "--", outcome.path] outcome.path true) ∧
    (outcome.path.toList.head? ≠ some '-' →
      CommandLine.AsksFor ["inspect", outcome.path] outcome.path false ∧
      CommandLine.AsksFor ["inspect", "--json", outcome.path] outcome.path true)
  /-- Inspecting the file as JSON prints the summary. -/
  json : ∀ summary report, outcome.status = .decoded summary report →
    ∀ arguments, CommandLine.AsksFor arguments outcome.path true →
    ∀ here, here.tree = w.tree ∨ here.tree = w'.tree →
    (CommandLine.run arguments here).1 = ⟨0, (JsonForm.toJson summary).pretty ++ "\n", ""⟩
  /-- By default inspecting the file prints what its report says. -/
  text : config = Config.standard → ∀ summary report,
    outcome.status = .decoded summary (some report) →
    report = Path.join (Path.join directory "readable")
        (Path.stem (FileName.nameOf digits) ++ "_readable.txt") ∧
      ∃ place printed, w'.tree.locate .look report =
          .ok (place, some (.file printed.toUTF8.toList)) ∧
        ∀ arguments, CommandLine.AsksFor arguments outcome.path false →
        ∀ here, here.tree = w.tree ∨ here.tree = w'.tree →
        (CommandLine.run arguments here).1 = ⟨0, printed, ""⟩

namespace Site

variable {site : Site} {name : String} {tree start : FileTree} {w w' : Workspace}

/-! ### One file of a batch -/

section File

variable (hlinks : w.tree.NoLinks) (hprepared : site.Prepared w.tree start)
  (hreached : site.Reached (site.names w.tree) start (fun _ => Task.stepsToFinish) w'.tree)
  (hname : name ∈ site.names w.tree)

include hlinks hprepared hname

/-- Opening a file gives what its task finds. -/
theorem outcome_openIndexed :
    ((DataFile.openIndexed (site.outcome start name).path).outcome w).1 =
      DataFile.openedIn (site.pathOf name) start := by
  rw [path_outcome, ((DataFile.looks_openIndexed _).outcome w).1, hprepared.openedIn hlinks hname]

include hreached

/-- A file is the same before the batch and after it. -/
theorem openedIn_here {here : Workspace} (hhere : here.tree = w.tree ∨ here.tree = w'.tree) :
    DataFile.openedIn (site.pathOf name) here.tree =
      DataFile.openedIn (site.pathOf name) start := by
  have hstandard := site.isStandard_names w.tree
  have hready := hprepared.ready (List.ne_nil_of_mem hname)
  rcases hhere with hbefore | hafter
  · rw [hbefore, hprepared.openedIn hlinks hname]
  · rw [hafter]
    exact openedIn_congr hready.toFound (hreached.ready hready hstandard).toFound
      (hstandard name hname) (hreached.entryAt?_filePlace hstandard (hstandard name hname))

/-- **Inspecting a file shows what its task finds**, before the batch and after it. -/
theorem run_inspect_here {here : Workspace} {arguments : List String} {json : Bool}
    {file : DataFile} (hfile : DataFile.openedIn (site.pathOf name) start = .ok file)
    (hasks : CommandLine.AsksFor arguments (site.pathOf name) json)
    (hhere : here.tree = w.tree ∨ here.tree = w'.tree) :
    (CommandLine.run arguments here).1 = ⟨0, CommandLine.shown json file, ""⟩ := by
  refine CommandLine.run_inspect hasks ?_
  rw [← openedIn_eq hprepared.files.ne_empty (site.isStandard_names w.tree name hname),
    openedIn_here hlinks hprepared hreached hname hhere, hfile]

omit hlinks in
/-- A report that cannot be written at its turn cannot be written afterwards. -/
theorem writeFile_of_placeForFile {cause : IoError} (bytes : List UInt8)
    (hreports : site.config.writeReports = true)
    (h : start.placeForFile (reportPath site.output (site.pathOf name)) = .error cause) :
    FileTree.writeFile (reportPath site.output (site.pathOf name)) bytes w'.tree =
      .error cause w'.tree := by
  have hstandard := site.isStandard_names w.tree
  have hready := hprepared.ready (List.ne_nil_of_mem hname)
  rw [FileTree.writeFile, placeForFile_congr hready (hreached.ready hready hstandard)
    (hstandard name hname) hreports (hreached.directory_iff hready hstandard _), h]

/-- An outcome that is not a failure carries what was opened. -/
theorem exists_shown_of_decoded {summary : Summary} {report : Option String}
    (hstatus : (site.outcome start name).status = .decoded summary report) :
    ∃ file, summary = Summary.ofContents file.contents file.kpoint ∧
      file.kpoint = FileName.kpoint? name ∧ file.contents.source = name ∧
      (∀ arguments json, CommandLine.AsksFor arguments (site.pathOf name) json →
        ∀ here : Workspace, here.tree = w.tree ∨ here.tree = w'.tree →
        (CommandLine.run arguments here).1 = ⟨0, CommandLine.shown json file, ""⟩) ∧
      (report = none ∨ report = some (reportPath site.output (site.pathOf name)) ∧
        site.written? start name = some (reportBytes site.config file)) := by
  have hdirectory := hprepared.files.ne_empty
  have hstandard := site.isStandard_names w.tree name hname
  obtain ⟨file, hopened, hsummary, hreport⟩ := exists_file_of_decoded hstatus
  obtain ⟨-, hlenient, hkpoint⟩ := labels_of_pathOf hdirectory hstandard
  have hlabelled := (openedIn_eq hdirectory hstandard start).symm.trans hopened
  obtain ⟨hcarried, hsource⟩ := DataFile.labels_of_labelledIn hlabelled
  exact ⟨file, hsummary, hcarried.trans hkpoint, hsource.trans hlenient,
    fun _ _ hasks _ hhere =>
      run_inspect_here hlinks hprepared hreached hname hopened hasks hhere, hreport⟩

/-- **The outcome of a file is what opening and inspecting it says.** -/
theorem agrees_of_reached : ∃ digits,
    Agrees site.directory site.config w w' (site.outcome start name) digits := by
  have hstandard := site.isStandard_names w.tree
  have hready := hprepared.ready (List.ne_nil_of_mem hname)
  have hopens := outcome_openIndexed hlinks hprepared hname
  have hpath := path_outcome site start name
  obtain ⟨digits, hindex, hdigits⟩ := FileName.isStandard_iff.1 (hstandard name hname)
  have hkpoint : FileName.kpoint? name = some (FileName.numberOf digits) := by
    rw [hdigits, FileName.kpoint?_nameOf hindex]
  have hnonempty : (site.outcome start name).path ≠ "" := by
    rw [hpath]
    exact Path.join_ne_empty hprepared.files.ne_empty name
  refine ⟨digits, hindex, by rw [hpath, hdigits]; rfl, ?_, ?_, ?_,
    ⟨CommandLine.asksFor_separated hnonempty, CommandLine.asksFor_plain hnonempty⟩, ?_, ?_⟩
  · intro cause hcause
    rw [hopens] at hcause
    rcases outcome_cases site start name with ⟨cause', hopened, houtcome, -⟩ | ⟨file, hopened, -⟩
    · rw [hopened] at hcause
      cases hcause
      rw [houtcome]
    · rw [hopened] at hcause
      cases hcause
  · intro file hfile
    rw [hopens] at hfile
    rw [hpath]
    rcases outcome_cases site start name with ⟨cause, hopened, -, -⟩ |
      ⟨found, hopened, ⟨hreports, houtcome, -⟩ | ⟨hreports, hcases⟩⟩
    · rw [hopened] at hfile
      cases hfile
    · cases hopened.symm.trans hfile
      rw [houtcome, hreports]
      exact .inl rfl
    · cases hopened.symm.trans hfile
      rcases hcases with ⟨cause, hplace, houtcome, -⟩ | ⟨place, hplace, houtcome, -⟩
      · exact .inr ⟨hreports, cause,
          writeFile_of_placeForFile hprepared hreached hname _ hreports hplace,
          congrArg Outcome.status houtcome⟩
      · rw [houtcome, hreports]
        exact .inl rfl
  · intro summary report hstatus
    obtain ⟨file, rfl, hnumber, hsource, -⟩ :=
      exists_shown_of_decoded hlinks hprepared hreached hname hstatus
    exact ⟨hnumber.trans hkpoint, hsource.trans hdigits⟩
  · intro summary report hstatus arguments hasks here hhere
    obtain ⟨file, rfl, -, -, hshown, -⟩ :=
      exists_shown_of_decoded hlinks hprepared hreached hname hstatus
    rw [hpath] at hasks
    exact hshown arguments true hasks here hhere
  · intro hconfig summary report hstatus
    obtain ⟨file, -, -, -, hshown, hno | ⟨hreport, hwritten⟩⟩ :=
      exists_shown_of_decoded hlinks hprepared hreached hname hstatus
    · cases hno
    · obtain rfl := Option.some.inj hreport
      refine ⟨?_, site.reportPlace name, CommandLine.shown false file, ?_, ?_⟩
      · rw [hready.reportPath_eq (hstandard name hname), output, hconfig, ← hdigits]
        rfl
      · rw [locate_report hready hstandard hreached hname hwritten, reportBytes, hconfig]
        rfl
      · intro arguments hasks here hhere
        rw [hpath] at hasks
        exact hshown arguments false hasks here hhere

end File

end Site

/-- **A batch agrees with inspecting its files one by one**: its outcomes are those of the files
that a scan finds, and each says what opening and inspecting the file says. -/
theorem batch_agrees_with_inspection {directory : String} {config : Config} {w w' : Workspace}
    {outcomes : List Outcome} (hlinks : w.tree.NoLinks)
    (h : run directory config w = .ok outcomes w') :
    scan directory w.tree = .ok (outcomes.map Outcome.path) ∧
      ∀ outcome ∈ outcomes, ∃ digits, Agrees directory config w w' outcome digits := by
  obtain ⟨site, start, rfl, rfl, -, hscan, hprepared, rfl, hreached⟩ := exists_finished hlinks h
  constructor
  · rw [hscan, List.map_map]
    exact congrArg Except.ok
      (List.map_congr_left fun name _ => (Site.path_outcome site start.tree name).symm)
  · intro outcome hmem
    obtain ⟨name, hname, rfl⟩ := List.mem_map.1 hmem
    exact Site.agrees_of_reached hlinks hprepared hreached hname

theorem batch_agrees_with_inspection_oneFile :
    let w : Workspace := ⟨oneFile (single.bytes RecordKind.sequence), #[]⟩
    w.tree.NoLinks ∧ ∃ outcomes w', run "d" Config.standard w = .ok outcomes w' ∧
      "d/WFULL0007.tmp" ∈ outcomes.map Outcome.path ∧
      ∀ outcome ∈ outcomes, ∃ digits, Agrees "d" Config.standard w w' outcome digits := by
  intro w
  have hlinks : w.tree.NoLinks := noLinks_oneFile _
  obtain ⟨outcomes, w', hrun⟩ := exists_run_oneFile (single.bytes RecordKind.sequence)
  obtain ⟨hscan, hagrees⟩ := batch_agrees_with_inspection hlinks hrun
  have hfile : "WFULL0007.tmp" ∈ w.tree.dataFiles ["d"] :=
    mem_dataFiles.2 ⟨by decide, single.bytes RecordKind.sequence, by rw [entryAt?_oneFile]; rfl⟩
  have hpath : Path.join "d" "WFULL0007.tmp" = "d/WFULL0007.tmp" := by decide
  rw [scan_of_leadsTo (leadsTo_oneFile _)] at hscan
  refine ⟨hlinks, outcomes, w', hrun, ?_, hagrees⟩
  rw [← Except.ok.inj hscan, ← hpath]
  exact List.mem_map_of_mem hfile

end Batch

end Screening
