import Screening.Proofs.IndexOrder
import Screening.Proofs.SameKinds
import Screening.Proofs.Scanning

/-!
# The listing of a directory

What a scan gives is a listing by k-points: every file of the directory that is named in the usual
way is listed once and nothing else is, the indices rise from one path to the next, and the order in
which a tree lists its entries does not show.

* `FileTree.sameKinds_of_perm` — trees that list the same entries in another order are alike.
* `Batch.scan_of_sameKinds` — trees that differ in the bytes of files are scanned alike.
* `Batch.Precedes` — the k-point of one path comes before that of another.
* `Batch.scan_lists_each_once` — all of this, for any tree and any path.
-/

set_option autoImplicit false

namespace Screening

namespace FileTree

variable {tree other : FileTree}

/-- The order of its entries does not matter for what is in a tree. -/
theorem entryAt?_of_perm (h : other.entries.Perm tree.entries) (place : Location) :
    other.entryAt? place = tree.entryAt? place := by
  cases place with
  | nil => rfl
  | cons name outer =>
    refine Option.ext fun entry => ?_
    rw [entryAt?, entryAt?, lookup_eq_some_iff_mem other.nodup, lookup_eq_some_iff_mem tree.nodup,
      h.mem_iff]

theorem sameKinds_of_perm (hstart : other.workingDirectory = tree.workingDirectory)
    (h : other.entries.Perm tree.entries) : SameKinds tree other where
  workingDirectory := hstart
  places place := .inl (entryAt?_of_perm h place)

end FileTree

namespace Batch

open FileTree

variable {tree other : FileTree} {directory : String} {place : Location} {name name' : String}

/-- **What files hold does not matter for a scan.** -/
theorem scan_of_sameKinds (h : SameKinds tree other) (directory : String) :
    scan directory other = scan directory tree := by
  rw [scan, scan]
  rcases h.locate .look directory with hsame | ⟨place, bytes, bytes', hfound, hfound'⟩
  · rw [hsame]
    split
    · rename_i place hfound
      have hnames : other.dataFiles place = tree.dataFiles place :=
        dataFiles_congr fun name _ => h.file_iff (name :: place)
      exact congrArg (fun names => Except.ok (names.map (Path.join directory))) hnames
    · rfl
  · rw [hfound, hfound']

/-! ## The order of a listing -/

/-- The k-point of one path comes before that of another. -/
def Precedes (path path' : String) : Prop :=
  ∃ index index', DataFile.kpointOfPath path = some index ∧
    DataFile.kpointOfPath path' = some index' ∧ index < index'

theorem kpointOfPath_join (hdirectory : directory ≠ "") (h : FileName.isStandard name = true) :
    DataFile.kpointOfPath (Path.join directory name) = FileName.kpoint? name := by
  rw [DataFile.kpointOfPath, Path.fileName?_join hdirectory (FileName.isPlain_of_isStandard h)]
  rfl

theorem join_inj (hdirectory : directory ≠ "") (h : FileName.isStandard name = true)
    (h' : FileName.isStandard name' = true)
    (hsame : Path.join directory name = Path.join directory name') : name = name' := by
  have hname := Path.fileName?_join hdirectory (FileName.isPlain_of_isStandard h)
  rw [hsame, Path.fileName?_join hdirectory (FileName.isPlain_of_isStandard h')] at hname
  exact (Option.some.inj hname).symm

/-- **The order of the names is that of the k-points.** -/
theorem precedes_join (hdirectory : directory ≠ "") (h : FileName.isStandard name = true)
    (h' : FileName.isStandard name' = true) (hlt : name < name') :
    Precedes (Path.join directory name) (Path.join directory name') := by
  rw [Precedes, kpointOfPath_join hdirectory h, kpointOfPath_join hdirectory h']
  obtain ⟨digits, hindex, rfl⟩ := FileName.isStandard_iff.1 h
  obtain ⟨digits', hindex', rfl⟩ := FileName.isStandard_iff.1 h'
  exact ⟨_, _, FileName.kpoint?_nameOf hindex, FileName.kpoint?_nameOf hindex',
    (FileName.nameOf_lt_nameOf_iff hindex hindex').1 hlt⟩

theorem pairwise_lt_dataFiles (tree : FileTree) (place : Location) :
    (tree.dataFiles place).Pairwise (· < ·) := by
  refine (pairwise_dataFiles tree place).imp₂ (fun name name' hle hne => ?_)
    (nodup_dataFiles tree place)
  exact Decidable.of_not_not fun hnot => hne (String.le_antisymm hle (String.not_lt.1 hnot))

/-- **The k-points of a listing rise from one path to the next.** -/
theorem pairwise_precedes (hdirectory : directory ≠ "") (tree : FileTree) (place : Location) :
    ((tree.dataFiles place).map (Path.join directory)).Pairwise Precedes := by
  rw [List.pairwise_map]
  refine List.Pairwise.imp_of_mem (fun {name name'} hmem hmem' hlt => ?_)
    (pairwise_lt_dataFiles tree place)
  exact precedes_join hdirectory (mem_dataFiles.1 hmem).1 (mem_dataFiles.1 hmem').1 hlt

theorem nodup_map_join (hdirectory : directory ≠ "") (tree : FileTree) (place : Location) :
    ((tree.dataFiles place).map (Path.join directory)).Nodup := by
  refine (nodup_dataFiles tree place).map_on fun name hmem name' hmem' hsame => ?_
  exact join_inj hdirectory (mem_dataFiles.1 hmem).1 (mem_dataFiles.1 hmem').1 hsame

/-- **A scan lists each k-point's file once, completely and in the order of the k-points.**  Where
the path leads to a directory, through links or not, what is listed are the files that lie in it
under a name in the usual form, each once, and nothing else: no directory, no link, nothing further
inside.  The order of the entries of the tree does not show.  Where the path does not lead to a
directory, that is the complaint. -/
theorem scan_lists_each_once (tree : FileTree) (directory : String) :
    (∀ place, tree.locate .look directory = .ok (place, some .directory) →
      ∃ paths, scan directory tree = .ok paths ∧ paths.Nodup ∧
        (∀ path, path ∈ paths ↔ ∃ digits bytes, FileName.IsIndex digits ∧
          (FileName.nameOf digits :: place, Entry.file bytes) ∈ tree.entries ∧
          path = Path.join directory (FileName.nameOf digits)) ∧
        paths.Pairwise Precedes) ∧
    (∀ other : FileTree, other.workingDirectory = tree.workingDirectory →
      other.entries.Perm tree.entries → scan directory other = scan directory tree) ∧
    ((∀ place, tree.locate .look directory ≠ .ok (place, some .directory)) →
      scan directory tree = .error (.directoryNotFound directory)) := by
  refine ⟨fun place hlocate => ?_, fun other hstart hperm => ?_, fun hmissing => ?_⟩
  · have hdirectory := ne_empty_of_checkPath (checkPath_of_locate hlocate)
    refine ⟨_, scan_of_locate hlocate, nodup_map_join hdirectory tree place, fun path => ?_,
      pairwise_precedes hdirectory tree place⟩
    rw [List.mem_map]
    constructor
    · rintro ⟨name, hmem, rfl⟩
      obtain ⟨hstandard, bytes, hentry⟩ := mem_dataFiles.1 hmem
      obtain ⟨digits, hindex, rfl⟩ := FileName.isStandard_iff.1 hstandard
      exact ⟨digits, bytes, hindex, (lookup_eq_some_iff_mem tree.nodup).1 hentry, rfl⟩
    · rintro ⟨digits, bytes, hindex, hentry, rfl⟩
      refine ⟨_, mem_dataFiles.2 ⟨FileName.isStandard_iff.2 ⟨digits, hindex, rfl⟩, bytes, ?_⟩, rfl⟩
      exact (lookup_eq_some_iff_mem tree.nodup).2 hentry
  · exact scan_of_sameKinds (sameKinds_of_perm hstart hperm) directory
  · rw [scan]
    split
    · rename_i place hlocate
      exact absurd hlocate (hmissing place)
    · rfl

/-- A directory with two files in the usual form, and much that looks like one: a longer name, a
directory, a link, and a file further inside. -/
def crowded : FileTree where
  entries := [(["d"], .directory), (["WFULL0010.tmp", "d"], .file []),
    (["WFULL0001.tmp", "d"], .directory), (["WFULL0009.tmp", "d"], .file [1]),
    (["WFULL0002.tmp", "d"], .link "WFULL0009.tmp"), (["WFULL0003.tmp.bak", "d"], .file []),
    (["WFULL0004.tmp", "WFULL0001.tmp", "d"], .file [])]
  workingDirectory := []
  nodup := by decide

theorem leadsTo_crowded : crowded.LeadsTo "d" ["d"] where
  allowed := rfl
  steps := .down (by decide) (by decide) (by decide) (.here (by decide))

theorem locate_file_crowded :
    crowded.locate .look "d/WFULL0009.tmp" =
      .ok (["WFULL0009.tmp", "d"], some (.file [1])) := by
  have hcheck : checkPath "d/WFULL0009.tmp" = .ok () := by decide
  have hsteps : Path.steps "d/WFULL0009.tmp" = Path.steps "d" ++ ["WFULL0009.tmp"] := by decide
  have hin : crowded.entryAt? ["d"] = some .directory := by decide
  have hfile : crowded.entryAt? ["WFULL0009.tmp", "d"] = some (.file [1]) := by decide
  rw [locate_eq hcheck, hsteps]
  have hway : crowded.follow .look maxLinks (start crowded.workingDirectory "d/WFULL0009.tmp")
      (Path.steps "d" ++ ["WFULL0009.tmp"]) = _ :=
    follow_of_leads leadsTo_crowded.steps (.inl rfl) maxLinks
  rw [hway, follow, if_neg (not_not.2 hin), if_neg (by decide), if_neg (by decide),
    if_neg (by decide), if_neg (by decide), hfile]
  dsimp only
  rw [follow, hfile]

theorem scan_lists_each_once_crowded :
    crowded.locate .look "d" = .ok (["d"], some .directory) ∧
      (∃ paths, scan "d" crowded = .ok paths ∧ "d/WFULL0010.tmp" ∈ paths ∧
        "d/WFULL0002.tmp" ∉ paths ∧ paths.Pairwise Precedes) ∧
      (∀ place, crowded.locate .look "d/WFULL0009.tmp" ≠ .ok (place, some .directory)) ∧
      scan "d/WFULL0009.tmp" crowded = .error (.directoryNotFound "d/WFULL0009.tmp") := by
  have hfile (place : Location) :
      crowded.locate .look "d/WFULL0009.tmp" ≠ .ok (place, some .directory) := by
    rw [locate_file_crowded]
    exact fun h => by cases h
  obtain ⟨paths, hscan, -, hpaths, horder⟩ :=
    (scan_lists_each_once crowded "d").1 ["d"] leadsTo_crowded.locate
  refine ⟨leadsTo_crowded.locate, ⟨paths, hscan, ?_, ?_, horder⟩, hfile,
    (scan_lists_each_once crowded "d/WFULL0009.tmp").2.2 hfile⟩
  · exact (hpaths _).2 ⟨['0', '0', '1', '0'], [], ⟨rfl, by decide⟩, by decide, by decide⟩
  · intro hlisted
    obtain ⟨digits, bytes, hindex, hentry, hpath⟩ := (hpaths _).1 hlisted
    have hlink : FileName.isStandard "WFULL0002.tmp" = true := by decide
    have hjoin : Path.join "d" "WFULL0002.tmp" = "d/WFULL0002.tmp" := by decide
    rw [← hjoin] at hpath
    rw [← join_inj (by decide) hlink (FileName.isStandard_iff.2 ⟨digits, hindex, rfl⟩) hpath]
      at hentry
    simp [crowded] at hentry

end Batch

end Screening
