import Mathlib.Data.List.Nodup
import Screening.Proofs.Directories
import Screening.Proofs.FileNames

/-!
# What a scan finds

A scan finds the files of a directory whose names are in the usual form, each once and in the order
of the names.  It does not see the order in which a tree lists its entries, nor any other file.

* `FileTree.dataFiles` — the names that are found in a directory.
* `mem_dataFiles`, `nodup_dataFiles`, `dataFiles_congr` — they are the names of files in the usual
  form, without repetition, and these alone determine the list.
* `Batch.scan_of_locate`, `Batch.exists_leadsTo_of_scan` — a scan goes through them.
-/

set_option autoImplicit false

namespace Screening

namespace FileTree

variable {tree other : FileTree} {place : Location} {name : String}

/-! ## Files in a directory -/

theorem fileNameIn?_eq_some {entry : Location × Entry} :
    fileNameIn? place entry = some name ↔ ∃ bytes, entry = (name :: place, .file bytes) := by
  constructor
  · intro h
    unfold fileNameIn? at h
    split at h
    · split at h
      · rename_i inner outer bytes houter
        cases h
        exact ⟨bytes, by rw [houter]⟩
      · cases h
    · cases h
  · rintro ⟨bytes, rfl⟩
    exact if_pos rfl

/-- What a tree lists is what is there, since it lists nothing twice. -/
theorem lookup_eq_some_iff_mem {entries : List (Location × Entry)}
    (hnodup : (entries.map Prod.fst).Nodup) {entry : Entry} :
    entries.lookup place = some entry ↔ (place, entry) ∈ entries := by
  rw [List.lookup_eq_some_iff]
  constructor
  · rintro ⟨front, back, rfl, -⟩
    exact List.mem_append_right _ (List.mem_cons_self ..)
  · intro hmem
    obtain ⟨front, back, rfl⟩ := List.append_of_mem hmem
    refine ⟨front, back, rfl, fun pair hpair => ?_⟩
    rw [List.map_append, List.map_cons] at hnodup
    have hnotMem := (List.nodup_append.1 hnodup).2.2 pair.1 (List.mem_map_of_mem hpair) place
      (List.mem_cons_self ..)
    exact bne_iff_ne.2 (Ne.symm hnotMem)

theorem mem_filesIn :
    name ∈ tree.filesIn place ↔ ∃ bytes, tree.entryAt? (name :: place) = some (.file bytes) := by
  rw [filesIn, List.mem_filterMap]
  constructor
  · rintro ⟨entry, hmem, hname⟩
    obtain ⟨bytes, rfl⟩ := fileNameIn?_eq_some.1 hname
    exact ⟨bytes, (lookup_eq_some_iff_mem tree.nodup).2 hmem⟩
  · rintro ⟨bytes, hentry⟩
    exact ⟨_, (lookup_eq_some_iff_mem tree.nodup).1 hentry, fileNameIn?_eq_some.2 ⟨bytes, rfl⟩⟩

theorem nodup_filesIn (tree : FileTree) (place : Location) : (tree.filesIn place).Nodup := by
  have hplaces := List.pairwise_map.1 tree.nodup
  refine List.pairwise_filterMap.2
    (hplaces.imp fun {entry entry'} hne name hname name' hname' => ?_)
  obtain ⟨bytes, rfl⟩ := fileNameIn?_eq_some.1 hname
  obtain ⟨bytes', rfl⟩ := fileNameIn?_eq_some.1 hname'
  rintro rfl
  exact hne rfl

/-! ## Data files -/

/-- The names of the files of a directory that are named in the usual way, in their order. -/
def dataFiles (tree : FileTree) (place : Location) : List String :=
  ((tree.filesIn place).filter FileName.isStandard).mergeSort fun a b => decide (a ≤ b)

theorem perm_dataFiles (tree : FileTree) (place : Location) :
    (tree.dataFiles place).Perm ((tree.filesIn place).filter FileName.isStandard) :=
  List.mergeSort_perm _ _

theorem mem_dataFiles :
    name ∈ tree.dataFiles place ↔
      FileName.isStandard name = true ∧
        ∃ bytes, tree.entryAt? (name :: place) = some (.file bytes) := by
  rw [(perm_dataFiles tree place).mem_iff, List.mem_filter, mem_filesIn, and_comm]

theorem nodup_dataFiles (tree : FileTree) (place : Location) : (tree.dataFiles place).Nodup :=
  (perm_dataFiles tree place).nodup_iff.2 ((nodup_filesIn tree place).filter _)

theorem pairwise_dataFiles (tree : FileTree) (place : Location) :
    (tree.dataFiles place).Pairwise (· ≤ ·) := by
  have htrans (a b c : String) (hab : decide (a ≤ b) = true) (hbc : decide (b ≤ c) = true) :
      decide (a ≤ c) = true :=
    decide_eq_true (String.le_trans (of_decide_eq_true hab) (of_decide_eq_true hbc))
  have htotal (a b : String) : (decide (a ≤ b) || decide (b ≤ a)) = true := by
    simpa using String.le_total a b
  exact (List.pairwise_mergeSort htrans htotal _).imp of_decide_eq_true

/-- **Trees with the same data files in a directory list them alike.** -/
theorem dataFiles_congr
    (h : ∀ name, FileName.isStandard name = true →
      ((∃ bytes, other.entryAt? (name :: place) = some (.file bytes)) ↔
        ∃ bytes, tree.entryAt? (name :: place) = some (.file bytes))) :
    other.dataFiles place = tree.dataFiles place := by
  have hperm : (other.dataFiles place).Perm (tree.dataFiles place) := by
    rw [List.perm_ext_iff_of_nodup (nodup_dataFiles other place) (nodup_dataFiles tree place)]
    intro name
    rw [mem_dataFiles, mem_dataFiles]
    exact and_congr_right (h name)
  exact hperm.eq_of_pairwise (fun _ _ _ _ => String.le_antisymm) (pairwise_dataFiles other place)
    (pairwise_dataFiles tree place)

end FileTree

namespace Batch

variable {tree : FileTree} {directory : String} {place : Location} {paths : List String}

/-- **A scan goes through the data files of the directory**, in the order of their names. -/
theorem scan_of_locate (h : tree.locate .look directory = .ok (place, some .directory)) :
    scan directory tree = .ok ((tree.dataFiles place).map (Path.join directory)) := by
  rw [scan, h]
  rfl

theorem scan_of_leadsTo (h : tree.LeadsTo directory place) :
    scan directory tree = .ok ((tree.dataFiles place).map (Path.join directory)) :=
  scan_of_locate h.locate

/-- A scan that succeeds was given a directory. -/
theorem exists_leadsTo_of_scan (hlinks : tree.NoLinks) (h : scan directory tree = .ok paths) :
    ∃ place, tree.LeadsTo directory place ∧
      paths = (tree.dataFiles place).map (Path.join directory) := by
  have hscan := h
  rw [scan] at h
  split at h
  · rename_i place hlocate
    have hleads := FileTree.leadsTo_of_locate hlinks hlocate
    rw [scan_of_leadsTo hleads] at hscan
    exact ⟨place, hleads, (Except.ok.inj hscan).symm⟩
  · cases h

end Batch

end Screening
