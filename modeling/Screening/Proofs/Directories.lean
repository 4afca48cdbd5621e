import Screening.FileTree
import Screening.Proofs.PathTexts

/-!
# Paths through directories

Where no links are in the way, following a path means going through one directory after the other.
Such a way stays open whatever files are written and whatever directories are made, and this is why
operations on files can do no harm to each other.

* `FileTree.NoLinks` — a tree without symbolic links.
* `FileTree.Leads`, `FileTree.LeadsTo` — steps, or a path, lead through directories to a directory.
* `follow_of_leads`, `leads_of_follow` — that is what following them finds.
* `FileTree.Keeps` — one tree has all the directories of another, and so all its ways
  (`LeadsTo.keeps`).
* `locate_join`, `open?_join`, `placeForFile_join` — what a name leads to in a directory.
-/

set_option autoImplicit false

namespace Screening.FileTree

/-- There are no symbolic links in a tree. -/
def NoLinks (tree : FileTree) : Prop := ∀ place target, tree.entryAt? place ≠ some (.link target)

/-- Steps lead from one directory to another, and every place on the way is a directory. -/
inductive Leads (tree : FileTree) : Location → List String → Location → Prop
  /-- No steps are left. -/
  | here {place : Location} (directory : tree.entryAt? place = some .directory) :
      Leads tree place [] place
  /-- An empty step or a dot stays. -/
  | stay {place target : Location} {step : String} {rest : List String}
      (directory : tree.entryAt? place = some .directory) (still : step = "" ∨ step = ".")
      (later : Leads tree place rest target) : Leads tree place (step :: rest) target
  /-- Two dots lead back. -/
  | up {place target : Location} {rest : List String}
      (directory : tree.entryAt? place = some .directory)
      (later : Leads tree place.tail rest target) : Leads tree place (".." :: rest) target
  /-- A name leads further in. -/
  | down {place target : Location} {step : String} {rest : List String}
      (directory : tree.entryAt? place = some .directory)
      (named : ¬(step = "" ∨ step = ".") ∧ step ≠ "..")
      (short : step.utf8ByteSize ≤ maxNameBytes)
      (later : Leads tree (step :: place) rest target) : Leads tree place (step :: rest) target

/-- A path leads through directories to a directory. -/
structure LeadsTo (tree : FileTree) (path : String) (target : Location) : Prop where
  /-- It is a path at all. -/
  allowed : checkPath path = .ok ()
  /-- Its steps lead there. -/
  steps : tree.Leads (start tree.workingDirectory path) (Path.steps path) target

/-- A tree has the directories of another one, and paths start at the same place. -/
structure Keeps (tree later : FileTree) : Prop where
  /-- Relative paths start where they did. -/
  workingDirectory : later.workingDirectory = tree.workingDirectory
  /-- What was a directory still is one. -/
  directories : ∀ place, tree.entryAt? place = some .directory →
    later.entryAt? place = some .directory

/-! ## Steps through directories -/

namespace Leads

variable {tree later : FileTree} {place middle target : Location} {front back : List String}

theorem directory_start (h : tree.Leads place front target) :
    tree.entryAt? place = some .directory := by
  cases h <;> assumption

theorem directory_target (h : tree.Leads place front target) :
    tree.entryAt? target = some .directory := by
  induction h with
  | here directory => exact directory
  | stay _ _ _ ih => exact ih
  | up _ _ ih => exact ih
  | down _ _ _ _ ih => exact ih

theorem append (h : tree.Leads place front middle) (h' : tree.Leads middle back target) :
    tree.Leads place (front ++ back) target := by
  induction h with
  | here _ => exact h'
  | stay directory still _ ih => exact .stay directory still (ih h')
  | up directory _ ih => exact .up directory (ih h')
  | down directory named short _ ih => exact .down directory named short (ih h')

/-- A way can be cut in two anywhere. -/
theorem split (h : tree.Leads place (front ++ back) target) :
    ∃ middle, tree.Leads place front middle ∧ tree.Leads middle back target := by
  induction front generalizing place with
  | nil => exact ⟨place, .here h.directory_start, h⟩
  | cons step front ih =>
    rw [List.cons_append] at h
    cases h with
    | stay directory still rest =>
      obtain ⟨middle, hfront, hback⟩ := ih rest
      exact ⟨middle, .stay directory still hfront, hback⟩
    | up directory rest =>
      obtain ⟨middle, hfront, hback⟩ := ih rest
      exact ⟨middle, .up directory hfront, hback⟩
    | down directory named short rest =>
      obtain ⟨middle, hfront, hback⟩ := ih rest
      exact ⟨middle, .down directory named short hfront, hback⟩

/-- Slashes behind a way change nothing. -/
theorem append_blanks (h : tree.Leads place front target) (count : Nat) :
    tree.Leads place (front ++ List.replicate count "") target := by
  have hdirectory := h.directory_target
  refine h.append ?_
  induction count with
  | zero => exact .here hdirectory
  | succ count ih => exact .stay hdirectory (.inl rfl) ih

theorem of_append_blank (h : tree.Leads place (front ++ [""]) target) :
    tree.Leads place front target := by
  obtain ⟨middle, hfront, hblank⟩ := h.split
  generalize hsteps : [""] = steps at hblank
  cases hblank with
  | here _ => cases hsteps
  | stay _ _ rest =>
    obtain ⟨-, rfl⟩ := List.cons.inj hsteps
    cases rest
    exact hfront
  | up _ _ => exact absurd (List.cons.inj hsteps).1 (by decide)
  | down _ named _ _ => exact absurd (.inl (List.cons.inj hsteps).1.symm) named.1

/-- **A way stays open as long as its directories are there.** -/
theorem keeps (h : tree.Leads place front target) (hkeeps : tree.Keeps later) :
    later.Leads place front target := by
  induction h with
  | here directory => exact .here (hkeeps.directories _ directory)
  | stay directory still _ ih => exact .stay (hkeeps.directories _ directory) still ih
  | up directory _ ih => exact .up (hkeeps.directories _ directory) ih
  | down directory named short _ ih =>
    exact .down (hkeeps.directories _ directory) named short ih

end Leads

/-- What follows a name is not only slashes if there is another name. -/
theorem onlySlashes_append {front back : List String} (h : ∃ name ∈ back, name ≠ "") :
    Path.onlySlashes (front ++ back) = false := by
  obtain ⟨name, hmem, hname⟩ := h
  have hall : (front ++ back).all (· = "") = false := by
    rw [List.all_eq_false]
    exact ⟨name, List.mem_append_right _ hmem, by simpa using hname⟩
  rw [Path.onlySlashes, hall, Bool.and_false]

/-- **Following steps takes the way through directories.**  A file that is to be written needs a
name behind it, since a slash there would ask for a directory. -/
theorem follow_of_leads {tree : FileTree} {place target : Location} {front back : List String}
    {purpose : Purpose} (h : tree.Leads place front target)
    (hpurpose : purpose = .look ∨ ∃ name ∈ back, name ≠ "") (links : Nat) :
    tree.follow purpose links place (front ++ back) = tree.follow purpose links target back := by
  induction h with
  | here _ => rfl
  | stay directory still _ ih =>
    rw [List.cons_append, follow, if_neg (fun absent => absent directory), if_pos still, ih]
  | up directory _ ih =>
    rw [List.cons_append, follow, if_neg (fun absent => absent directory), if_neg (by decide),
      if_pos rfl, ih]
  | @down place target step rest directory named short later ih =>
    have hslashes : ¬(purpose = .write ∧ Path.onlySlashes (rest ++ back) = true) := by
      rintro ⟨hwrite, hslashes⟩
      rcases hpurpose with hlook | hname
      · exact absurd (hwrite.symm.trans hlook) (by decide)
      · rw [onlySlashes_append hname] at hslashes
        cases hslashes
    rw [List.cons_append, follow, if_neg (fun absent => absent directory), if_neg named.1,
      if_neg named.2, if_neg hslashes, if_neg (Nat.not_lt.2 short), later.directory_start]
    exact ih

/-- **Where there are no links, following steps to a directory is such a way.** -/
theorem leads_of_follow {tree : FileTree} (hlinks : tree.NoLinks) {purpose : Purpose}
    {links : Nat} {place target : Location} {steps : List String}
    (h : tree.follow purpose links place steps = .ok (target, some .directory)) :
    tree.Leads place steps target := by
  induction steps generalizing place with
  | nil =>
    rw [follow] at h
    obtain ⟨rfl, hentry⟩ := Prod.mk.inj (Except.ok.inj h)
    exact .here hentry
  | cons step rest ih =>
    rw [follow] at h
    split at h
    · cases h
    · rename_i directory
      rw [Classical.not_not] at directory
      split at h
      · rename_i still
        exact .stay directory still (ih h)
      · rename_i moving
        split at h
        · rename_i back
          subst back
          exact .up directory (ih h)
        · rename_i named
          split at h
          · cases h
          · split at h
            · cases h
            · rename_i short
              split at h
              · rename_i target hentry
                exact absurd hentry (hlinks _ _)
              · exact .down directory ⟨moving, named⟩ (Nat.not_lt.1 short) (ih h)
              · -- Nothing is there, so the steps end before any directory.
                split at h
                · cases h
                · cases h

/-! ## Paths to directories -/

variable {tree later : FileTree} {path base name : String} {place target : Location}

theorem locate_eq {purpose : Purpose} (h : checkPath path = .ok ()) :
    tree.locate purpose path =
      tree.follow purpose maxLinks (start tree.workingDirectory path) (Path.steps path) := by
  rw [locate, h]
  rfl

theorem checkPath_of_locate {purpose : Purpose} {found : Location × Option Entry}
    (h : tree.locate purpose path = .ok found) : checkPath path = .ok () := by
  cases hcheck : checkPath path with
  | ok _ => rfl
  | error cause =>
    rw [locate, hcheck] at h
    cases h

theorem ne_empty_of_checkPath (h : checkPath path = .ok ()) : path ≠ "" := by
  rintro rfl
  rw [checkPath, if_neg (by decide), if_pos rfl] at h
  cases h

namespace LeadsTo

theorem directory (h : tree.LeadsTo path target) : tree.entryAt? target = some .directory :=
  h.steps.directory_target

/-- **Looking where a path leads finds the directory.** -/
theorem locate (h : tree.LeadsTo path target) :
    tree.locate .look path = .ok (target, some .directory) := by
  have hfollow : tree.follow .look maxLinks _ (Path.steps path ++ []) = _ :=
    follow_of_leads h.steps (.inl rfl) maxLinks
  rw [List.append_nil] at hfollow
  rw [locate_eq h.allowed, hfollow, follow, h.directory]

theorem isDirectory (h : tree.LeadsTo path target) : tree.isDirectory path = true := by
  rw [FileTree.isDirectory, h.locate]

/-- **A path to a directory stays one as long as the directories on its way are there.** -/
theorem keeps (h : tree.LeadsTo path target) (hkeeps : tree.Keeps later) :
    later.LeadsTo path target :=
  ⟨h.allowed, hkeeps.workingDirectory ▸ h.steps.keeps hkeeps⟩

theorem ne_empty (h : tree.LeadsTo path target) : path ≠ "" := ne_empty_of_checkPath h.allowed

end LeadsTo

/-- Where there are no links, what is found to be a directory is one that the path leads to. -/
theorem leadsTo_of_locate (hlinks : tree.NoLinks)
    (h : tree.locate .look path = .ok (target, some .directory)) : tree.LeadsTo path target := by
  have hcheck := checkPath_of_locate h
  rw [locate_eq hcheck] at h
  exact ⟨hcheck, leads_of_follow hlinks h⟩

theorem exists_leadsTo_of_isDirectory (hlinks : tree.NoLinks) (h : tree.isDirectory path = true) :
    ∃ target, tree.LeadsTo path target := by
  rw [isDirectory] at h
  split at h
  · rename_i target hlocate
    exact ⟨target, leadsTo_of_locate hlinks hlocate⟩
  · cases h

/-! ## Names in a directory -/

/-- **A name in a directory leads to what is there under it**, whether to look or to write. -/
theorem locate_join (hlinks : tree.NoLinks) (hbase : tree.LeadsTo base place)
    (hname : Path.IsPlain name) (hshort : name.utf8ByteSize ≤ maxNameBytes)
    (hcheck : checkPath (Path.join base name) = .ok ()) (purpose : Purpose) :
    tree.locate purpose (Path.join base name) =
      .ok (name :: place, tree.entryAt? (name :: place)) := by
  obtain ⟨outer, houter, hsteps⟩ := Path.steps_join hbase.ne_empty hname
  have hstart : start tree.workingDirectory (Path.join base name) =
      start tree.workingDirectory base := by
    rw [start, start, Path.isAbsolute_join hbase.ne_empty hname]
  have hway : tree.Leads (start tree.workingDirectory base) outer place := by
    have hall := hbase.steps
    rcases houter with houter | houter
    · rwa [houter] at hall
    · rw [houter] at hall
      exact hall.of_append_blank
  have hslashes : ¬(purpose = .write ∧ Path.onlySlashes [] = true) := by
    rintro ⟨-, h⟩
    cases h
  have hstill : ¬(name = "" ∨ name = ".") := not_or.2 ⟨hname.empty, hname.dot⟩
  rw [locate_eq hcheck, hstart, hsteps,
    follow_of_leads hway (.inr ⟨name, List.mem_singleton_self name, hname.empty⟩), follow,
    if_neg (fun absent => absent hway.directory_target), if_neg hstill, if_neg hname.dots,
    if_neg hslashes, if_neg (Nat.not_lt.2 hshort)]
  split
  · rename_i target hentry
    exact absurd hentry (hlinks _ _)
  · rw [follow]
  · rename_i hentry
    rw [hentry]
    rfl

/-- **Opening under a name** finds whatever is there. -/
theorem open?_join (hlinks : tree.NoLinks) (hbase : tree.LeadsTo base place)
    (hname : Path.IsPlain name) (hshort : name.utf8ByteSize ≤ maxNameBytes) :
    tree.open? (Path.join base name) = (checkPath (Path.join base name) >>= fun _ =>
      if (tree.entryAt? (name :: place)).isSome then .ok (name :: place)
      else .error .notFound) := by
  cases hcheck : checkPath (Path.join base name) with
  | error cause =>
    rw [open?, locate, hcheck]
    rfl
  | ok _ =>
    rw [open?, locate_join hlinks hbase hname hshort hcheck]
    cases tree.entryAt? (name :: place) <;> rfl

/-- **A file can be written under a name** unless a directory is there. -/
theorem placeForFile_join (hlinks : tree.NoLinks) (hbase : tree.LeadsTo base place)
    (hname : Path.IsPlain name) (hshort : name.utf8ByteSize ≤ maxNameBytes) :
    tree.placeForFile (Path.join base name) = (checkPath (Path.join base name) >>= fun _ =>
      if tree.entryAt? (name :: place) = some .directory then .error .isADirectory
      else .ok (name :: place)) := by
  cases hcheck : checkPath (Path.join base name) with
  | error cause =>
    rw [placeForFile, locate, hcheck]
    rfl
  | ok _ =>
    rw [placeForFile, locate_join hlinks hbase hname hshort hcheck]
    rcases tree.entryAt? (name :: place) with _ | _ | _ | _ <;> rfl

end Screening.FileTree
