import Screening.Proofs.MakingDirectories

/-!
# Trees that differ in the bytes of files

Where a path leads, and where directories are made, does not depend on what the files hold.

* `FileTree.SameKinds` — two trees hold the same things, but for the bytes of files.
* `SameKinds.locate`, `SameKinds.planFor` — paths lead to the same places, and the same directories
  are missing.
* `FileTree.GrownAlike` — both trees have grown by the same directories, as they do when directories
  are made in both (`endAlike_makeDirectories`).
-/

set_option autoImplicit false

namespace Screening.FileTree

variable {tree later other : FileTree} {path : String} {place : Location}

/-- Two trees hold the same things at the same places, but for the bytes of files. -/
structure SameKinds (tree other : FileTree) : Prop where
  /-- Relative paths start at the same place. -/
  workingDirectory : other.workingDirectory = tree.workingDirectory
  /-- The same is at a place, or files are. -/
  places : ∀ place, other.entryAt? place = tree.entryAt? place ∨
    ∃ bytes bytes', tree.entryAt? place = some (.file bytes) ∧
      other.entryAt? place = some (.file bytes')

/-- Two findings are the same, but for the bytes of a file. -/
def SameFinding (found found' : Except IoError (Location × Option Entry)) : Prop :=
  found' = found ∨ ∃ place bytes bytes', found = .ok (place, some (.file bytes)) ∧
    found' = .ok (place, some (.file bytes'))

namespace SameKinds

theorem directory_iff (h : SameKinds tree other) (place : Location) :
    other.entryAt? place = some .directory ↔ tree.entryAt? place = some .directory := by
  rcases h.places place with hsame | ⟨bytes, bytes', htree, hother⟩
  · rw [hsame]
  · rw [htree, hother]
    constructor <;> intro hfile <;> cases hfile

theorem keeps (h : SameKinds tree other) : tree.Keeps other :=
  ⟨h.workingDirectory, fun place => (h.directory_iff place).2⟩

theorem noLinks (h : SameKinds tree other) (hlinks : tree.NoLinks) : other.NoLinks := by
  intro place target hentry
  rcases h.places place with hsame | ⟨bytes, bytes', -, hother⟩
  · exact hlinks place target (hsame.symm.trans hentry)
  · rw [hother] at hentry
    cases hentry

theorem file_iff (h : SameKinds tree other) (place : Location) :
    (∃ bytes, other.entryAt? place = some (.file bytes)) ↔
      ∃ bytes, tree.entryAt? place = some (.file bytes) := by
  rcases h.places place with hsame | ⟨bytes, bytes', htree, hother⟩
  · rw [hsame]
  · exact ⟨fun _ => ⟨bytes, htree⟩, fun _ => ⟨bytes', hother⟩⟩

theorem entryAt?_of_link (h : SameKinds tree other) {target : String}
    (hlink : tree.entryAt? place = some (.link target)) :
    other.entryAt? place = some (.link target) := by
  rcases h.places place with hsame | ⟨bytes, bytes', htree, -⟩
  · rw [hsame, hlink]
  · rw [hlink] at htree
    cases htree

theorem entryAt?_of_none (h : SameKinds tree other) (hnone : tree.entryAt? place = none) :
    other.entryAt? place = none := by
  rcases h.places place with hsame | ⟨bytes, bytes', htree, -⟩
  · rw [hsame, hnone]
  · rw [hnone] at htree
    cases htree

/-- **Paths are followed alike in both trees**: what files hold is not looked at. -/
theorem follow (h : SameKinds tree other) (purpose : Purpose) (links : Nat) (place : Location)
    (steps : List String) :
    SameFinding (tree.follow purpose links place steps)
      (other.follow purpose links place steps) := by
  have hdirectory (place : Location) : other.entryAt? place ≠ some .directory ↔
      tree.entryAt? place ≠ some .directory := not_congr (h.directory_iff place)
  -- The other tree takes the same branch each time; only what is found at the end may differ.
  fun_induction FileTree.follow tree purpose links place steps with
  | case1 links place =>
    rw [FileTree.follow]
    rcases h.places place with hsame | ⟨bytes, bytes', htree, hother⟩
    · exact .inl (by rw [hsame])
    · exact .inr ⟨place, bytes, bytes', by rw [htree], by rw [hother]⟩
  | case2 links place step rest hplace =>
    rw [FileTree.follow, if_pos ((hdirectory place).2 hplace)]
    exact .inl rfl
  | case3 links place step rest hplace still ih =>
    rw [FileTree.follow, if_neg (mt (hdirectory place).1 hplace), if_pos still]
    exact ih
  | case4 links place rest hplace moving ih =>
    rw [FileTree.follow, if_neg (mt (hdirectory place).1 hplace), if_neg moving, if_pos rfl]
    exact ih
  | case5 links place step rest hplace moving named slashes =>
    rw [FileTree.follow, if_neg (mt (hdirectory place).1 hplace), if_neg moving, if_neg named,
      if_pos slashes]
    exact .inl rfl
  | case6 links place step rest hplace moving named slashes long =>
    rw [FileTree.follow, if_neg (mt (hdirectory place).1 hplace), if_neg moving, if_neg named,
      if_neg slashes, if_pos long]
    exact .inl rfl
  | case7 place step rest hplace moving named slashes short target hlink =>
    rw [FileTree.follow, if_neg (mt (hdirectory place).1 hplace), if_neg moving, if_neg named,
      if_neg slashes, if_neg short, h.entryAt?_of_link hlink]
    exact .inl rfl
  | case8 place step rest hplace moving named slashes short target hlink links ih =>
    rw [FileTree.follow, if_neg (mt (hdirectory place).1 hplace), if_neg moving, if_neg named,
      if_neg slashes, if_neg short, h.entryAt?_of_link hlink]
    exact ih
  | case9 links place step rest hplace moving named slashes short entry hlink hentry ih =>
    rw [FileTree.follow, if_neg (mt (hdirectory place).1 hplace), if_neg moving, if_neg named,
      if_neg slashes, if_neg short]
    rcases h.places (step :: place) with hsame | ⟨bytes, bytes', htree, hother⟩
    · rw [hsame, hentry]
      cases entry with
      | link target => exact (hlink target rfl).elim
      | file bytes => exact ih
      | directory => exact ih
    · rw [hother]
      exact ih
  | case10 links place step rest hplace moving named slashes short hnone hlast =>
    rw [FileTree.follow, if_neg (mt (hdirectory place).1 hplace), if_neg moving, if_neg named,
      if_neg slashes, if_neg short, h.entryAt?_of_none hnone]
    exact .inl (if_pos hlast)
  | case11 links place step rest hplace moving named slashes short hnone hlast =>
    rw [FileTree.follow, if_neg (mt (hdirectory place).1 hplace), if_neg moving, if_neg named,
      if_neg slashes, if_neg short, h.entryAt?_of_none hnone]
    exact .inl (if_neg hlast)

theorem locateParent (h : SameKinds tree other) (path : String) :
    other.locateParent path = tree.locateParent path := by
  have hfollow := h.follow .look maxLinks (start tree.workingDirectory path)
    (Path.stepsBackwards path).tail.reverse
  rw [FileTree.locateParent, FileTree.locateParent, h.workingDirectory]
  rcases hfollow with hsame | ⟨place, bytes, bytes', hfound, hfound'⟩
  · rw [hsame]
  · rw [hfound, hfound']
    rfl

theorem locate (h : SameKinds tree other) (purpose : Purpose) (path : String) :
    SameFinding (tree.locate purpose path) (other.locate purpose path) := by
  cases hcheck : checkPath path with
  | error cause =>
    rw [FileTree.locate, FileTree.locate, hcheck]
    exact .inl rfl
  | ok _ =>
    rw [locate_eq hcheck, locate_eq hcheck, h.workingDirectory]
    exact h.follow purpose maxLinks (start tree.workingDirectory path) (Path.steps path)

theorem isDirectory (h : SameKinds tree other) (path : String) :
    other.isDirectory path = tree.isDirectory path := by
  rw [FileTree.isDirectory, FileTree.isDirectory]
  rcases h.locate .look path with hsame | ⟨place, bytes, bytes', hfound, hfound'⟩
  · rw [hsame]
  · rw [hfound, hfound']

/-- The same plans are made in both trees. -/
theorem planFor (h : SameKinds tree other) (path : String) :
    other.planFor path = tree.planFor path := by
  have hplace : other.placeForDirectory path = tree.placeForDirectory path := by
    cases hcheck : checkPath path with
    | error cause =>
      rw [placeForDirectory, placeForDirectory, hcheck]
      rfl
    | ok _ =>
      have hparent := h.locateParent path
      cases hfound : tree.locateParent path with
      | error cause =>
        rw [placeForDirectory, placeForDirectory, hcheck, hparent, hfound]
        rfl
      | ok outer =>
        rw [hfound] at hparent
        cases hback : Path.stepsBackwards path with
        | nil =>
          rw [placeForDirectory, placeForDirectory, hcheck, hparent, hfound, hback]
        | cons name rest =>
          have hsome : (other.entryAt? (name :: outer)).isSome =
              (tree.entryAt? (name :: outer)).isSome := by
            rcases h.places (name :: outer) with hsame | ⟨bytes, bytes', htree, hother⟩
            · rw [hsame]
            · rw [htree, hother]
              rfl
          rw [placeForDirectory_eq hcheck hback hparent, placeForDirectory_eq hcheck hback hfound,
            hsome]
  rw [FileTree.planFor, FileTree.planFor, hplace, h.isDirectory]

end SameKinds

/-- Two trees have grown alike: at every place both are as they were, or both have a directory. -/
structure GrownAlike (tree other later later' : FileTree) : Prop where
  /-- They differ in bytes alone. -/
  sameKinds : SameKinds later later'
  /-- The same has happened everywhere. -/
  places : ∀ place,
    (later.entryAt? place = tree.entryAt? place ∧ later'.entryAt? place = other.entryAt? place) ∨
      (later.entryAt? place = some .directory ∧ later'.entryAt? place = some .directory)

theorem GrownAlike.refl (h : SameKinds tree other) : GrownAlike tree other tree other :=
  ⟨h, fun _ => .inl ⟨rfl, rfl⟩⟩

theorem GrownAlike.trans {later' latest latest' : FileTree}
    (h : GrownAlike tree other later later') (h' : GrownAlike later later' latest latest') :
    GrownAlike tree other latest latest' where
  sameKinds := h'.sameKinds
  places place := by
    rcases h'.places place with ⟨hsame, hsame'⟩ | hdirectory
    · rw [hsame, hsame']
      exact h.places place
    · exact .inr hdirectory

theorem grownAlike_put (h : SameKinds tree other) (hplace : place ≠ []) :
    GrownAlike tree other (tree.put place .directory) (other.put place .directory) := by
  have hplaces (at_ : Location) :
      ((tree.put place .directory).entryAt? at_ = tree.entryAt? at_ ∧
        (other.put place .directory).entryAt? at_ = other.entryAt? at_) ∨
      ((tree.put place .directory).entryAt? at_ = some .directory ∧
        (other.put place .directory).entryAt? at_ = some .directory) := by
    rw [entryAt?_put tree hplace, entryAt?_put other hplace]
    by_cases hat : at_ = place
    · exact .inr ⟨if_pos hat, if_pos hat⟩
    · exact .inl ⟨if_neg hat, if_neg hat⟩
  refine ⟨⟨h.workingDirectory, fun at_ => ?_⟩, hplaces⟩
  rcases hplaces at_ with ⟨hsame, hsame'⟩ | ⟨hdirectory, hdirectory'⟩
  · rw [hsame, hsame']
    exact h.places at_
  · exact .inl (hdirectory'.trans hdirectory.symm)

/-- Two changes end alike: both succeed or both fail for the same cause, and the trees have grown
alike. -/
def EndAlike (tree other : FileTree) (result result' : EStateM.Result IoError FileTree Unit) :
    Prop :=
  (∃ later later', result = .ok () later ∧ result' = .ok () later' ∧
      GrownAlike tree other later later') ∨
    ∃ cause later later', result = .error cause later ∧ result' = .error cause later' ∧
      GrownAlike tree other later later'

theorem endAlike_makeDirectoryUnlessThere (hlinks : tree.NoLinks) (h : SameKinds tree other)
    (path : String) :
    EndAlike tree other (makeDirectoryUnlessThere path tree)
      (makeDirectoryUnlessThere path other) := by
  rw [makeDirectoryUnlessThere_eq, makeDirectoryUnlessThere_eq, h.planFor]
  rcases planFor_cases tree path with ⟨place, hplace, hplan⟩ | ⟨-, hplan⟩ | ⟨cause, hplan⟩
  · rw [hplan]
    exact .inl ⟨_, _, rfl, rfl, grownAlike_put h (leadsTo_put hlinks hplace).1⟩
  · rw [hplan]
    exact .inl ⟨_, _, rfl, rfl, .refl h⟩
  · rw [hplan]
    exact .inr ⟨cause, _, _, rfl, rfl, .refl h⟩

theorem endAlike_makeWithin (hlinks : tree.NoLinks) (h : SameKinds tree other) (path : String)
    (others : List String) :
    EndAlike tree other (makeWithin path others tree) (makeWithin path others other) := by
  induction others generalizing path with
  | nil => exact endAlike_makeDirectoryUnlessThere hlinks h path
  | cons outer others ih =>
    by_cases hplan : tree.planFor path = .error .notFound
    · have hgrown := grown_makeWithin hlinks outer others
      rw [makeWithin_cons, makeWithin_cons, h.planFor, hplan]
      rcases ih outer with ⟨later, later', hmade, hmade', halike⟩ |
        ⟨cause, later, later', hmade, hmade', halike⟩
      · rw [hmade, hmade']
        rw [treeAfter_ok hmade] at hgrown
        rcases endAlike_makeDirectoryUnlessThere (hgrown.noLinks hlinks) halike.sameKinds path with
          ⟨latest, latest', hlast, hlast', halike'⟩ |
          ⟨cause, latest, latest', hlast, hlast', halike'⟩
        · exact .inl ⟨latest, latest', hlast, hlast', halike.trans halike'⟩
        · exact .inr ⟨cause, latest, latest', hlast, hlast', halike.trans halike'⟩
      · rw [hmade, hmade']
        exact .inr ⟨cause, later, later', rfl, rfl, halike⟩
    · rw [makeWithin_of_ne hplan, makeWithin_of_ne (by rwa [h.planFor])]
      exact endAlike_makeDirectoryUnlessThere hlinks h path

/-- **Directories are made alike in trees that differ in bytes alone.** -/
theorem endAlike_makeDirectories (hlinks : tree.NoLinks) (h : SameKinds tree other)
    (path : String) :
    EndAlike tree other (makeDirectories path tree) (makeDirectories path other) := by
  rw [makeDirectories]
  split
  · exact .inl ⟨tree, other, rfl, rfl, .refl h⟩
  · exact endAlike_makeWithin hlinks h path (Path.ancestors path)

end Screening.FileTree
