import Screening.Proofs.Directories

/-!
# Making directories

Making a directory with all those around it puts directories where nothing was, and nothing else.
If it succeeds then the path leads to a directory, and after that making it again does nothing.

* `FileTree.planFor` — what making one directory comes down to: a place for it, nothing, or a
  failure (`makeDirectoryUnlessThere_eq`).
* `FileTree.Grown paths` — one tree is another with directories at the ends of some of the paths.
* `grown_makeDirectories`, `leadsTo_of_makeDirectories`, `makeDirectories_of_leadsTo` — what making
  directories does, reaches, and does once they are there.
-/

set_option autoImplicit false

namespace Screening.FileTree

variable {tree later : FileTree} {path : String} {place target : Location}

/-- The tree that a change leaves, whether it failed or not. -/
def treeAfter (edit : Change Unit) (tree : FileTree) : FileTree :=
  match edit tree with
  | .ok _ later => later
  | .error _ later => later

theorem treeAfter_ok {edit : Change Unit} (h : edit tree = .ok () later) :
    treeAfter edit tree = later := by
  rw [treeAfter, h]

theorem treeAfter_error {edit : Change Unit} {cause : IoError}
    (h : edit tree = .error cause later) : treeAfter edit tree = later := by
  rw [treeAfter, h]

theorem keeps_put_directory (tree : FileTree) (hplace : place ≠ []) :
    tree.Keeps (tree.put place .directory) := by
  refine ⟨rfl, fun other hother => ?_⟩
  rw [entryAt?_put tree hplace]
  split
  · rfl
  · exact hother

/-! ## One directory -/

/-- Where making a directory puts it, unless it is there; or why it cannot. -/
def planFor (tree : FileTree) (path : String) : Except IoError (Option Location) :=
  match tree.placeForDirectory path with
  | .ok place => .ok (some place)
  | .error .alreadyExists => if tree.isDirectory path then .ok none else .error .alreadyExists
  | .error cause => .error cause

/-- What a plan makes of a tree. -/
def carryOut (tree : FileTree) :
    Except IoError (Option Location) → EStateM.Result IoError FileTree Unit
  | .ok (some place) => .ok () (tree.put place .directory)
  | .ok none => .ok () tree
  | .error cause => .error cause tree

/-- **Making a directory is carrying out the plan for it.** -/
theorem makeDirectoryUnlessThere_eq (path : String) (tree : FileTree) :
    makeDirectoryUnlessThere path tree = tree.carryOut (tree.planFor path) := by
  rw [makeDirectoryUnlessThere, makeDirectory, planFor]
  cases tree.placeForDirectory path with
  | ok place => rfl
  | error cause =>
    cases cause with
    | alreadyExists =>
      dsimp only
      split <;> rfl
    | _ => rfl

/-- The steps of a path are those up to its last name, and then slashes. -/
theorem exists_steps_eq (path : String) :
    ∃ count, Path.steps path = (Path.stepsBackwards path).reverse ++ List.replicate count "" := by
  have hblank : ∀ step ∈ (Path.steps path).reverse.takeWhile (· = ""), step = "" := by
    intro step hstep
    have hkept := List.all_eq_true.1 (List.all_takeWhile (p := (· = ""))) step hstep
    exact of_decide_eq_true hkept
  have hsplit : (Path.steps path).reverse.takeWhile (· = "") ++ Path.stepsBackwards path =
      (Path.steps path).reverse := List.takeWhile_append_dropWhile
  rw [List.eq_replicate_of_mem hblank] at hsplit
  refine ⟨((Path.steps path).reverse.takeWhile (· = "")).length, ?_⟩
  rw [← List.reverse_replicate, ← List.reverse_append, hsplit, List.reverse_reverse]

theorem ne_empty_of_stepsBackwards {name : String} {rest : List String}
    (h : Path.stepsBackwards path = name :: rest) : name ≠ "" := by
  have hhead := List.head?_dropWhile_not (· = "") (Path.steps path).reverse
  rw [Path.stepsBackwards] at h
  rw [h] at hhead
  simpa using hhead

/-- The place for a directory under the last name of a path. -/
theorem placeForDirectory_eq {name : String} {rest : List String} {outer : Location}
    (hcheck : checkPath path = .ok ()) (hback : Path.stepsBackwards path = name :: rest)
    (hparent : tree.locateParent path = .ok outer) :
    tree.placeForDirectory path =
      if name = "." ∨ name = ".." then .error .alreadyExists
      else if maxNameBytes < name.utf8ByteSize then .error .nameTooLong
      else if (tree.entryAt? (name :: outer)).isSome then .error .alreadyExists
      else .ok (name :: outer) := by
  rw [placeForDirectory, hcheck, hparent, hback]
  show (if name = "." ∨ name = ".." then _ else _ : Except IoError Location) = _
  split
  · rfl
  · show (if maxNameBytes < name.utf8ByteSize then _ else _ : Except IoError Location) = _
    split
    · rfl
    · show (if (tree.entryAt? (name :: outer)).isSome then _ else _ : Except IoError Location) = _
      split <;> rfl

/-- The steps before the last name lead to what a directory would be made in. -/
theorem locateParent_of_leads {rest : List String} {outer : Location}
    (hback : (Path.stepsBackwards path).tail = rest)
    (h : tree.Leads (start tree.workingDirectory path) rest.reverse outer) :
    tree.locateParent path = .ok outer := by
  have hfollow : tree.follow .look maxLinks _ (rest.reverse ++ []) = _ :=
    follow_of_leads h (.inl rfl) maxLinks
  rw [List.append_nil] at hfollow
  rw [locateParent, hback, hfollow, follow, h.directory_target]
  rfl

/-- A directory that a path leads to is not made again. -/
theorem planFor_of_leadsTo (h : tree.LeadsTo path target) : tree.planFor path = .ok none := by
  obtain ⟨count, hsteps⟩ := exists_steps_eq path
  have hway := h.steps
  rw [hsteps] at hway
  have hplace : tree.placeForDirectory path = .error .alreadyExists := by
    cases hback : Path.stepsBackwards path with
    | nil =>
      -- The path has no names, and leads to where it starts.
      have hparent := locateParent_of_leads (congrArg List.tail hback) (.here hway.directory_start)
      rw [placeForDirectory, h.allowed, hparent, hback]
      rfl
    | cons name rest =>
      rw [hback, List.reverse_cons, List.append_assoc] at hway
      obtain ⟨outer, houter, hname⟩ := hway.split
      have hparent := locateParent_of_leads (congrArg List.tail hback) houter
      rw [placeForDirectory_eq h.allowed hback hparent]
      cases hname with
      | stay _ still _ =>
        rw [if_pos (.inl (still.resolve_left (ne_empty_of_stepsBackwards hback)))]
      | up _ _ => rw [if_pos (.inr rfl)]
      | down _ named short later =>
        have hthere := later.directory_start
        split
        · rfl
        · rw [if_neg (Nat.not_lt.2 short), hthere]
          rfl
  rw [planFor, hplace, h.isDirectory]
  rfl

theorem exists_parent_of_placeForDirectory (hlinks : tree.NoLinks)
    (h : tree.placeForDirectory path = .ok place) :
    checkPath path = .ok () ∧ ∃ outer, tree.locateParent path = .ok outer ∧
      tree.Leads (start tree.workingDirectory path) (Path.stepsBackwards path).tail.reverse
        outer := by
  rw [placeForDirectory] at h
  cases hcheck : checkPath path with
  | error cause =>
    rw [hcheck] at h
    cases h
  | ok _ =>
    rw [hcheck] at h
    cases hparent : tree.locateParent path with
    | error cause =>
      rw [hparent] at h
      cases h
    | ok outer =>
      refine ⟨rfl, outer, rfl, ?_⟩
      rw [locateParent] at hparent
      cases hfollow : tree.follow .look maxLinks (start tree.workingDirectory path)
          (Path.stepsBackwards path).tail.reverse with
      | error cause =>
        rw [hfollow] at hparent
        cases hparent
      | ok found =>
        obtain ⟨found, entry⟩ := found
        rw [hfollow] at hparent
        rcases entry with _ | _ | _ | _
        · cases hparent
        · cases hparent
        · cases hparent
          exact leads_of_follow hlinks hfollow
        · cases hparent

/-- **A directory is made where nothing was, and the path leads to it.** -/
theorem leadsTo_put (hlinks : tree.NoLinks) (h : tree.placeForDirectory path = .ok place) :
    place ≠ [] ∧ tree.entryAt? place = none ∧ (tree.put place .directory).LeadsTo path place := by
  obtain ⟨hcheck, outer, hparent, hway⟩ := exists_parent_of_placeForDirectory hlinks h
  cases hback : Path.stepsBackwards path with
  | nil =>
    rw [placeForDirectory, hcheck, hparent, hback] at h
    cases h
  | cons name rest =>
    rw [placeForDirectory_eq hcheck hback hparent] at h
    split at h
    · cases h
    · rename_i hdots
      split at h
      · cases h
      · rename_i hshort
        split at h
        · cases h
        · rename_i habsent
          cases h
          have hnone : tree.entryAt? (name :: outer) = none :=
            Option.not_isSome_iff_eq_none.1 habsent
          have hkeeps := keeps_put_directory tree (List.cons_ne_nil name outer)
          have hthere : (tree.put (name :: outer) .directory).entryAt? (name :: outer) =
              some .directory := by
            rw [entryAt?_put tree (List.cons_ne_nil name outer), if_pos rfl]
          obtain ⟨count, hsteps⟩ := exists_steps_eq path
          have hnamed : ¬(name = "" ∨ name = ".") ∧ name ≠ ".." :=
            ⟨not_or.2 ⟨ne_empty_of_stepsBackwards hback, (not_or.1 hdots).1⟩, (not_or.1 hdots).2⟩
          refine ⟨List.cons_ne_nil name outer, hnone, hcheck, ?_⟩
          rw [hback, List.tail_cons] at hway
          rw [hsteps, hback, List.reverse_cons]
          have houter := hway.keeps hkeeps
          -- The way to the outer directory is still open; the new one is its last step.
          exact (houter.append (.down houter.directory_target hnamed (Nat.not_lt.1 hshort)
            (.here hthere))).append_blanks count

/-! ## Growth -/

/-- A tree is another one with directories at the ends of some of the paths, where nothing was. -/
structure Grown (paths : List String) (tree later : FileTree) : Prop where
  /-- Relative paths start where they did. -/
  workingDirectory : later.workingDirectory = tree.workingDirectory
  /-- A place is as it was, or there is a new directory that one of the paths leads to. -/
  places : ∀ place, later.entryAt? place = tree.entryAt? place ∨
    (tree.entryAt? place = none ∧ later.entryAt? place = some .directory ∧
      ∃ path ∈ paths, later.LeadsTo path place)

namespace Grown

variable {paths more : List String} {latest : FileTree}

theorem refl (paths : List String) (tree : FileTree) : Grown paths tree tree :=
  ⟨rfl, fun _ => .inl rfl⟩

/-- What is at a place stays there. -/
theorem entryAt? (h : Grown paths tree later) {entry : Entry}
    (hentry : tree.entryAt? place = some entry) : later.entryAt? place = some entry := by
  rcases h.places place with hsame | ⟨hnone, -, -⟩
  · rw [hsame, hentry]
  · rw [hnone] at hentry
    cases hentry

theorem keeps (h : Grown paths tree later) : tree.Keeps later :=
  ⟨h.workingDirectory, fun _ hplace => h.entryAt? hplace⟩

theorem noLinks (h : Grown paths tree later) (hlinks : tree.NoLinks) : later.NoLinks := by
  intro place target hentry
  rcases h.places place with hsame | ⟨-, hdirectory, -⟩
  · exact hlinks place target (hsame.symm.trans hentry)
  · rw [hdirectory] at hentry
    cases hentry

theorem trans (h : Grown paths tree later) (h' : Grown paths later latest) :
    Grown paths tree latest where
  workingDirectory := h'.workingDirectory.trans h.workingDirectory
  places place := by
    rcases h'.places place with hsame' | ⟨hnone', hdirectory', hpath'⟩
    · rcases h.places place with hsame | ⟨hnone, hdirectory, path, hmem, hleads⟩
      · exact .inl (hsame'.trans hsame)
      · exact .inr ⟨hnone, hsame'.trans hdirectory, path, hmem, hleads.keeps h'.keeps⟩
    · rcases h.places place with hsame | ⟨-, hdirectory, -⟩
      · exact .inr ⟨hsame.symm.trans hnone', hdirectory', hpath'⟩
      · rw [hdirectory] at hnone'
        cases hnone'

theorem mono (h : Grown paths tree later) (hmem : ∀ path ∈ paths, path ∈ more) :
    Grown more tree later where
  workingDirectory := h.workingDirectory
  places place := by
    rcases h.places place with hsame | ⟨hnone, hdirectory, path, hpath, hleads⟩
    · exact .inl hsame
    · exact .inr ⟨hnone, hdirectory, path, hmem path hpath, hleads⟩

end Grown

theorem grown_put (hlinks : tree.NoLinks) (h : tree.placeForDirectory path = .ok place) :
    Grown [path] tree (tree.put place .directory) := by
  obtain ⟨hne, hnone, hleads⟩ := leadsTo_put hlinks h
  refine ⟨rfl, fun other => ?_⟩
  rw [entryAt?_put tree hne]
  by_cases hother : other = place
  · subst hother
    rw [if_pos rfl]
    exact .inr ⟨hnone, rfl, path, List.mem_singleton_self path, hleads⟩
  · rw [if_neg hother]
    exact .inl rfl

/-- What a plan can be. -/
theorem planFor_cases (tree : FileTree) (path : String) :
    (∃ place, tree.placeForDirectory path = .ok place ∧ tree.planFor path = .ok (some place)) ∨
      (tree.isDirectory path = true ∧ tree.planFor path = .ok none) ∨
      ∃ cause, tree.planFor path = .error cause := by
  rw [planFor]
  cases tree.placeForDirectory path with
  | ok place => exact .inl ⟨place, rfl, rfl⟩
  | error cause =>
    cases cause with
    | alreadyExists =>
      dsimp only
      split
      · rename_i hthere
        exact .inr (.inl ⟨hthere, rfl⟩)
      · exact .inr (.inr ⟨_, rfl⟩)
    | _ => exact .inr (.inr ⟨_, rfl⟩)

theorem grown_makeDirectoryUnlessThere (hlinks : tree.NoLinks) (path : String) :
    Grown [path] tree (treeAfter (makeDirectoryUnlessThere path) tree) := by
  rw [treeAfter, makeDirectoryUnlessThere_eq]
  rcases planFor_cases tree path with ⟨place, hplace, hplan⟩ | ⟨-, hplan⟩ | ⟨cause, hplan⟩
  · rw [hplan]
    exact grown_put hlinks hplace
  · rw [hplan]
    exact .refl _ tree
  · rw [hplan]
    exact .refl _ tree

theorem leadsTo_of_makeDirectoryUnlessThere (hlinks : tree.NoLinks)
    (h : makeDirectoryUnlessThere path tree = .ok () later) :
    ∃ target, later.LeadsTo path target := by
  rw [makeDirectoryUnlessThere_eq] at h
  rcases planFor_cases tree path with ⟨place, hplace, hplan⟩ | ⟨hthere, hplan⟩ | ⟨cause, hplan⟩
  · rw [hplan] at h
    cases h
    exact ⟨place, (leadsTo_put hlinks hplace).2.2⟩
  · rw [hplan] at h
    cases h
    exact exists_leadsTo_of_isDirectory hlinks hthere
  · rw [hplan] at h
    cases h

/-! ## Directories within directories -/

/-- **One step of making directories**: the directory is made at once or not at all, unless what it
is to be in is missing; then that is made, and the directory is tried again. -/
theorem makeWithin_cons (path outer : String) (others : List String) (tree : FileTree) :
    makeWithin path (outer :: others) tree =
      match tree.planFor path with
      | .error .notFound =>
        match makeWithin outer others tree with
        | .ok () later => makeDirectoryUnlessThere path later
        | .error cause later => .error cause later
      | plan => tree.carryOut plan := by
  rw [makeWithin]
  dsimp only
  rw [makeDirectoryUnlessThere_eq]
  rcases tree.planFor path with cause | _ | place
  · cases cause with
    | notFound =>
      simp only [carryOut]
      cases makeWithin outer others tree <;> rfl
    | _ => rfl
  · rfl
  · rfl

theorem makeWithin_of_notFound {outer : String} {others : List String}
    (h : tree.planFor path = .error .notFound) :
    (∃ cause, makeWithin path (outer :: others) tree =
      .error cause (treeAfter (makeWithin outer others) tree)) ∨
    makeWithin path (outer :: others) tree =
      makeDirectoryUnlessThere path (treeAfter (makeWithin outer others) tree) := by
  rw [makeWithin_cons, h]
  cases hmade : makeWithin outer others tree with
  | error cause later => exact .inl ⟨cause, by rw [treeAfter_error hmade]⟩
  | ok _ later => exact .inr (by rw [treeAfter_ok hmade])

theorem makeWithin_of_ne {outer : String} {others : List String}
    (h : tree.planFor path ≠ .error .notFound) :
    makeWithin path (outer :: others) tree = makeDirectoryUnlessThere path tree := by
  rw [makeWithin_cons, makeDirectoryUnlessThere_eq]
  split
  · rename_i hplan
    exact absurd hplan h
  · rfl

theorem grown_makeWithin (hlinks : tree.NoLinks) (path : String) (others : List String) :
    Grown (path :: others) tree (treeAfter (makeWithin path others) tree) := by
  induction others generalizing path tree with
  | nil => exact grown_makeDirectoryUnlessThere hlinks path
  | cons outer others ih =>
    have hfirst : ∀ one ∈ [path], one ∈ path :: outer :: others := by simp
    by_cases hplan : tree.planFor path = .error .notFound
    · have houter := (ih hlinks outer).mono fun one hone => List.mem_cons_of_mem path hone
      rcases makeWithin_of_notFound hplan with ⟨cause, hmade⟩ | hmade
      · rw [treeAfter_error hmade]
        exact houter
      · have hlast := (grown_makeDirectoryUnlessThere (houter.noLinks hlinks) path).mono hfirst
        rw [treeAfter, hmade]
        exact houter.trans hlast
    · rw [treeAfter, makeWithin_of_ne hplan]
      exact (grown_makeDirectoryUnlessThere hlinks path).mono hfirst

theorem leadsTo_of_makeWithin (hlinks : tree.NoLinks) {others : List String}
    (h : makeWithin path others tree = .ok () later) : ∃ target, later.LeadsTo path target := by
  cases others with
  | nil => exact leadsTo_of_makeDirectoryUnlessThere hlinks h
  | cons outer others =>
    by_cases hplan : tree.planFor path = .error .notFound
    · rcases makeWithin_of_notFound hplan with ⟨cause, hmade⟩ | hmade
      · rw [hmade] at h
        cases h
      · rw [hmade] at h
        have houter := (grown_makeWithin hlinks outer others).noLinks hlinks
        exact leadsTo_of_makeDirectoryUnlessThere houter h
    · rw [makeWithin_of_ne hplan] at h
      exact leadsTo_of_makeDirectoryUnlessThere hlinks h

/-- **Making directories puts directories where nothing was**, at the ends of the path and of the
paths that it lies in, also if it fails. -/
theorem grown_makeDirectories (hlinks : tree.NoLinks) (path : String) :
    Grown (path :: Path.ancestors path) tree (treeAfter (makeDirectories path) tree) := by
  rw [makeDirectories]
  split
  · exact .refl _ tree
  · exact grown_makeWithin hlinks path (Path.ancestors path)

/-- **Once directories are made, the path leads to one.** -/
theorem leadsTo_of_makeDirectories (hlinks : tree.NoLinks) (hpath : path ≠ "")
    (h : makeDirectories path tree = .ok () later) : ∃ target, later.LeadsTo path target := by
  rw [makeDirectories, if_neg hpath] at h
  exact leadsTo_of_makeWithin hlinks h

/-- **Directories that are there are not made again.** -/
theorem makeDirectories_of_leadsTo (h : tree.LeadsTo path target) :
    makeDirectories path tree = .ok () tree := by
  have hplan := planFor_of_leadsTo h
  have hdirect : makeDirectoryUnlessThere path tree = .ok () tree := by
    rw [makeDirectoryUnlessThere_eq, hplan]
    rfl
  rw [makeDirectories, if_neg h.ne_empty]
  cases Path.ancestors path with
  | nil => exact hdirect
  | cons outer others =>
    have hmissing : tree.planFor path ≠ .error .notFound := fun h => by
      rw [hplan] at h
      cases h
    rw [makeWithin_of_ne hmissing]
    exact hdirect

end Screening.FileTree
