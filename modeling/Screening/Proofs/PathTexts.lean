import Screening.Path

/-!
# Paths as texts

What joining a name to a path does to the steps of the path and to what it is called, for names that
stand for themselves.

* `Path.IsPlain name` — a name without slashes that is neither empty nor dots.
* `Path.steps_join` — joining a plain name adds it as the last step.
* `Path.fileName?_join` — what is reached under a plain name is called by it.
-/

set_option autoImplicit false

namespace Screening.Path

/-- A name that stands for itself as a path of one step. -/
structure IsPlain (name : String) : Prop where
  /-- It is one step. -/
  slash : '/' ∉ name.toList
  /-- It is not the step that stays. -/
  empty : name ≠ ""
  /-- Nor is it a dot. -/
  dot : name ≠ "."
  /-- Nor does it lead back. -/
  dots : name ≠ ".."

/-- A slash takes a text apart. -/
theorem splitSlashes_append_slash (front back : List Char) :
    splitSlashes (front ++ '/' :: back) = splitSlashes front ++ splitSlashes back := by
  induction front with
  | nil =>
    obtain ⟨piece, pieces, hback⟩ := List.exists_cons_of_ne_nil (splitSlashes_ne_nil back)
    simp [splitSlashes, hback]
  | cons c front ih =>
    obtain ⟨piece, pieces, hfront⟩ := List.exists_cons_of_ne_nil (splitSlashes_ne_nil front)
    rw [List.cons_append, splitSlashes, ih, splitSlashes, hfront]
    dsimp only [List.cons_append]
    split <;> rfl

variable {base name : String}

theorem isAbsolute_of_isPlain (h : IsPlain name) : isAbsolute name = false := by
  cases hchars : name.toList with
  | nil => rw [isAbsolute, hchars]; rfl
  | cons c rest =>
    have hc : c ≠ '/' := fun same => h.slash (by rw [hchars, same]; exact List.mem_cons_self ..)
    rw [isAbsolute, hchars]
    simpa using hc

/-- The last step of a path that ends in a slash stays where it is. -/
theorem exists_steps_of_getLast? (h : base.toList.getLast? = some '/') :
    ∃ front, base.toList = front ++ ['/'] ∧
      steps base = (splitSlashes front).map String.ofList ++ [""] := by
  obtain ⟨front, hfront⟩ := List.getLast?_eq_some_iff.1 h
  refine ⟨front, hfront, ?_⟩
  rw [steps, hfront, splitSlashes_append_slash, List.map_append]
  rfl

/-- **Joining a name adds it as the last step**; a slash at the end of the path is used for it. -/
theorem steps_join (hbase : base ≠ "") (h : IsPlain name) :
    ∃ outer, (steps base = outer ∨ steps base = outer ++ [""]) ∧
      steps (join base name) = outer ++ [name] := by
  have hname : splitSlashes name.toList = [name.toList] := splitSlashes_of_notMem h.slash
  rw [join, isAbsolute_of_isPlain h, if_neg Bool.false_ne_true]
  by_cases hlast : base.toList.getLast? = some '/'
  · obtain ⟨front, hfront, hsteps⟩ := exists_steps_of_getLast? hlast
    refine ⟨(splitSlashes front).map String.ofList, Or.inr hsteps, ?_⟩
    rw [if_pos (Or.inr hlast), steps, String.toList_append, hfront, List.append_assoc,
      List.singleton_append, splitSlashes_append_slash, hname, List.map_append, List.map_singleton,
      String.ofList_toList]
  · refine ⟨steps base, Or.inl rfl, ?_⟩
    have hslash : "/".toList = ['/'] := rfl
    rw [if_neg (by simp [hbase, hlast]), steps, String.toList_append, String.toList_append, hslash,
      List.append_assoc, List.singleton_append, splitSlashes_append_slash, hname, List.map_append,
      List.map_singleton, String.ofList_toList]
    rfl

/-- Joining a name leaves the beginning of a path. -/
theorem isAbsolute_join (hbase : base ≠ "") (h : IsPlain name) :
    isAbsolute (join base name) = isAbsolute base := by
  obtain ⟨c, rest, hchars⟩ := List.exists_cons_of_ne_nil fun hnil : base.toList = [] =>
    hbase (String.toList_inj.1 hnil)
  rw [join, isAbsolute_of_isPlain h, if_neg Bool.false_ne_true]
  split
  · rw [isAbsolute, isAbsolute, String.toList_append, hchars]
    rfl
  · rw [isAbsolute, isAbsolute, String.toList_append, String.toList_append, hchars]
    rfl

theorem join_ne_empty (hbase : base ≠ "") (path : String) : join base path ≠ "" := by
  have happend (more : String) : base ++ more ≠ "" := fun h => hbase (by
    have hnil : base.toList ++ more.toList = [] := by rw [← String.toList_append, h]; rfl
    exact String.toList_inj.1 (List.append_eq_nil_iff.1 hnil).1)
  rw [join]
  split
  · rename_i habsolute
    rintro rfl
    cases habsolute
  · split
    · exact happend path
    · rw [String.append_assoc]
      exact happend _

/-- **What is reached under a name is called by it.** -/
theorem fileName?_join (hbase : base ≠ "") (h : IsPlain name) :
    fileName? (join base name) = some name := by
  obtain ⟨outer, -, hsteps⟩ := steps_join hbase h
  have hlast : (names (join base name)).getLast? = some name := by
    rw [names, hsteps]
    cases outer with
    | nil => simp [h.empty]
    | cons first outer =>
      have hkept : [name].filter (fun name => name ≠ "" ∧ name ≠ ".") = [name] := by
        simp [h.empty, h.dot]
      dsimp only [List.cons_append]
      rw [List.filter_append, hkept, ← List.append_assoc, List.getLast?_concat]
  rw [fileName?, hlast]
  simp [h.dot, h.dots]

end Screening.Path
