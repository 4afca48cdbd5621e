import Screening.Batch
import Screening.Proofs.PathTexts

/-!
# Names of data files and of their reports

A data file is named by four digits, and its report is named after it.

* `FileName.IsIndex digits`, `FileName.nameOf digits` — the digits, and the name that they make.
* `FileName.isStandard_iff` — the names in the usual form are those, and no others.
* `FileName.reportName` — the name of the report on a file of the given name; other files have
  other reports (`reportName_inj`), and no report is named like a file
  (`isStandard_reportName`).
-/

set_option autoImplicit false

namespace Screening.FileName

/-! ## Names in the usual form -/

/-- Digits that make up the index of a file. -/
def IsIndex (digits : List Char) : Prop :=
  digits.length = indexDigits ∧ digits.all Char.isDigit = true

/-- The name of the file with these digits. -/
def nameOf (digits : List Char) : String := String.ofList (stemLetters ++ digits ++ ending)

theorem toList_nameOf (digits : List Char) :
    (nameOf digits).toList = stemLetters ++ digits ++ ending := String.toList_ofList

/-- The index is split off a name that begins with it. -/
theorem splitIndex?_append {digits : List Char} (h : IsIndex digits) (rest : List Char) :
    splitIndex? (stemLetters ++ digits ++ rest) = some (numberOf digits, rest) := by
  have hletters : stemLetters.isPrefixOf (stemLetters ++ digits ++ rest) = true := by
    rw [List.isPrefixOf_iff_prefix, List.append_assoc]
    exact List.prefix_append _ _
  have hdrop : (stemLetters ++ digits ++ rest).drop stemLetters.length = digits ++ rest := by
    rw [List.append_assoc, List.drop_left]
  rw [splitIndex?, hdrop, List.take_left' h.1, List.drop_left' h.1]
  exact if_pos ⟨hletters, h.1, h.2⟩

/-- A name from which an index is split off begins with it. -/
theorem eq_of_splitIndex? {name rest : List Char} {index : Nat}
    (h : splitIndex? name = some (index, rest)) :
    ∃ digits, IsIndex digits ∧ name = stemLetters ++ digits ++ rest ∧ index = numberOf digits := by
  rw [splitIndex?] at h
  split at h
  · rename_i hname
    obtain ⟨hletters, hcount, hdigits⟩ := hname
    obtain ⟨later, rfl⟩ := List.isPrefixOf_iff_prefix.1 hletters
    rw [List.drop_left] at hcount hdigits h
    obtain ⟨rfl, rfl⟩ := Prod.mk.inj (Option.some.inj h)
    refine ⟨later.take indexDigits, ⟨hcount, hdigits⟩, ?_, rfl⟩
    rw [List.append_assoc, List.take_append_drop]
  · cases h

/-- **The names in the usual form** are made of four digits. -/
theorem isStandard_iff {name : String} :
    isStandard name = true ↔ ∃ digits, IsIndex digits ∧ name = nameOf digits := by
  constructor
  · intro h
    rw [isStandard] at h
    split at h
    · rename_i index rest hsplit
      obtain ⟨digits, hindex, hname, -⟩ := eq_of_splitIndex? hsplit
      refine ⟨digits, hindex, String.toList_inj.1 ?_⟩
      rw [hname, toList_nameOf, eq_of_beq h]
    · cases h
  · rintro ⟨digits, hindex, rfl⟩
    rw [isStandard, toList_nameOf, splitIndex?_append hindex]
    exact beq_self_eq_true ending

theorem kpoint?_nameOf {digits : List Char} (h : IsIndex digits) :
    kpoint? (nameOf digits) = some (numberOf digits) := by
  rw [kpoint?, toList_nameOf, splitIndex?_append h]
  rfl

theorem stem_nameOf (digits : List Char) :
    Path.stem (nameOf digits) = String.ofList (stemLetters ++ digits) := by
  have hbackwards : (nameOf digits).toList.reverse =
      ['p', 'm', 't'] ++ '.' :: (stemLetters ++ digits).reverse := by
    rw [toList_nameOf, List.reverse_append]
    rfl
  have hbefore : (stemLetters ++ digits).isEmpty = false := rfl
  simp [Path.stem, hbackwards, hbefore]

/-! ## Plain names -/

/-- A character of a name of a file or a report. -/
theorem ne_slash_of_isDigit {c : Char} (h : c.isDigit = true) : c ≠ '/' := by
  rintro rfl
  cases h

/-- What begins with the letters of a name and goes on with no slash is a plain name. -/
theorem isPlain_of_letters {rest : List Char} (h : '/' ∉ rest) :
    Path.IsPlain (String.ofList (stemLetters ++ rest)) := by
  have hletters : stemLetters = ['W', 'F', 'U', 'L', 'L'] := rfl
  have hne {other : String} (hlength : other.toList.length < 5) :
      String.ofList (stemLetters ++ rest) ≠ other := by
    rintro rfl
    rw [String.toList_ofList, List.length_append, hletters] at hlength
    simp only [List.length_cons, List.length_nil] at hlength
    omega
  refine ⟨?_, hne (by decide), hne (by decide), hne (by decide)⟩
  rw [String.toList_ofList, List.mem_append, not_or]
  exact ⟨by decide, h⟩

theorem slash_notMem_index {digits : List Char} (h : IsIndex digits) : '/' ∉ digits :=
  fun hmem => ne_slash_of_isDigit (List.all_eq_true.1 h.2 _ hmem) rfl

/-- Few characters take few bytes. -/
theorem utf8ByteSize_ofList_le (chars : List Char) :
    (String.ofList chars).utf8ByteSize ≤ 4 * chars.length := by
  induction chars with
  | nil => exact Nat.le_refl 0
  | cons c rest ih =>
    have hsplit : String.ofList (c :: rest) = String.singleton c ++ String.ofList rest := by
      rw [String.singleton_eq_ofList, ← String.ofList_append]
      rfl
    have hc := c.utf8Size_le_four
    rw [hsplit, String.utf8ByteSize_append, String.utf8ByteSize_singleton, List.length_cons]
    omega

variable {name other : String}

theorem isPlain_of_isStandard (h : isStandard name = true) : Path.IsPlain name := by
  obtain ⟨digits, hindex, rfl⟩ := isStandard_iff.1 h
  rw [nameOf, List.append_assoc]
  apply isPlain_of_letters
  rw [List.mem_append, not_or]
  exact ⟨slash_notMem_index hindex, by decide⟩

theorem utf8ByteSize_of_isStandard (h : isStandard name = true) :
    name.utf8ByteSize ≤ FileTree.maxNameBytes := by
  obtain ⟨digits, ⟨hcount, -⟩, rfl⟩ := isStandard_iff.1 h
  refine Nat.le_trans (utf8ByteSize_ofList_le _) ?_
  rw [List.length_append, List.length_append, hcount]
  decide

/-! ## Names of reports -/

/-- The name of the report on a file. -/
def reportName (name : String) : String := Path.stem name ++ "_readable.txt"

/-- How the name of a report ends. -/
def reportEnding : List Char := "_readable.txt".toList

theorem reportName_nameOf (digits : List Char) :
    reportName (nameOf digits) = String.ofList (stemLetters ++ (digits ++ reportEnding)) := by
  have hending : String.ofList reportEnding = "_readable.txt" := String.ofList_toList
  rw [reportName, stem_nameOf, ← hending, ← String.ofList_append, List.append_assoc]

theorem isPlain_reportName (h : isStandard name = true) : Path.IsPlain (reportName name) := by
  obtain ⟨digits, hindex, rfl⟩ := isStandard_iff.1 h
  rw [reportName_nameOf]
  apply isPlain_of_letters
  rw [List.mem_append, not_or]
  exact ⟨slash_notMem_index hindex, by decide⟩

theorem utf8ByteSize_reportName (h : isStandard name = true) :
    (reportName name).utf8ByteSize ≤ FileTree.maxNameBytes := by
  obtain ⟨digits, hindex, rfl⟩ := isStandard_iff.1 h
  rw [reportName_nameOf]
  refine Nat.le_trans (utf8ByteSize_ofList_le _) ?_
  rw [List.length_append, List.length_append, hindex.1]
  decide

/-- **Different files have different reports.** -/
theorem reportName_inj (h : isStandard name = true) (h' : isStandard other = true)
    (hsame : reportName name = reportName other) : name = other := by
  obtain ⟨digits, hindex, rfl⟩ := isStandard_iff.1 h
  obtain ⟨digits', hindex', rfl⟩ := isStandard_iff.1 h'
  rw [reportName_nameOf, reportName_nameOf, ← String.toList_inj,
    String.toList_ofList, String.toList_ofList] at hsame
  have hdigits := List.append_cancel_left hsame
  rw [List.append_cancel_right hdigits]

/-- **No report is named like a file**: its name is longer. -/
theorem isStandard_reportName (h : isStandard name = true) :
    isStandard (reportName name) = false := by
  rw [Bool.eq_false_iff]
  intro hreport
  obtain ⟨digits, hindex, rfl⟩ := isStandard_iff.1 h
  obtain ⟨digits', hindex', hname⟩ := isStandard_iff.1 hreport
  rw [reportName_nameOf, nameOf, ← String.toList_inj, String.toList_ofList,
    String.toList_ofList] at hname
  have hlength := congrArg List.length hname
  simp only [List.length_append, hindex.1, hindex'.1] at hlength
  revert hlength
  decide

/-- The path of the report on a file is its name in the directory for reports. -/
theorem reportPath_join {directory output : String} (hdirectory : directory ≠ "")
    (h : isStandard name = true) :
    Batch.reportPath output (Path.join directory name) = Path.join output (reportName name) := by
  rw [Batch.reportPath, Path.fileName?_join hdirectory (isPlain_of_isStandard h)]
  rfl

end Screening.FileName
