import Screening.Proofs.JsonForms

/-!
# Contents that are written and read back

Contents may be put together from parts whose shapes do not fit, and their numbers need not be
finite.  They are written all the same; what is read depends on both.

* `Contents.numbers`, `Contents.CountsInWords` — the numbers that are written, and that all counts
  are those of machine words.
* `Contents.WrongShape` — the first matrix that has not the shape the sizes call for, which is what
  `Contents.validate` reports.
* `Contents.ofJson_toJson` — the form that is written is read if all numbers are finite, and
  validated then; otherwise it is malformed.
* `Contents.read_written` — the same of whole texts.
-/

set_option autoImplicit false

namespace Screening

open Json

/-! ## What is written -/

/-- The numbers of a matrix, the real part of each element before the imaginary one. -/
def ComplexMatrix.numbers (m : ComplexMatrix) : List Binary64 :=
  m.toList.flatMap fun z => [z.re, z.im]

theorem ComplexMatrix.forall_mem_numbers {m : ComplexMatrix} {P : Binary64 → Prop} :
    (∀ x ∈ m.numbers, P x) ↔ ∀ z ∈ m.toList, P z.re ∧ P z.im := by
  have helement (z : Complex128) : (∀ x ∈ [z.re, z.im], P x) ↔ P z.re ∧ P z.im := by simp
  simp only [← helement]
  exact ⟨fun h z hz x hx => h x (List.mem_flatMap.2 ⟨z, hz, hx⟩), fun h x hx =>
    (List.mem_flatMap.1 hx).elim fun z hz => h z hz.1 x hz.2⟩

namespace Contents

/-- All numbers, those of the header first. -/
def numbers (c : Contents) : List Binary64 :=
  c.header.values ++ (c.wing.numbers ++ (c.cwing.numbers ++ c.response.numbers))

/-- Every count is one that a machine word holds. -/
structure CountsInWords (c : Contents) : Prop where
  /-- The fields of the first record. -/
  fieldCount : c.dimensions.fieldCount < wordLimit
  /-- The extents of the third record. -/
  wing : c.wing.nrows < wordLimit ∧ c.wing.ncols < wordLimit
  /-- The extents of the fourth record. -/
  cwing : c.cwing.nrows < wordLimit ∧ c.cwing.ncols < wordLimit
  /-- The extents of the fifth record. -/
  response : c.response.nrows < wordLimit ∧ c.response.ncols < wordLimit

/-- The report of the first matrix, of those of the records 3, 4 and 5, that has not the shape that
the sizes call for. -/
inductive WrongShape (c : Contents) : FormatError → Prop
  | wing (h : c.wing.shape ≠ c.dimensions.wingShape) :
      WrongShape c (.matrixShapeMismatch 3 c.dimensions.wingShape c.wing.shape)
  | cwing (hwing : c.wing.shape = c.dimensions.wingShape)
      (h : c.cwing.shape ≠ c.dimensions.wingShape) :
      WrongShape c (.matrixShapeMismatch 4 c.dimensions.wingShape c.cwing.shape)
  | response (hwing : c.wing.shape = c.dimensions.wingShape)
      (hcwing : c.cwing.shape = c.dimensions.wingShape)
      (h : c.response.shape ≠ c.dimensions.responseShape) :
      WrongShape c (.matrixShapeMismatch 5 c.dimensions.responseShape c.response.shape)

/-- **What validation reports is the first matrix of a wrong shape.** -/
theorem wrongShape_of_validate {c : Contents} {cause : FormatError}
    (h : c.validate = .error cause) : c.WrongShape cause := by
  simp only [validate, matrices, List.forM_eq_forM, List.forM_cons, List.forM_nil, checkShape] at h
  by_cases hwing : c.wing.shape = c.dimensions.wingShape
  · by_cases hcwing : c.cwing.shape = c.dimensions.wingShape
    · by_cases hresponse : c.response.shape = c.dimensions.responseShape
      · simp [hwing, hcwing, hresponse, bind, Except.bind, pure, Except.pure] at h
      · simp [hwing, hcwing, hresponse, bind, Except.bind] at h
        exact h ▸ .response hwing hcwing hresponse
    · simp [hwing, hcwing, bind, Except.bind] at h
      exact h ▸ .cwing hwing hcwing
  · simp [hwing, bind, Except.bind] at h
    exact h ▸ .wing hwing

end Contents

/-! ## Forms that are written follow the grammar -/

theorem ComplexMatrix.wellFormed_toJson {m : ComplexMatrix}
    (hback : ∀ x ∈ m.numbers, x.isFinite = true → ReadsBack x) :
    (JsonForm.toJson m).WellFormed := by
  rw [forall_mem_numbers] at hback
  have hdata : (Json.array (m.toList.map JsonForm.toJson)).WellFormed := by
    refine wellFormed_array_map fun z hz => .array ?_
    simp [wellFormed_ofBinary64 (hback z hz).1, wellFormed_ofBinary64 (hback z hz).2]
  refine wellFormed_ofFields ?_
  simp [wellFormed_ofNat, hdata]

theorem Contents.wellFormed_toJson {c : Contents}
    (hback : ∀ x ∈ c.numbers, x.isFinite = true → ReadsBack x) :
    (JsonForm.toJson c).WellFormed := by
  simp only [numbers, List.forall_mem_append] at hback
  obtain ⟨hheader, hwing, hcwing, hresponse⟩ := hback
  have hvalues : (Json.array (c.header.values.map ofBinary64)).WellFormed :=
    wellFormed_array_map fun x hx => wellFormed_ofBinary64 (hheader x hx)
  refine wellFormed_ofFields ?_
  simp only [List.forall_mem_cons]
  refine ⟨.string _, wellFormed_ofFields (by simp [wellFormed_ofNat]),
    wellFormed_ofFields (by simpa using hvalues), ComplexMatrix.wellFormed_toJson hwing,
    ComplexMatrix.wellFormed_toJson hcwing, ComplexMatrix.wellFormed_toJson hresponse, by simp⟩

/-! ## Forms that are written are read -/

theorem ComplexMatrix.readsIf {m : ComplexMatrix}
    (hwords : m.nrows < wordLimit ∧ m.ncols < wordLimit)
    (hback : ∀ x ∈ m.numbers, x.isFinite = true → ReadsBack x) :
    ReadsIf (∀ x ∈ m.numbers, x.isFinite = true) m (ComplexMatrix.ofJson (JsonForm.toJson m)) := by
  rw [forall_mem_numbers] at hback
  refine (matrix_readsIf hwords.1 hwords.2 fun z hz => ?_).congr forall_mem_numbers.symm
  exact complex_readsIf (hback z hz).1 (hback z hz).2

namespace Contents

/-- The form of contents is read if those of its parts are, and validated then. -/
theorem ofJson_eq {form source dimensions header wing cwing response : Json}
    (h : Carries [("source", source), ("dimensions", dimensions), ("header", header),
      ("wing", wing), ("cwing", cwing), ("response", response)] form) {c : Contents}
    {P Q R S : Prop} (hsource : text source = .ok c.source)
    (hdimensions : Dimensions.ofJson dimensions = .ok c.dimensions)
    (hheader : ReadsIf P c.header (Header.ofJson header))
    (hwing : ReadsIf Q c.wing (ComplexMatrix.ofJson wing))
    (hcwing : ReadsIf R c.cwing (ComplexMatrix.ofJson cwing))
    (hresponse : ReadsIf S c.response (ComplexMatrix.ofJson response)) :
    (P ∧ Q ∧ R ∧ S → JsonForm.ofJson form = (do orRefuse c.validate; return c)) ∧
      (¬ (P ∧ Q ∧ R ∧ S) → (JsonForm.ofJson form : Except ReadError Contents) =
        .error .malformed) := by
  have hfields := (fieldValues_readsIf [.of "source" (.of_ok hsource),
    .of "dimensions" (.of_ok hdimensions), .of "header" hheader, .of "wing" hwing,
    .of "cwing" hcwing, .of "response" hresponse] (by simp [Entry.of, field]) h).congr
      (show _ ↔ P ∧ Q ∧ R ∧ S by simp [Entry.of])
  refine ⟨fun hall => ?_, fun hnot => hfields.bind_eq_malformed hnot _⟩
  obtain ⟨hp, hq, hr, hs⟩ := hall
  refine (hfields.bind_eq ⟨hp, hq, hr, hs⟩ _).trans ?_
  refine ((ReadsIf.of_ok hsource).bind_eq trivial _).trans ?_
  refine ((ReadsIf.of_ok hdimensions).bind_eq trivial _).trans ?_
  refine (hheader.bind_eq hp _).trans ?_
  refine (hwing.bind_eq hq _).trans ?_
  refine (hcwing.bind_eq hr _).trans ?_
  exact hresponse.bind_eq hs _

/-- **The form that is written for contents is read if all their numbers are finite**, and validated
then. -/
theorem ofJson_toJson {c : Contents} (hwords : c.CountsInWords)
    (hback : ∀ x ∈ c.numbers, x.isFinite = true → ReadsBack x) :
    ((∀ x ∈ c.numbers, x.isFinite = true) →
      JsonForm.ofJson (JsonForm.toJson c) = (do orRefuse c.validate; return c)) ∧
    (¬ (∀ x ∈ c.numbers, x.isFinite = true) →
      (JsonForm.ofJson (JsonForm.toJson c) : Except ReadError Contents) = .error .malformed) := by
  simp only [numbers, List.forall_mem_append] at hback ⊢
  obtain ⟨hheader, hwing, hcwing, hresponse⟩ := hback
  exact ofJson_eq (carries_ofFields (by simp)) rfl (Dimensions.ofJson_toJson hwords.fieldCount)
    (header_readsIf hheader) (ComplexMatrix.readsIf hwords.wing hwing)
    (ComplexMatrix.readsIf hwords.cwing hcwing) (ComplexMatrix.readsIf hwords.response hresponse)

/-! ## Texts -/

/-- The texts that are written for contents. -/
def Writes (c : Contents) (written : String) : Prop :=
  written = compact (JsonForm.toJson c) ∨ written = pretty (JsonForm.toJson c)

/-- **Contents are read back from what is written for them exactly if all their numbers are finite
and all their matrices fit.**  If a matrix does not fit, reading is refused for the first one; if a
number is not finite, what is written for it is not the form of any number, and that comes first. -/
theorem read_written {c : Contents} (hwords : c.CountsInWords)
    (hback : ∀ x ∈ c.numbers, x.isFinite = true → ReadsBack x) {written : String}
    (hwritten : c.Writes written) :
    (Json.read Contents written = .ok c ↔
      (∀ x ∈ c.numbers, x.isFinite = true) ∧ c.validate = .ok ()) ∧
    ((∀ x ∈ c.numbers, x.isFinite = true) → ∀ cause, c.validate = .error cause →
      Json.read Contents written = .error (.refused cause) ∧ c.WrongShape cause) ∧
    ((∃ x ∈ c.numbers, x.isFinite = false) →
      Json.read Contents written = .error .malformed) := by
  have hparse : parse written = some (JsonForm.toJson c) := by
    rcases hwritten with rfl | rfl
    · exact parse_compact (wellFormed_toJson hback)
    · exact parse_pretty (wellFormed_toJson hback)
  have hread : Json.read Contents written = JsonForm.ofJson (JsonForm.toJson c) := by
    rw [Json.read, hparse]
  obtain ⟨hfinite, hnot⟩ := ofJson_toJson hwords hback
  rw [hread]
  refine ⟨?_, fun hall cause hcause => ?_, fun hsome => hnot ?_⟩
  · by_cases hall : ∀ x ∈ c.numbers, x.isFinite = true
    · rw [hfinite hall]
      cases hvalid : c.validate with
      | ok => simpa [orRefuse] using hall
      | error cause => simp [orRefuse]
    · rw [hnot hall]
      simp [hall]
  · rw [hfinite hall, hcause]
    exact ⟨rfl, wrongShape_of_validate hcause⟩
  · obtain ⟨x, hx, hxnot⟩ := hsome
    intro hall
    simp [hall x hx] at hxnot

/-- Contents in which the fourth record has no rows and as many columns as a word can count.  Among
their numbers are the negative zero, the least and the largest double, and one of seventeen digits;
their label has characters that are escaped. -/
def illFitting : Contents where
  source := "a\"\n\x07\\"
  dimensions := ⟨1, 2147483647, 2, by decide, by decide, by decide, by decide, by decide⟩
  header := ⟨List.replicate 17 ⟨0x8000000000000000⟩ ++ [⟨0x3fd3333333333334⟩], by decide⟩
  wing := ⟨1, 3, #[⟨⟨1⟩, ⟨0⟩⟩, ⟨⟨0x7fefffffffffffff⟩, ⟨0⟩⟩, ⟨⟨0⟩, ⟨0xbff8000000000000⟩⟩], by decide,
    by decide⟩
  cwing := ⟨0, 18446744073709551615, #[], by decide, by decide⟩
  response := ⟨1, 1, #[⟨⟨0⟩, ⟨0⟩⟩], by decide, by decide⟩

theorem read_written_illFitting :
    illFitting.CountsInWords ∧ (∀ x ∈ illFitting.numbers, x.isFinite = true → ReadsBack x) ∧
      illFitting.Writes (compact (JsonForm.toJson illFitting)) ∧
      Json.read Contents (compact (JsonForm.toJson illFitting)) =
        .error (.refused (.matrixShapeMismatch 4 (1, 3) (0, 18446744073709551615))) := by
  have hwords : illFitting.CountsInWords :=
    ⟨by decide, by decide, by decide, by decide⟩
  have hback : ∀ x ∈ illFitting.numbers, x.isFinite = true → ReadsBack x := by decide +kernel
  have hwritten : illFitting.Writes (compact (JsonForm.toJson illFitting)) := .inl rfl
  exact ⟨hwords, hback, hwritten,
    ((read_written hwords hback hwritten).2.1 (by decide) _ rfl).1⟩

end Contents

end Screening
