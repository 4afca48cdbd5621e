import Screening.Json.Summary
import Screening.Proofs.Rereading

/-!
# Summaries that are written and read

A summary is written with the statistics that were found, and statistics need not be finite even
where all values are: sums may leave the range.  What is not finite is written as null, and a
summary with a null among its numbers is not read.

* `Summary.numbers` — the numbers that are written, and `Summary.reread` — what they are read as.
* `Summary.CountsInWords` — all counts are those of machine words.
* `PartStatistics.readsIf`, `MatrixStatistics.readsIf`, `Summary.readsIf` — what is written is read
  exactly if all of its numbers are finite.
* `Summary.read_reread` — the same of whole texts.
-/

set_option autoImplicit false

namespace Screening

open Json

namespace Json

variable {α : Type}

/-! ## Values that may be absent -/

/-- A value that may be absent is read, if it is there, as the value itself would be. -/
theorem option_readsIf {form : α → Json} {ofValue : Json → Except ReadError α} {P : α → Prop}
    {again : α → α} {x? : Option α} (hnull : ∀ x, form x ≠ .null)
    (h : ∀ x ∈ x?, ReadsIf (P x) (again x) (ofValue (form x))) :
    ReadsIf (∀ x ∈ x?, P x) (x?.map again) (option ofValue (ofOption form x?)) := by
  cases x? with
  | none => exact (ReadsIf.of_ok rfl).congr (by simp)
  | some x =>
    have hoption : option ofValue (form x) = some <$> ofValue (form x) := by
      rw [option]
      exact fun hno => absurd hno (hnull x)
    rw [ofOption, hoption]
    exact ((h x rfl).map some).congr (by simp)

/-- The entry of a value that is read for a field which may be left out. -/
def Entry.ofOptional {P : Prop} {x : Option α} {ofValue : Json → Except ReadError α} {v : Json}
    (name : String) (h : ReadsIf P x (option ofValue v)) : Entry :=
  ⟨optionalField name ofValue, v, P, h.map _⟩

end Json

/-! ## Statistics -/

namespace PartStatistics

/-- The numbers that are written. -/
def numbers (s : PartStatistics) : List Binary64 := [s.mean, s.stdDev, s.min, s.max]

/-- The statistics with the numbers that are read. -/
def reread (s : PartStatistics) : PartStatistics :=
  ⟨s.count, Json.reread s.mean, Json.reread s.stdDev, Json.reread s.min, Json.reread s.max⟩

/-- Statistics of a part are read from every form that has their fields, if these are read. -/
theorem ofJson_readsIf {form count mean stdDev min max : Json}
    (h : Carries [("count", count), ("mean", mean), ("std_dev", stdDev), ("min", min),
      ("max", max)] form) {s : PartStatistics} {P Q R S : Prop} (hcount : nat64 count = .ok s.count)
    (hmean : ReadsIf P s.mean (binary64 mean)) (hstdDev : ReadsIf Q s.stdDev (binary64 stdDev))
    (hmin : ReadsIf R s.min (binary64 min)) (hmax : ReadsIf S s.max (binary64 max)) :
    ReadsIf (P ∧ Q ∧ R ∧ S) s (PartStatistics.ofJson form) := by
  have hfields := fieldValues_readsIf [.of "count" (.of_ok hcount), .of "mean" hmean,
    .of "std_dev" hstdDev, .of "min" hmin, .of "max" hmax] (by simp [Entry.of, field]) h
  refine (ReadsIf.bind hfields (ReadsIf.bind (.of_ok hcount) (ReadsIf.bind hmean
    (ReadsIf.bind hstdDev (ReadsIf.bind hmin (ReadsIf.bind hmax (.of_ok ?_))))))).congr
      (by simp [Entry.of])
  rfl

/-- **The statistics of a part are read exactly if they are finite.** -/
theorem readsIf {s : PartStatistics} (hcount : s.count < UInt64.size) :
    ReadsIf (∀ x ∈ s.numbers, x.isFinite = true) s.reread
      (PartStatistics.ofJson (JsonForm.toJson s)) := by
  have hreads := ofJson_readsIf (s := s.reread) (carries_ofFields (by simp)) (natBelow_ofNat hcount)
    (binary64_reread s.mean) (binary64_reread s.stdDev) (binary64_reread s.min)
    (binary64_reread s.max)
  exact hreads.congr (by simp [numbers])

theorem wellFormed_toJson (s : PartStatistics) : (JsonForm.toJson s).WellFormed := by
  refine wellFormed_ofFields ?_
  simp [wellFormed_ofNat, ofBinary64_wellFormed]

end PartStatistics

namespace MatrixStatistics

/-- The statistics of the parts that have any. -/
def parts (s : MatrixStatistics) : List PartStatistics := s.real.toList ++ s.imag.toList

/-- The statistics with the numbers that are read. -/
def reread (s : MatrixStatistics) : MatrixStatistics :=
  ⟨s.real.map PartStatistics.reread, s.imag.map PartStatistics.reread⟩

/-- Statistics of a matrix are read from every form that has both parts, if these are read. -/
theorem ofJson_readsIf {form real imag : Json} (h : Carries [("real", real), ("imag", imag)] form)
    {s : MatrixStatistics} {P Q : Prop}
    (hreal : ReadsIf P s.real (option PartStatistics.ofJson real))
    (himag : ReadsIf Q s.imag (option PartStatistics.ofJson imag)) :
    ReadsIf (P ∧ Q) s (MatrixStatistics.ofJson form) := by
  have hfields := fieldValues_readsIf [.ofOptional "real" hreal, .ofOptional "imag" himag]
    (by simp [Entry.ofOptional, optionalField, field]) h
  refine (ReadsIf.bind hfields (ReadsIf.bind hreal (ReadsIf.bind himag (.of_ok ?_)))).congr
    (by simp [Entry.ofOptional])
  rfl

/-- **The statistics of a matrix are read exactly if those of its parts are.** -/
theorem readsIf {s : MatrixStatistics} (hcount : ∀ p ∈ s.parts, p.count < UInt64.size) :
    ReadsIf (∀ p ∈ s.parts, ∀ x ∈ p.numbers, x.isFinite = true) s.reread
      (MatrixStatistics.ofJson (JsonForm.toJson s)) := by
  have hnull (p : PartStatistics) : JsonForm.toJson p ≠ .null := nofun
  simp only [parts, List.forall_mem_append, Option.mem_toList] at hcount ⊢
  exact ofJson_readsIf (carries_ofFields (by simp))
    (option_readsIf hnull fun p hp => PartStatistics.readsIf (hcount.1 p hp))
    (option_readsIf hnull fun p hp => PartStatistics.readsIf (hcount.2 p hp))

theorem wellFormed_toJson (s : MatrixStatistics) : (JsonForm.toJson s).WellFormed := by
  have hpart (part : Option PartStatistics) : (ofOption JsonForm.toJson part).WellFormed := by
    cases part with
    | none => exact .null
    | some p => exact p.wellFormed_toJson
  refine wellFormed_ofFields ?_
  simp [hpart]

end MatrixStatistics

/-! ## Summaries -/

theorem shape_read {shape : Nat × Nat} (h : shape.1 < wordLimit ∧ shape.2 < wordLimit) :
    pair nat64 (shapeJson shape) = .ok shape :=
  (pair_readsIf (.of_ok (natBelow_ofNat h.1)) (.of_ok (natBelow_ofNat h.2))).1 ⟨trivial, trivial⟩

namespace Summary

/-- The statistics of every part of every matrix that has any. -/
def parts (s : Summary) : List PartStatistics := s.wing.parts ++ s.cwing.parts ++ s.response.parts

/-- The numbers that are written. -/
def numbers (s : Summary) : List Binary64 :=
  s.possibleFrequency :: s.header ++ s.parts.flatMap PartStatistics.numbers

/-- The summary with the numbers that are read. -/
def reread (s : Summary) : Summary :=
  { s with
    possibleFrequency := Json.reread s.possibleFrequency
    header := s.header.map Json.reread
    wing := s.wing.reread
    cwing := s.cwing.reread
    response := s.response.reread }

/-- Every count is one that its field holds. -/
structure CountsInWords (s : Summary) : Prop where
  kpoint : ∀ k ∈ s.kpoint, k < UInt32.size
  ngvector : s.ngvector < UInt32.size
  ngvector2 : s.ngvector2 < UInt32.size
  wingShape : s.wingShape.1 < wordLimit ∧ s.wingShape.2 < wordLimit
  cwingShape : s.cwingShape.1 < wordLimit ∧ s.cwingShape.2 < wordLimit
  responseShape : s.responseShape.1 < wordLimit ∧ s.responseShape.2 < wordLimit
  parts : ∀ p ∈ s.parts, p.count < wordLimit

/-- A summary is read from every form that has its fields, if these are read. -/
theorem ofJson_readsIf {form source kpoint ngvector ngvector2 possibleFrequency header wingShape
      cwingShape responseShape wing cwing response : Json}
    (h : Carries [("source", source), ("kpoint_index", kpoint), ("ngvector", ngvector),
      ("ngvector2", ngvector2), ("possible_frequency", possibleFrequency), ("header", header),
      ("wing_shape", wingShape), ("cwing_shape", cwingShape), ("response_shape", responseShape),
      ("wing_stats", wing), ("cwing_stats", cwing), ("response_stats", response)] form)
    {s : Summary} {P Q R S T : Prop} (hsource : text source = .ok s.source)
    (hkpoint : option nat32 kpoint = .ok s.kpoint) (hngvector : nat32 ngvector = .ok s.ngvector)
    (hngvector2 : nat32 ngvector2 = .ok s.ngvector2)
    (hfrequency : ReadsIf P s.possibleFrequency (binary64 possibleFrequency))
    (hheader : ReadsIf Q s.header (items binary64 header))
    (hwingShape : pair nat64 wingShape = .ok s.wingShape)
    (hcwingShape : pair nat64 cwingShape = .ok s.cwingShape)
    (hresponseShape : pair nat64 responseShape = .ok s.responseShape)
    (hwing : ReadsIf R s.wing (MatrixStatistics.ofJson wing))
    (hcwing : ReadsIf S s.cwing (MatrixStatistics.ofJson cwing))
    (hresponse : ReadsIf T s.response (MatrixStatistics.ofJson response)) :
    ReadsIf (P ∧ Q ∧ R ∧ S ∧ T) s (JsonForm.ofJson form) := by
  have hfields := fieldValues_readsIf [.of "source" (.of_ok hsource),
    .ofOptional "kpoint_index" (.of_ok hkpoint), .of "ngvector" (.of_ok hngvector),
    .of "ngvector2" (.of_ok hngvector2), .of "possible_frequency" hfrequency,
    .of "header" hheader, .of "wing_shape" (.of_ok hwingShape),
    .of "cwing_shape" (.of_ok hcwingShape), .of "response_shape" (.of_ok hresponseShape),
    .of "wing_stats" hwing, .of "cwing_stats" hcwing, .of "response_stats" hresponse]
    (by simp [Entry.of, Entry.ofOptional, optionalField, field]) h
  refine (ReadsIf.bind hfields (ReadsIf.bind (.of_ok hsource) (ReadsIf.bind (.of_ok hkpoint)
    (ReadsIf.bind (.of_ok hngvector) (ReadsIf.bind (.of_ok hngvector2) (ReadsIf.bind hfrequency
      (ReadsIf.bind hheader (ReadsIf.bind (.of_ok hwingShape) (ReadsIf.bind (.of_ok hcwingShape)
        (ReadsIf.bind (.of_ok hresponseShape) (ReadsIf.bind hwing (ReadsIf.bind hcwing
          (ReadsIf.bind hresponse (.of_ok ?_)))))))))))))).congr
            (by simp [Entry.of, Entry.ofOptional])
  rfl

theorem kpoint_read {kpoint : Option Nat} (h : ∀ k ∈ kpoint, k < UInt32.size) :
    option nat32 (ofOption ofNat kpoint) = .ok kpoint := by
  cases kpoint with
  | none => rfl
  | some k =>
    show some <$> nat32 (ofNat k) = _
    rw [nat32, natBelow_ofNat (h k rfl)]
    rfl

/-- **A summary is read exactly if all of its numbers are finite.** -/
theorem readsIf {s : Summary} (hwords : s.CountsInWords) :
    ReadsIf (∀ x ∈ s.numbers, x.isFinite = true) s.reread
      (JsonForm.ofJson (JsonForm.toJson s)) := by
  have hparts := hwords.parts
  simp only [parts, List.forall_mem_append] at hparts
  have hreads := ofJson_readsIf (s := s.reread) (carries_ofFields (by simp))
    (show text (ofText s.source) = .ok s.source from rfl) (kpoint_read hwords.kpoint)
    (natBelow_ofNat hwords.ngvector) (natBelow_ofNat hwords.ngvector2)
    (binary64_reread s.possibleFrequency) (items_readsIf_map fun x _ => binary64_reread x)
    (shape_read hwords.wingShape) (shape_read hwords.cwingShape) (shape_read hwords.responseShape)
    (MatrixStatistics.readsIf hparts.1.1) (MatrixStatistics.readsIf hparts.1.2)
    (MatrixStatistics.readsIf hparts.2)
  refine hreads.congr ?_
  simp only [numbers, parts, List.forall_mem_cons, List.forall_mem_append, List.cons_append,
    List.forall_mem_flatMap]
  tauto

theorem wellFormed_toJson (s : Summary) : (JsonForm.toJson s).WellFormed := by
  have hkpoint : (ofOption ofNat s.kpoint).WellFormed := by
    cases s.kpoint with
    | none => exact .null
    | some k => exact wellFormed_ofNat k
  have hheader : (Json.array (s.header.map ofBinary64)).WellFormed :=
    wellFormed_array_map fun x _ => ofBinary64_wellFormed x
  have hshape (shape : Nat × Nat) : (shapeJson shape).WellFormed :=
    .array (by simp [wellFormed_ofNat])
  refine wellFormed_ofFields ?_
  simp only [List.forall_mem_cons]
  exact ⟨.string _, hkpoint, wellFormed_ofNat _, wellFormed_ofNat _, ofBinary64_wellFormed _,
    hheader, hshape _, hshape _, hshape _, s.wing.wellFormed_toJson, s.cwing.wellFormed_toJson,
    s.response.wellFormed_toJson, by simp⟩

/-- The texts that are written for a summary. -/
def Writes (s : Summary) (written : String) : Prop :=
  written = compact (JsonForm.toJson s) ∨ written = pretty (JsonForm.toJson s)

/-- **What is written for a summary is read exactly if all of its numbers are finite.** -/
theorem read_reread {s : Summary} (hwords : s.CountsInWords) {written : String}
    (hwritten : s.Writes written) :
    ReadsIf (∀ x ∈ s.numbers, x.isFinite = true) s.reread (Json.read Summary written) := by
  have hparse : parse written = some (JsonForm.toJson s) := by
    rcases hwritten with rfl | rfl
    · exact parse_compact s.wellFormed_toJson
    · exact parse_pretty s.wellFormed_toJson
  rw [Json.read, hparse]
  exact readsIf hwords

end Summary

end Screening
