import Screening.Proofs.BoundedStatistics
import Screening.Proofs.FiniteStatistics
import Screening.Proofs.JsonRoundTrip
import Screening.Proofs.SummaryReading

/-!
# Summaries of finite contents

Where all values are finite, so are the header and the range of every part.  Means and deviations
are formed from sums, though, and these may leave the range.  Then what is written for the summary
is not read again; otherwise it is, and nothing is lost but digits of its numbers.

* `Summary.exists_values` — where the statistics of a summary come from.
* `Summary.SumsInRange` — no mean and no deviation left the range.
* `Summary.Alike` — summaries agree in all but the values of their numbers.
* `Summary.read_ofContents` — the summary of finite contents is read exactly if no sum left the
  range.
-/

set_option autoImplicit false

namespace Screening

open Json

/-! ## Where statistics come from -/

/-- Statistics of a matrix are those of as many of its numbers as it has elements. -/
theorem MatrixStatistics.exists_values {m : ComplexMatrix} {p : PartStatistics}
    (h : p ∈ (ofMatrix m).parts) : ∃ values : List Binary64,
      PartStatistics.ofValues values = some p ∧ (∀ v ∈ values, v ∈ m.numbers) ∧
        values.length < wordLimit := by
  have hlength (part : Complex128 → Binary64) : (m.toList.map part).length < wordLimit := by
    rw [List.length_map, m.length_toList]
    exact m.size_lt
  rw [parts, List.mem_append, Option.mem_toList, Option.mem_toList] at h
  rcases h with hreal | himag
  · refine ⟨_, hreal, fun v hv => ?_, hlength _⟩
    obtain ⟨z, hz, rfl⟩ := List.mem_map.1 hv
    exact List.mem_flatMap.2 ⟨z, hz, by simp⟩
  · refine ⟨_, himag, fun v hv => ?_, hlength _⟩
    obtain ⟨z, hz, rfl⟩ := List.mem_map.1 hv
    exact List.mem_flatMap.2 ⟨z, hz, by simp⟩

namespace PartStatistics

variable {values : List Binary64} {p : PartStatistics}

theorem count_lt_of_ofValues (h : ofValues values = some p) (hlength : values.length < wordLimit) :
    p.count < wordLimit := by
  rw [count_of_ofValues h]
  exact Nat.lt_of_le_of_lt List.countP_le_length hlength

/-- Least and greatest value are finite. -/
theorem range_finite (h : ofValues values = some p) :
    p.min.isFinite = true ∧ p.max.isFinite = true :=
  ⟨(describes_of_ofValues h).min_finite, (describes_of_ofValues h).max_finite⟩

/-- Mean and deviation are finite where no value is too large. -/
theorem sumsInRange_of_ofValues (h : ofValues values = some p) (hlength : values.length < wordLimit)
    (hle : ∀ v ∈ values, |v.value| ≤ 2 ^ (430 : ℤ)) : p.SumsInRange := by
  have hne : values.filter Binary64.isFinite ≠ [] := by
    intro hnil
    simp [ofValues, hnil] at h
  rw [ofValues_of_filter_ne_nil hne] at h
  cases h
  exact sumsInRange_of_bounded hne (Nat.lt_of_le_of_lt (List.length_filter_le _ _) hlength)
    (fun v hv => (List.mem_filter.1 hv).2) fun v hv => hle v (List.mem_of_mem_filter hv)

theorem numbers_finite_iff (hrange : p.min.isFinite = true ∧ p.max.isFinite = true) :
    (∀ x ∈ p.numbers, x.isFinite = true) ↔ p.SumsInRange := by
  simp only [numbers, List.forall_mem_cons, hrange.1, hrange.2]
  exact ⟨fun h => ⟨h.1, h.2.1⟩, fun h => ⟨h.mean, h.stdDev, trivial, trivial, by simp⟩⟩

end PartStatistics

/-! ## Summaries that agree -/

/-- How many values either part has statistics of, if it has any. -/
def MatrixStatistics.counts (s : MatrixStatistics) : Option Nat × Option Nat :=
  (s.real.map PartStatistics.count, s.imag.map PartStatistics.count)

theorem MatrixStatistics.counts_reread (s : MatrixStatistics) : s.reread.counts = s.counts := by
  have hpart (part : Option PartStatistics) :
      (part.map PartStatistics.reread).map PartStatistics.count =
        part.map PartStatistics.count := by
    rw [Option.map_map]
    rfl
  rw [counts, reread, hpart, hpart, counts]

/-- The numbers of the matrices. -/
def Contents.elementNumbers (c : Contents) : List Binary64 :=
  c.wing.numbers ++ (c.cwing.numbers ++ c.response.numbers)

namespace Summary

/-- Summaries agree in all but the values of their numbers. -/
structure Alike (s t : Summary) : Prop where
  source : t.source = s.source
  kpoint : t.kpoint = s.kpoint
  sizes : t.ngvector = s.ngvector ∧ t.ngvector2 = s.ngvector2
  /-- The headers are of the same length. -/
  header : t.header.length = s.header.length
  wingShape : t.wingShape = s.wingShape
  cwingShape : t.cwingShape = s.cwingShape
  responseShape : t.responseShape = s.responseShape
  /-- The same parts of the wing matrix have statistics, of as many values. -/
  wing : t.wing.counts = s.wing.counts
  /-- The same parts of the conjugate wing matrix have statistics. -/
  cwing : t.cwing.counts = s.cwing.counts
  /-- The same parts of the response matrix have statistics. -/
  response : t.response.counts = s.response.counts

theorem alike_reread (s : Summary) : s.Alike s.reread where
  source := rfl
  kpoint := rfl
  sizes := ⟨rfl, rfl⟩
  header := List.length_map _
  wingShape := rfl
  cwingShape := rfl
  responseShape := rfl
  wing := s.wing.counts_reread
  cwing := s.cwing.counts_reread
  response := s.response.counts_reread

/-! ## Summaries of contents -/

variable {c : Contents} {kpoint : Option Nat}

/-- Every part of a summary has the statistics of some of the numbers of the matrices. -/
theorem exists_values {p : PartStatistics} (h : p ∈ (ofContents c kpoint).parts) :
    ∃ values : List Binary64, PartStatistics.ofValues values = some p ∧
      (∀ v ∈ values, v ∈ c.elementNumbers) ∧ values.length < wordLimit := by
  have hmatrix {m : ComplexMatrix} (hm : p ∈ (MatrixStatistics.ofMatrix m).parts)
      (hnumbers : ∀ x ∈ m.numbers, x ∈ c.elementNumbers) : ∃ values : List Binary64,
        PartStatistics.ofValues values = some p ∧ (∀ v ∈ values, v ∈ c.elementNumbers) ∧
          values.length < wordLimit := by
    obtain ⟨values, hvalues, hmem, hlength⟩ := MatrixStatistics.exists_values hm
    exact ⟨values, hvalues, fun v hv => hnumbers v (hmem v hv), hlength⟩
  simp only [parts, List.mem_append] at h
  rcases h with (hwing | hcwing) | hresponse
  · exact hmatrix hwing fun x hx => by simp [Contents.elementNumbers, hx]
  · exact hmatrix hcwing fun x hx => by simp [Contents.elementNumbers, hx]
  · exact hmatrix hresponse fun x hx => by simp [Contents.elementNumbers, hx]

theorem countsInWords_ofContents (hwords : c.CountsInWords)
    (hkpoint : ∀ k ∈ kpoint, k < UInt32.size) : (ofContents c kpoint).CountsInWords where
  kpoint := hkpoint
  ngvector := Nat.lt_of_le_of_lt c.dimensions.ngvector_le (by decide)
  ngvector2 := Nat.lt_of_le_of_lt c.dimensions.ngvector2_le (by decide)
  wingShape := hwords.wing
  cwingShape := hwords.cwing
  responseShape := hwords.response
  parts p hp := by
    obtain ⟨values, hvalues, -, hlength⟩ := exists_values hp
    exact PartStatistics.count_lt_of_ofValues hvalues hlength

/-- What is taken from the values as it is: the header, and the range of every part. -/
structure ValuesFinite (s : Summary) : Prop where
  possibleFrequency : s.possibleFrequency.isFinite = true
  header : ∀ x ∈ s.header, x.isFinite = true
  range : ∀ p ∈ s.parts, p.min.isFinite = true ∧ p.max.isFinite = true

theorem valuesFinite_ofContents (hfinite : ∀ x ∈ c.header.values, x.isFinite = true) :
    (ofContents c kpoint).ValuesFinite where
  possibleFrequency := hfinite _ (List.head_mem _)
  header := hfinite
  range p hp := by
    obtain ⟨values, hvalues, -, -⟩ := exists_values hp
    exact PartStatistics.range_finite hvalues

/-- No mean and no deviation left the range. -/
def SumsInRange (s : Summary) : Prop := ∀ p ∈ s.parts, p.SumsInRange

theorem numbers_finite_iff {s : Summary} (h : s.ValuesFinite) :
    (∀ x ∈ s.numbers, x.isFinite = true) ↔ s.SumsInRange := by
  have hparts : (∀ p ∈ s.parts, ∀ x ∈ p.numbers, x.isFinite = true) ↔ s.SumsInRange :=
    forall₂_congr fun p hp => PartStatistics.numbers_finite_iff (h.range p hp)
  simp only [numbers, List.cons_append, List.forall_mem_cons, List.forall_mem_append,
    List.forall_mem_flatMap, hparts]
  exact ⟨fun hall => hall.2.2, fun hall => ⟨h.possibleFrequency, h.header, hall⟩⟩

/-- **The summary of finite contents is read exactly if no sum left the range.**  The header and the
range of every part are finite in any case.  If no mean and no deviation left the range, what is
written holds nothing but finite numbers, and a summary is read that agrees in all but their values;
otherwise a number is written that is not one, and what is written is malformed.  As long as no
value of a matrix is above `2 ^ 430`, no sum leaves the range, however many values there are. -/
theorem read_ofContents (hwords : c.CountsInWords) (hkpoint : ∀ k ∈ kpoint, k < UInt32.size)
    (hfinite : ∀ x ∈ c.numbers, x.isFinite = true) {written : String}
    (hwritten : (ofContents c kpoint).Writes written) :
    (ofContents c kpoint).ValuesFinite ∧
    ((ofContents c kpoint).SumsInRange →
      (∀ x ∈ (ofContents c kpoint).numbers, x.isFinite = true) ∧
        ∃ s, Json.read Summary written = .ok s ∧ (ofContents c kpoint).Alike s) ∧
    (¬ (ofContents c kpoint).SumsInRange → Json.read Summary written = .error .malformed) ∧
    ((∀ x ∈ c.elementNumbers, |x.value| ≤ 2 ^ (430 : ℤ)) → (ofContents c kpoint).SumsInRange) := by
  have hvalues : (ofContents c kpoint).ValuesFinite :=
    valuesFinite_ofContents fun x hx => hfinite x (List.mem_append_left _ hx)
  have hnumbers := numbers_finite_iff hvalues
  obtain ⟨hread, hmalformed⟩ := read_reread (countsInWords_ofContents hwords hkpoint) hwritten
  refine ⟨hvalues, fun hsums => ?_, fun hnot => ?_, fun hle p hp => ?_⟩
  · exact ⟨hnumbers.2 hsums, _, hread (hnumbers.2 hsums), alike_reread _⟩
  · exact hmalformed (mt hnumbers.1 hnot)
  · obtain ⟨values, hpart, hmem, hlength⟩ := exists_values hp
    exact PartStatistics.sumsInRange_of_ofValues hpart hlength fun v hv => hle v (hmem v hv)

/-! ## Contents of one G-vector -/

theorem one_le_maxSize : 1 ≤ maxSize := by decide

theorem minFields_le_two : minFields ≤ 2 := by decide

theorem one_lt_wordLimit : 1 < wordLimit := by decide

theorem three_lt_wordLimit : 3 < wordLimit := by decide

theorem length_ones : (List.replicate 18 Binary64.one).length = 18 := by decide

/-- Three times the same element. -/
def threeTimes (z : Complex128) : ComplexMatrix := ⟨1, 3, #[z, z, z], rfl, three_lt_wordLimit⟩

/-- Contents of one G-vector in which every element of the wing matrix is the given number. -/
def wingOf (x : Binary64) : Contents where
  source := "big"
  dimensions := ⟨1, 1, 2, Nat.one_pos, one_le_maxSize, Nat.one_pos, one_le_maxSize,
    minFields_le_two⟩
  header := ⟨List.replicate 18 Binary64.one, length_ones⟩
  wing := threeTimes ⟨x, ⟨0⟩⟩
  cwing := threeTimes ⟨⟨0⟩, ⟨0⟩⟩
  response := ⟨1, 1, #[⟨Binary64.one, ⟨0⟩⟩], rfl, one_lt_wordLimit⟩

theorem countsInWords_wingOf (x : Binary64) : (wingOf x).CountsInWords where
  fieldCount := show 2 < wordLimit by decide
  wing := ⟨one_lt_wordLimit, three_lt_wordLimit⟩
  cwing := ⟨one_lt_wordLimit, three_lt_wordLimit⟩
  response := ⟨one_lt_wordLimit, one_lt_wordLimit⟩

/-- The power of two up to which sums are known to stay in range. -/
def large : Binary64 := ⟨0x5ad0000000000000⟩

theorem abs_value_large : |large.value| = 2 ^ (430 : ℤ) := by
  have hsignificand : (large.significand : ℚ) = 2 ^ (52 : ℤ) := by
    have hweight : large.significand = 0x10000000000000 := by decide
    rw [hweight]
    norm_num
  have hexponent : large.exponent = 378 := by decide
  rw [Binary64.abs_value, hsignificand, hexponent, ← zpow_add₀ (by norm_num)]
  rfl

/-- Three values of `2 ^ 430` have statistics in range, and the summary is read. -/
theorem read_ofContents_large :
    (wingOf large).CountsInWords ∧ (∀ k ∈ some 7, k < UInt32.size) ∧
      (∀ x ∈ (wingOf large).numbers, x.isFinite = true) ∧
      (ofContents (wingOf large) (some 7)).Writes
        (pretty (JsonForm.toJson (ofContents (wingOf large) (some 7)))) ∧
      (∀ x ∈ (wingOf large).elementNumbers, |x.value| ≤ 2 ^ (430 : ℤ)) ∧
      ∃ s, Json.read Summary (pretty (JsonForm.toJson (ofContents (wingOf large) (some 7)))) =
        .ok s ∧ (ofContents (wingOf large) (some 7)).Alike s := by
  have hwords := countsInWords_wingOf large
  have hkpoint : ∀ k ∈ some 7, k < UInt32.size := by decide
  have hfinite : ∀ x ∈ (wingOf large).numbers, x.isFinite = true := by decide
  have hwritten : (ofContents (wingOf large) (some 7)).Writes
      (pretty (JsonForm.toJson (ofContents (wingOf large) (some 7)))) := .inr rfl
  have hle : ∀ x ∈ (wingOf large).elementNumbers, |x.value| ≤ 2 ^ (430 : ℤ) := by
    have hbits : ∀ x ∈ (wingOf large).elementNumbers, x.unsignedBits ≤ large.unsignedBits := by
      decide
    intro x hx
    rw [← abs_value_large, Binary64.abs_value_le_iff]
    exact hbits x hx
  obtain ⟨-, hread, -, hbounded⟩ := read_ofContents hwords hkpoint hfinite hwritten
  exact ⟨hwords, hkpoint, hfinite, hwritten, hle, (hread (hbounded hle)).2⟩

/-- Three times the number nearest to `10 ^ 308` is beyond the range: there is no mean of finite
values, and the summary that is written is not read. -/
theorem read_ofContents_overflowing :
    let huge : Binary64 := ⟨0x7fe1ccf385ebc8a0⟩
    (∀ x ∈ (wingOf huge).numbers, x.isFinite = true) ∧
      (ofContents (wingOf huge) (some 7)).wing.real.map PartStatistics.mean =
        some Binary64.infinity ∧
      Json.read Summary (pretty (JsonForm.toJson (ofContents (wingOf huge) (some 7)))) =
        .error .malformed := by
  intro huge
  have hmean : (ofContents (wingOf huge) (some 7)).wing.real.map PartStatistics.mean =
      some Binary64.infinity := by decide +kernel
  have hsome : ¬ ∀ x ∈ (ofContents (wingOf huge) (some 7)).numbers, x.isFinite = true := by
    decide +kernel
  have hwords := countsInWords_ofContents (countsInWords_wingOf huge)
    (show ∀ k ∈ some 7, k < UInt32.size by decide)
  exact ⟨by decide, hmean, (read_reread hwords (.inr rfl)).2 hsome⟩

end Summary

end Screening
