import Screening.Proofs.MatrixAccess
import Screening.Proofs.NumberOrder

/-!
# What statistics see

Statistics are those of the finite values and of nothing else.  Least and greatest value come out of
folds that start at the infinities; what a fold of choices gives is one of the values it went over
and no other one comes before it.  The real and the imaginary parts of a matrix are two lists, and
nothing in one of them has a say in what is kept of the other.

* `Picks`, `Picks.foldl_mem`, `Picks.foldl_le` — choices, and what comes out of a fold of them.
* `PartStatistics.Describes` — statistics describe the finite values of a list.
* `Padded` — values that are not finite, put in wherever one likes.
* `PartStatistics.SameRange` — statistics agree in what does not depend on an order.
* `MatrixStatistics.Apart` — both parts of a matrix are looked at apart.
* `finite_values_counted` — all of it.
-/

set_option autoImplicit false

namespace Screening

/-! ## Choices -/

/-- Of two numbers the one is picked that comes first by a key. -/
structure Picks (pick : Binary64 → Binary64 → Binary64) (key : Binary64 → Int) : Prop where
  /-- It is one of the two. -/
  either : ∀ x y, pick x y = x ∨ pick x y = y
  /-- The first one does not come before it. -/
  first : ∀ x y, key (pick x y) ≤ key x
  /-- Nor does the second one. -/
  second : ∀ x y, key (pick x y) ≤ key y

namespace Picks

variable {pick : Binary64 → Binary64 → Binary64} {key : Binary64 → Int}

theorem foldl_mem (h : Picks pick key) (start : Binary64) (values : List Binary64) :
    values.foldl pick start = start ∨ values.foldl pick start ∈ values := by
  induction values generalizing start with
  | nil => exact .inl rfl
  | cons v values ih =>
    rw [List.foldl_cons]
    rcases ih (pick start v) with hstart | hmem
    · rcases h.either start v with hpick | hpick
      · exact .inl (hstart.trans hpick)
      · exact .inr (by rw [hstart, hpick]; exact List.mem_cons_self)
    · exact .inr (List.mem_cons_of_mem v hmem)

theorem foldl_le_start (h : Picks pick key) (start : Binary64) (values : List Binary64) :
    key (values.foldl pick start) ≤ key start := by
  induction values generalizing start with
  | nil => exact le_rfl
  | cons v values ih => exact (ih (pick start v)).trans (h.first start v)

/-- **Nothing that a fold went over comes before what it gives.** -/
theorem foldl_le (h : Picks pick key) (start : Binary64) {values : List Binary64} {v : Binary64}
    (hv : v ∈ values) : key (values.foldl pick start) ≤ key v := by
  induction values generalizing start with
  | nil => cases hv
  | cons w values ih =>
    rcases List.mem_cons.1 hv with rfl | hv
    · exact (h.foldl_le_start (pick start v) values).trans (h.second start v)
    · exact ih (pick start w) hv

/-- A fold over values that all come before its start gives one of them. -/
theorem foldl_mem_of_lt (h : Picks pick key) {start : Binary64} {values : List Binary64}
    (hne : values ≠ []) (hlt : ∀ v ∈ values, key v < key start) :
    values.foldl pick start ∈ values := by
  obtain ⟨v, hv⟩ := List.exists_mem_of_ne_nil values hne
  refine (h.foldl_mem start values).resolve_left fun hstart => ?_
  have hle := h.foldl_le start hv
  rw [hstart] at hle
  exact absurd (hlt v hv) (Int.not_lt.2 hle)

end Picks

namespace Binary64

theorem picks_min : Picks Binary64.min rank where
  either x y := by rw [Binary64.min]; split <;> simp
  first x y := by rw [Binary64.min]; split <;> omega
  second x y := by rw [Binary64.min]; split <;> omega

theorem picks_max : Picks Binary64.max fun x => -x.rank where
  either x y := by rw [Binary64.max]; split <;> simp
  first x y := by rw [Binary64.max]; split <;> omega
  second x y := by rw [Binary64.max]; split <;> omega

/-- The finite numbers lie between the infinities. -/
theorem rank_bounds {x : Binary64} (h : x.isFinite = true) :
    negInfinity.rank < x.rank ∧ x.rank < infinity.rank := by
  have hfinite : x.biasedExponent ≠ 2047 := by simpa [isFinite] using h
  have hle := x.biasedExponent_le
  have hfraction := x.fraction_lt
  have hbits := x.unsignedBits_eq
  have hlow : negInfinity.rank = -0x7ff0000000000000 := by decide
  have hhigh : infinity.rank = 0x7ff0000000000000 := by decide
  rw [exponentWeight] at hfraction hbits
  rw [hlow, hhigh, rank]
  split <;> omega

end Binary64

/-! ## Values of one part -/

namespace PartStatistics

/-- The statistics describe the finite values of a list: how many there are, and the least and the
greatest of them, which are among them up to the sign of a zero. -/
structure Describes (values : List Binary64) (s : PartStatistics) : Prop where
  /-- The finite values are counted. -/
  count : s.count = (values.filter Binary64.isFinite).length
  /-- The least value is finite. -/
  min_finite : s.min.isFinite = true
  /-- So is the greatest one. -/
  max_finite : s.max.isFinite = true
  /-- The least value is there. -/
  min_attained : ∃ v ∈ values, v.sameNumber s.min = true
  /-- So is the greatest one. -/
  max_attained : ∃ v ∈ values, v.sameNumber s.max = true
  /-- Every finite value lies between the two. -/
  bounds : ∀ v ∈ values, v.isFinite = true → s.min.value ≤ v.value ∧ v.value ≤ s.max.value

variable {values others : List Binary64}

theorem ofValues_of_filter_ne_nil (h : values.filter Binary64.isFinite ≠ []) :
    ofValues values = some (ofFinite (values.filter Binary64.isFinite)) := by
  simp [ofValues, h]

/-- Values that are all finite, of which there are some. -/
structure AllFinite (finite : List Binary64) : Prop where
  nonempty : finite ≠ []
  isFinite : ∀ v ∈ finite, v.isFinite = true

theorem allFinite_filter (h : values.filter Binary64.isFinite ≠ []) :
    AllFinite (values.filter Binary64.isFinite) where
  nonempty := h
  isFinite _ hv := (List.mem_filter.1 hv).2

namespace AllFinite

variable {finite : List Binary64} (h : AllFinite finite)

include h in
theorem min_mem : (ofFinite finite).min ∈ finite :=
  Binary64.picks_min.foldl_mem_of_lt h.nonempty
    fun v hv => (Binary64.rank_bounds (h.isFinite v hv)).2

include h in
theorem max_mem : (ofFinite finite).max ∈ finite :=
  Binary64.picks_max.foldl_mem_of_lt h.nonempty
    fun v hv => Int.neg_lt_neg (Binary64.rank_bounds (h.isFinite v hv)).1

end AllFinite

theorem min_rank_le {finite : List Binary64} {v : Binary64} (hv : v ∈ finite) :
    (ofFinite finite).min.rank ≤ v.rank :=
  Binary64.picks_min.foldl_le _ hv

theorem rank_le_max {finite : List Binary64} {v : Binary64} (hv : v ∈ finite) :
    v.rank ≤ (ofFinite finite).max.rank :=
  Int.neg_le_neg_iff.1 (Binary64.picks_max.foldl_le _ hv)

theorem describes_ofFinite (h : values.filter Binary64.isFinite ≠ []) :
    Describes values (ofFinite (values.filter Binary64.isFinite)) := by
  have hall := allFinite_filter h
  have hattained {v : Binary64} (hv : v ∈ values.filter Binary64.isFinite) :
      ∃ w ∈ values, w.sameNumber v = true := by
    refine ⟨v, List.mem_of_mem_filter hv, ?_⟩
    rw [Binary64.sameNumber_self, Binary64.isNaN_eq_false_of_isFinite (hall.isFinite v hv)]
    rfl
  refine ⟨rfl, hall.isFinite _ hall.min_mem, hall.isFinite _ hall.max_mem,
    hattained hall.min_mem, hattained hall.max_mem, fun v hv hfinite => ?_⟩
  have hmem : v ∈ values.filter Binary64.isFinite := List.mem_filter.2 ⟨hv, hfinite⟩
  rw [Binary64.value_le_value_iff, Binary64.value_le_value_iff]
  exact ⟨min_rank_le hmem, rank_le_max hmem⟩

/-- **Statistics describe the finite values.** -/
theorem describes_of_ofValues {s : PartStatistics} (h : ofValues values = some s) :
    Describes values s := by
  have hne : values.filter Binary64.isFinite ≠ [] := by
    intro hnil
    simp [ofValues, hnil] at h
  rw [ofValues_of_filter_ne_nil hne] at h
  cases h
  exact describes_ofFinite hne

/-! ## What makes no difference -/

/-- The second list is the first one with values put in that are not finite, wherever one likes. -/
inductive Padded : List Binary64 → List Binary64 → Prop
  /-- Nothing is put into nothing. -/
  | nil : Padded [] []
  /-- A value stays. -/
  | keep {values padded : List Binary64} (v : Binary64) (rest : Padded values padded) :
    Padded (v :: values) (v :: padded)
  /-- An infinity or a NaN is put in. -/
  | insert {values padded : List Binary64} (v : Binary64) (notFinite : v.isFinite = false)
    (rest : Padded values padded) : Padded values (v :: padded)

theorem Padded.filter_eq (h : Padded values others) :
    others.filter Binary64.isFinite = values.filter Binary64.isFinite := by
  induction h with
  | nil => rfl
  | keep v _ ih => rw [List.filter_cons, List.filter_cons, ih]
  | insert v notFinite _ ih => rw [List.filter_cons, notFinite, if_neg Bool.false_ne_true, ih]

theorem Padded.ofValues_eq (h : Padded values others) : ofValues others = ofValues values := by
  rw [← ofValues_filter others, h.filter_eq, ofValues_filter]

/-- The statistics agree in what does not depend on an order, up to the sign of a zero. -/
structure SameRange (s t : PartStatistics) : Prop where
  count : s.count = t.count
  min : s.min.sameNumber t.min = true
  max : s.max.sameNumber t.max = true

theorem sameRange_ofFinite {finite permuted : List Binary64} (h : AllFinite finite)
    (hperm : finite.Perm permuted) : SameRange (ofFinite finite) (ofFinite permuted) := by
  have hother : AllFinite permuted :=
    ⟨fun hnil => h.nonempty (hnil ▸ hperm).eq_nil, fun v hv => h.isFinite v (hperm.mem_iff.2 hv)⟩
  have hsame {v w : Binary64} (hv : v ∈ finite) (hw : w ∈ permuted) (hrank : v.rank = w.rank) :
      v.sameNumber w = true :=
    (Binary64.sameNumber_iff (Binary64.isNaN_eq_false_of_isFinite (h.isFinite v hv))
      (Binary64.isNaN_eq_false_of_isFinite (hother.isFinite w hw))).2 hrank
  -- either least value is one of the other list, so neither comes before the other
  refine ⟨hperm.length_eq, hsame h.min_mem hother.min_mem ?_, hsame h.max_mem hother.max_mem ?_⟩
  · exact Int.le_antisymm (min_rank_le (hperm.mem_iff.2 hother.min_mem))
      (min_rank_le (hperm.mem_iff.1 h.min_mem))
  · exact Int.le_antisymm (rank_le_max (hperm.mem_iff.1 h.max_mem))
      (rank_le_max (hperm.mem_iff.2 hother.max_mem))

/-- **The order of the values has no say in count and range.** -/
theorem rel_sameRange_of_perm (h : values.Perm others) :
    Option.Rel SameRange (ofValues values) (ofValues others) := by
  have hperm := h.filter Binary64.isFinite
  by_cases hnil : values.filter Binary64.isFinite = []
  · have hother : others.filter Binary64.isFinite = [] := (hnil ▸ hperm).symm.eq_nil
    rw [← ofValues_filter values, ← ofValues_filter others, hnil, hother]
    exact .none
  · have hother : others.filter Binary64.isFinite ≠ [] := fun h => hnil (h ▸ hperm).eq_nil
    rw [ofValues_of_filter_ne_nil hnil, ofValues_of_filter_ne_nil hother]
    exact .some (sameRange_ofFinite (allFinite_filter hnil) hperm)

end PartStatistics

/-! ## Both parts of a matrix -/

namespace MatrixStatistics

/-- The statistics of a matrix are those of two lists: one holds the real part of every element, the
other one the imaginary part of every element, each at the place of the element. -/
structure Apart (m : ComplexMatrix) (reals imags : List Binary64) : Prop where
  /-- There is a real part for each row and column. -/
  real_length : reals.length = m.nrows * m.ncols
  /-- There is an imaginary part for each row and column. -/
  imag_length : imags.length = m.nrows * m.ncols
  /-- They are the parts of the elements. -/
  element : ∀ row < m.nrows, ∀ col < m.ncols, ∃ z, m.get? row col = some z ∧
    reals[flatIndex row col m.nrows]? = some z.re ∧ imags[flatIndex row col m.nrows]? = some z.im
  /-- Each list has the statistics of its own. -/
  ofMatrix_eq : ofMatrix m = ⟨PartStatistics.ofValues reals, PartStatistics.ofValues imags⟩

theorem apart (m : ComplexMatrix) :
    Apart m (m.toList.map Complex128.re) (m.toList.map Complex128.im) where
  real_length := by rw [List.length_map, m.length_toList]
  imag_length := by rw [List.length_map, m.length_toList]
  element row hrow col hcol := by
    obtain ⟨hindex, hget⟩ := m.exists_get? hrow hcol
    refine ⟨_, hget, ?_, ?_⟩ <;>
      rw [List.getElem?_map, Matrix.toList, Array.getElem?_toList,
        Array.getElem?_eq_getElem hindex, Option.map_some]
  ofMatrix_eq := rfl

/-- What is taken from every element is the same for matrices that agree in it. -/
theorem map_toList_eq {m n : ComplexMatrix} {part : Complex128 → Binary64}
    (hshape : n.shape = m.shape)
    (hpart : ∀ row col, (n.get? row col).map part = (m.get? row col).map part) :
    n.toList.map part = m.toList.map part := by
  obtain ⟨hrows, hcols⟩ := Prod.mk.inj hshape
  have hlength : n.data.size = m.data.size := by rw [n.size_eq, m.size_eq, hrows, hcols]
  refine List.ext_getElem? fun index => ?_
  rw [List.getElem?_map, List.getElem?_map, Matrix.toList, Matrix.toList, Array.getElem?_toList,
    Array.getElem?_toList]
  by_cases hindex : index < m.data.size
  · rw [n.getElem?_data (hlength ▸ hindex), m.getElem?_data hindex, hrows]
    exact hpart _ _
  · rw [Array.getElem?_eq_none (by omega), Array.getElem?_eq_none (by omega)]

end MatrixStatistics

open PartStatistics MatrixStatistics in
/-- **Statistics see exactly the finite values.**  There are none exactly if no value is finite;
otherwise they count the finite values and give the range of those.  Values that are not finite may
be put in anywhere without any change, and another order of the values changes neither count nor
range.  Of a matrix the real parts and the imaginary parts of all its elements are looked at apart:
what one part holds is without effect on the statistics of the other one. -/
theorem finite_values_counted (values : List Binary64) (m : ComplexMatrix) :
    (ofValues values = none ↔ ∀ v ∈ values, v.isFinite = false) ∧
    (∀ s, ofValues values = some s → Describes values s) ∧
    (∀ padded, Padded values padded → ofValues padded = ofValues values) ∧
    (∀ permuted, values.Perm permuted →
      Option.Rel SameRange (ofValues values) (ofValues permuted)) ∧
    (∃ reals imags, Apart m reals imags) ∧
    (∀ n : ComplexMatrix, n.shape = m.shape →
      ((∀ row col, (n.get? row col).map Complex128.re = (m.get? row col).map Complex128.re) →
        (ofMatrix n).real = (ofMatrix m).real) ∧
      ((∀ row col, (n.get? row col).map Complex128.im = (m.get? row col).map Complex128.im) →
        (ofMatrix n).imag = (ofMatrix m).imag)) :=
  ⟨ofValues_eq_none_iff values, fun _ => describes_of_ofValues, fun _ => Padded.ofValues_eq,
    fun _ => rel_sameRange_of_perm, ⟨_, _, apart m⟩, fun _ hshape =>
      ⟨fun hpart => congrArg ofValues (map_toList_eq hshape hpart),
        fun hpart => congrArg ofValues (map_toList_eq hshape hpart)⟩⟩

/-- One and two, a NaN between them and an infinity behind; and a matrix whose one element has a NaN
for its imaginary part, beside the one with an infinity there. -/
theorem finite_values_counted_mixed :
    let one : Binary64 := ⟨0x3ff0000000000000⟩
    let two : Binary64 := ⟨0x4000000000000000⟩
    let nan : Binary64 := ⟨0x7ff8000000000000⟩
    let s : PartStatistics := ⟨2, ⟨0x3ff8000000000000⟩, ⟨0x3fe0000000000000⟩, one, two⟩
    let m : ComplexMatrix := ⟨1, 1, #[⟨one, nan⟩], rfl, by decide⟩
    let n : ComplexMatrix := ⟨1, 1, #[⟨one, Binary64.infinity⟩], rfl, by decide⟩
    PartStatistics.Describes [one, two] s ∧
    PartStatistics.ofValues [one, nan, two, Binary64.infinity] = some s ∧
    PartStatistics.ofValues [nan, Binary64.infinity] = none ∧
    (MatrixStatistics.ofMatrix n).real = (MatrixStatistics.ofMatrix m).real := by
  intro one two nan s m n
  have hs : PartStatistics.ofValues [one, two] = some s := by decide +kernel
  have hpadded : PartStatistics.Padded [one, two] [one, nan, two, Binary64.infinity] :=
    .keep _ (.insert _ (by decide) (.keep _ (.insert _ (by decide) .nil)))
  obtain ⟨-, hdescribes, hpads, -, -, happart⟩ := finite_values_counted [one, two] m
  refine ⟨hdescribes s hs, (hpads _ hpadded).trans hs,
    (finite_values_counted [nan, Binary64.infinity] m).1.2 (by decide), (happart n rfl).1 ?_⟩
  intro row col
  by_cases h : row < 1 ∧ col < 1
  · obtain ⟨rfl, rfl⟩ : row = 0 ∧ col = 0 := by omega
    rfl
  · rw [n.get?_eq_none h, m.get?_eq_none h]

end Screening
