import Screening.Json.Contents
import Screening.Proofs.JsonFields
import Screening.Proofs.JsonNumbers

/-!
# What the forms of contents are read as

The forms that are written for numbers, lists and the parts of contents are read again if all their
numbers are finite.

* `binary64_readsIf`, `items_readsIf`, `complex_readsIf` — numbers, lists and elements.
* `Dimensions.ofJson_eq`, `Dimensions.carries_of_ofJson` — sizes are read from every form that has
  them, and from no other.
* `header_readsIf`, `matrix_readsIf` — the other parts of contents.
-/

set_option autoImplicit false

namespace Screening

namespace Json

variable {α : Type}

/-! ## Numbers, pairs and lists -/

theorem binary64_readsIf {x : Binary64} (hback : x.isFinite = true → ReadsBack x) :
    ReadsIf (x.isFinite = true) x (binary64 (ofBinary64 x)) := by
  refine ⟨fun hfinite => binary64_ofBinary64 (hback hfinite), fun hnot => ?_⟩
  rw [ofBinary64, if_neg hnot]
  rfl

theorem pair_readsIf {P Q : Prop} {ofItem : Json → Except ReadError α} {x y : α} {v w : Json}
    (hx : ReadsIf P x (ofItem v)) (hy : ReadsIf Q y (ofItem w)) :
    ReadsIf (P ∧ Q) (x, y) (pair ofItem (.array [v, w])) := by
  refine ReadsIf.bind hx ((ReadsIf.bind hy (.of_ok ?_)).congr (and_iff_left trivial))
  rfl

/-- The items of an array are read if each of them can be, whatever each of them is read as. -/
theorem items_readsIf_map {xs : List α} {form : α → Json} {ofItem : Json → Except ReadError α}
    {P : α → Prop} {again : α → α} (h : ∀ x ∈ xs, ReadsIf (P x) (again x) (ofItem (form x))) :
    ReadsIf (∀ x ∈ xs, P x) (xs.map again) (items ofItem (.array (xs.map form))) := by
  rw [items]
  induction xs with
  | nil => exact (ReadsIf.of_ok rfl).congr (by simp)
  | cons x xs ih =>
    obtain ⟨hx, hxs⟩ := List.forall_mem_cons.1 h
    rw [List.map_cons, List.map_cons, List.mapM_cons]
    simp only [bind_pure_comp]
    exact (hx.bind ((ih hxs).map (again x :: ·))).congr (by simp)

/-- The items of an array are read back if each of them can be. -/
theorem items_readsIf {xs : List α} {form : α → Json} {ofItem : Json → Except ReadError α}
    {P : α → Prop} (h : ∀ x ∈ xs, ReadsIf (P x) x (ofItem (form x))) :
    ReadsIf (∀ x ∈ xs, P x) xs (items ofItem (.array (xs.map form))) := by
  have hmap : ReadsIf _ (xs.map id) _ := items_readsIf_map h
  rwa [List.map_id] at hmap

theorem complex_readsIf {z : Complex128} (hre : z.re.isFinite = true → ReadsBack z.re)
    (him : z.im.isFinite = true → ReadsBack z.im) :
    ReadsIf (z.re.isFinite = true ∧ z.im.isFinite = true) z
      (JsonForm.ofJson (JsonForm.toJson z)) :=
  (pair_readsIf (binary64_readsIf hre) (binary64_readsIf him)).map
    fun parts => (⟨parts.1, parts.2⟩ : Complex128)

end Json

open Json

/-! ## The parts of contents -/

/-- **Sizes are read from every form that has them**, and checked as sizes. -/
theorem Dimensions.ofJson_eq {form first second third : Json}
    (h : Carries [("ngvector", first), ("ngvector2", second), ("field_count", third)] form)
    {ngvector ngvector2 fieldCount : Nat} (hfirst : nat32 first = .ok ngvector)
    (hsecond : nat32 second = .ok ngvector2) (hthird : nat64 third = .ok fieldCount) :
    Dimensions.ofJson form = orRefuse (Dimensions.ofSizes ngvector ngvector2 fieldCount) := by
  have hfields := fieldValues_readsIf [.of "ngvector" (.of_ok hfirst),
    .of "ngvector2" (.of_ok hsecond), .of "field_count" (.of_ok hthird)]
    (by simp [Entry.of, field]) h
  show (fieldValues Dimensions.jsonFields form >>= _) = _
  rw [show fieldValues Dimensions.jsonFields form = .ok [first, second, third] from
    hfields.1 (by simp [Entry.of])]
  show (nat32 first >>= _) = _
  rw [hfirst]
  show (nat32 second >>= _) = _
  rw [hsecond]
  show (nat64 third >>= _) = _
  rw [hthird]
  rfl

theorem Dimensions.ofSizes_eq_ok {ngvector ngvector2 fieldCount : Nat} {d : Dimensions}
    (h : Dimensions.ofSizes ngvector ngvector2 fieldCount = .ok d) :
    d.ngvector = ngvector ∧ d.ngvector2 = ngvector2 ∧ d.fieldCount = fieldCount := by
  rw [Dimensions.ofSizes] at h
  repeat' split at h
  all_goals cases h
  exact ⟨rfl, rfl, rfl⟩

/-- **Sizes are read of no form that does not have them.** -/
theorem Dimensions.carries_of_ofJson {form : Json} {d : Dimensions}
    (h : Dimensions.ofJson form = .ok d) : ∃ first second third,
      Carries [("ngvector", first), ("ngvector2", second), ("field_count", third)] form ∧
      nat32 first = .ok d.ngvector ∧ nat32 second = .ok d.ngvector2 ∧
      nat64 third = .ok d.fieldCount := by
  obtain ⟨values, hfields, hvalues⟩ := exists_of_bind_eq_ok h
  have hcarries := carries_of_fieldValues (by simp [Dimensions.jsonFields, field])
    (by simp [Dimensions.jsonFields, field]) hfields
  split at hvalues
  · rename_i first second third
    obtain ⟨ngvector, hfirst, hvalues⟩ := exists_of_bind_eq_ok hvalues
    obtain ⟨ngvector2, hsecond, hvalues⟩ := exists_of_bind_eq_ok hvalues
    obtain ⟨fieldCount, hthird, hvalues⟩ := exists_of_bind_eq_ok hvalues
    obtain ⟨rfl, rfl, rfl⟩ := Dimensions.ofSizes_eq_ok (orRefuse_eq_ok_iff.1 hvalues)
    exact ⟨first, second, third, hcarries, hfirst, hsecond, hthird⟩
  · cases hvalues

/-- The sizes of dimensions are admitted. -/
theorem Dimensions.ofSizes_self (d : Dimensions) :
    Dimensions.ofSizes d.ngvector d.ngvector2 d.fieldCount = .ok d := by
  rw [Dimensions.ofSizes, dif_pos ⟨d.ngvector_le, d.ngvector2_le⟩,
    dif_pos ⟨d.ngvector_pos, d.ngvector2_pos⟩, dif_pos d.minFields_le]

/-- The sizes that are written for dimensions are read back. -/
theorem Dimensions.ofJson_toJson {d : Dimensions} (h : d.fieldCount < wordLimit) :
    Dimensions.ofJson (JsonForm.toJson d) = .ok d := by
  have hword {n : Nat} (hn : n ≤ maxSize) : nat32 (ofNat n) = .ok n :=
    natBelow_ofNat (Nat.lt_of_le_of_lt hn (by decide))
  refine (Dimensions.ofJson_eq (carries_ofFields (by simp)) (hword d.ngvector_le)
    (hword d.ngvector2_le) (natBelow_ofNat h)).trans ?_
  rw [Dimensions.ofSizes_self]
  rfl

theorem Header.ofValues_values (h : Header) : Header.ofValues h.values = .ok h :=
  dif_pos h.length_eq

theorem headerItems_readsIf {h : Header}
    (hback : ∀ x ∈ h.values, x.isFinite = true → ReadsBack x) :
    ReadsIf (∀ x ∈ h.values, x.isFinite = true) h
      (Header.ofJsonItems (.array (h.values.map ofBinary64))) := by
  refine (ReadsIf.bind (items_readsIf fun x hx => binary64_readsIf (hback x hx))
    (.of_ok ?_)).congr (and_iff_left trivial)
  rw [Header.ofValues_values]
  rfl

theorem header_readsIf {h : Header} (hback : ∀ x ∈ h.values, x.isFinite = true → ReadsBack x) :
    ReadsIf (∀ x ∈ h.values, x.isFinite = true) h (Header.ofJson (JsonForm.toJson h)) := by
  have hitems := headerItems_readsIf hback
  have hfields := fieldValues_readsIf [.of "values" hitems] (by simp) (carries_ofFields (by simp))
  exact (ReadsIf.bind hfields hitems).congr (by simp [Entry.of])

theorem Matrix.checked_toList {α : Type} (m : Matrix α) :
    Matrix.checked m.toList.toArray m.nrows m.ncols = .ok m := by
  simp [Matrix.checked, Matrix.toList, m.size_lt, m.size_eq]

/-- **A matrix is read from every form that has its extents and its elements**, and checked as a
matrix. -/
theorem Matrix.ofJson_readsIf {α : Type} [JsonForm α] {form first second third : Json}
    (h : Carries [("nrows", first), ("ncols", second), ("data", third)] form) {nrows ncols : Nat}
    (hfirst : nat64 first = .ok nrows) (hsecond : nat64 second = .ok ncols) {P : Prop}
    {xs : List α} (hthird : ReadsIf P xs (items JsonForm.ofJson third)) {m : Matrix α}
    (hm : Matrix.checked xs.toArray nrows ncols = .ok m) :
    ReadsIf P m (JsonForm.ofJson form) := by
  have hfields := fieldValues_readsIf [.of "nrows" (.of_ok hfirst), .of "ncols" (.of_ok hsecond),
    .of "data" hthird] (by simp [Entry.of, field]) h
  refine (ReadsIf.bind hfields (ReadsIf.bind hthird (ReadsIf.bind (.of_ok hfirst)
    (ReadsIf.bind (.of_ok hsecond) (.of_ok ?_))))).congr (by simp [Entry.of])
  rw [hm]
  rfl

theorem matrix_readsIf {α : Type} [JsonForm α] {m : Matrix α} {P : α → Prop}
    (hrows : m.nrows < wordLimit) (hcols : m.ncols < wordLimit)
    (h : ∀ x ∈ m.toList, ReadsIf (P x) x (JsonForm.ofJson (JsonForm.toJson x))) :
    ReadsIf (∀ x ∈ m.toList, P x) m (JsonForm.ofJson (JsonForm.toJson m)) :=
  Matrix.ofJson_readsIf (carries_ofFields (by simp)) (natBelow_ofNat hrows) (natBelow_ofNat hcols)
    (items_readsIf h) m.checked_toList

end Screening
