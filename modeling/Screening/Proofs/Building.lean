import Screening.Proofs.JsonForms
import Screening.Proofs.JsonText
import Screening.Proofs.MatrixAccess

/-!
# The ways to build a matrix

A matrix is built of flat storage, by an operation that hands the storage back if it does not fill
the shape or by one that says why it does not, and it is read from a text.  They accept the same
storage for the same extents, and what they build of it is the same matrix.

* `Matrix.Spells written nrows ncols data` — a text is the form of extents and elements.
* `Json.ComesBack x` — an element is read back from its form, as every integer is.
* `Matrix.read_of_spells`, `Matrix.spells_of_read` — a matrix is read by checking what the text
  spells, and from no other text.
* `Matrix.ways_to_build` — how extents and elements are answered.
-/

set_option autoImplicit false

namespace Screening

namespace Json

variable {α : Type}

/-! ## Elements -/

/-- A value is read back from the form that is written for it, and that can be written as a text. -/
def ComesBack [JsonForm α] (x : α) : Prop :=
  (JsonForm.toJson x).WellFormed ∧ JsonForm.ofJson (JsonForm.toJson x) = .ok x

theorem toInt?_ofInt (n : Int) : NumberLiteral.toInt?
    ⟨n < 0, Decimal.digits n.natAbs, none, none⟩ = some n := by
  have hzero : ¬ (n < 0 ∧ n.natAbs = 0) := by omega
  have hvalue : (if n < 0 then -(n.natAbs : Int) else n.natAbs) = n := by
    split <;> omega
  simp only [NumberLiteral.toInt?, NumberLiteral.isWhole, Decimal.natOfDigits_digits,
    Option.isNone_none, Bool.and_self, Bool.not_true, Bool.false_or, Bool.and_eq_true,
    decide_eq_true_eq, beq_iff_eq, if_neg hzero, hvalue]

/-- Every integer comes back. -/
theorem comesBack_int32 (x : Int32) : ComesBack x := by
  refine ⟨.number ⟨Decimal.isDigits_digits _, Decimal.leading_digits _, by simp, by simp⟩, ?_⟩
  show int32 (ofInt x.toInt) = .ok x
  have hrange := And.intro x.minValue_le_toInt x.toInt_le
  simp only [int32, ofInt, toInt?_ofInt, if_pos hrange, Int32.ofInt_toInt]

/-- A double comes back if its text is read back. -/
theorem comesBack_binary64 {x : Binary64} (hback : ReadsBack x) : ComesBack x :=
  ⟨wellFormed_ofBinary64 fun _ => hback, binary64_ofBinary64 hback⟩

/-- A complex number comes back if both of its parts do. -/
theorem comesBack_complex {z : Complex128} (hre : ComesBack z.re) (him : ComesBack z.im) :
    ComesBack z := by
  refine ⟨.array (by simpa using ⟨hre.1, him.1⟩), ?_⟩
  have hpair := pair_readsIf (.of_ok hre.2) (.of_ok him.2)
  exact (hpair.map fun parts => (⟨parts.1, parts.2⟩ : Complex128)).1 ⟨trivial, trivial⟩

/-- An array is read item by item. -/
theorem items_of_forall₂ {ofItem : Json → Except ReadError α} {values : List Json} {data : List α}
    (h : List.Forall₂ (fun item x => ofItem item = .ok x) values data) :
    items ofItem (.array values) = .ok data := by
  rw [items]
  induction h with
  | nil => rfl
  | cons hitem _ ih =>
    rw [List.mapM_cons, hitem, ih]
    rfl

/-- What is read as a list is an array of items that are read one by one. -/
theorem forall₂_of_items {ofItem : Json → Except ReadError α} {v : Json} {data : List α}
    (h : items ofItem v = .ok data) : ∃ values, v = .array values ∧
      List.Forall₂ (fun item x => ofItem item = .ok x) values data := by
  rcases v with _ | _ | _ | _ | values | _
  case array => exact ⟨values, rfl, forall₂_of_mapM h⟩
  all_goals cases h

end Json

namespace Matrix

open Json

variable {α : Type} {nrows ncols : Nat} {data : List α}

/-! ## Flat storage -/

theorem ofColumnMajor_of_filled (hwords : nrows * ncols < wordLimit)
    (hfilled : data.length = nrows * ncols) :
    ofColumnMajor data.toArray nrows ncols =
      .ok ⟨nrows, ncols, data.toArray, hfilled, hwords⟩ :=
  dif_pos ⟨hwords, hfilled⟩

theorem ofColumnMajor_of_not_filled
    (h : ¬ (nrows * ncols < wordLimit ∧ data.length = nrows * ncols)) :
    ofColumnMajor data.toArray nrows ncols = .error data.toArray :=
  dif_neg h

theorem checked_of_filled (hwords : nrows * ncols < wordLimit)
    (hfilled : data.length = nrows * ncols) :
    checked data.toArray nrows ncols =
      .ok ⟨nrows, ncols, data.toArray, hfilled, hwords⟩ := by
  rw [checked, dif_pos hwords]
  exact dif_pos hfilled

theorem checked_of_length_ne (hwords : nrows * ncols < wordLimit)
    (hlength : data.length ≠ nrows * ncols) :
    checked data.toArray nrows ncols = .error (.matrixLengthMismatch nrows ncols data.length) := by
  rw [checked, dif_pos hwords]
  exact dif_neg hlength

theorem checked_of_le (h : wordLimit ≤ nrows * ncols) :
    checked data.toArray nrows ncols = .error .arraySizeOverflow :=
  dif_neg (Nat.not_lt.2 h)

/-! ## Texts -/

section Texts

variable [JsonForm α]

/-- A text is the form of two extents, each of them written as a whole number, and of elements: an
object with these three members in any order and maybe others, or an array of the three. -/
def Spells (written : String) (nrows ncols : Nat) (data : List α) : Prop :=
  ∃ (form : Json) (first second : NumberLiteral) (values : List Json), parse written = some form ∧
    Carries [("nrows", .number first), ("ncols", .number second), ("data", .array values)] form ∧
    first.toInt? = some (nrows : Int) ∧ second.toInt? = some (ncols : Int) ∧
    List.Forall₂ (fun item x => JsonForm.ofJson item = .ok x) values data

/-- Any extents can be spelled, with any elements that come back. -/
theorem exists_spells (nrows ncols : Nat) (hdata : ∀ x ∈ data, ComesBack x) :
    ∃ written, Spells written nrows ncols data := by
  have hform : (Json.ofFields [("nrows", ofNat nrows), ("ncols", ofNat ncols),
      ("data", .array (data.map JsonForm.toJson))]).WellFormed :=
    wellFormed_ofFields (by
      simpa [wellFormed_ofNat] using wellFormed_array_map fun x hx => (hdata x hx).1)
  refine ⟨_, _, _, _, _, parse_compact hform, carries_ofFields (by simp), toInt?_digits _,
    toInt?_digits _, ?_⟩
  exact List.forall₂_map_left_iff.2 (List.forall₂_same.2 fun x hx => (hdata x hx).2)

/-- A matrix is read from every form that has its extents and its elements, and checked as one. -/
theorem ofJson_of_carries {form first second third : Json}
    (h : Carries [("nrows", first), ("ncols", second), ("data", third)] form)
    (hfirst : nat64 first = .ok nrows) (hsecond : nat64 second = .ok ncols)
    (hthird : items JsonForm.ofJson third = .ok data) :
    JsonForm.ofJson form = orRefuse (checked data.toArray nrows ncols) := by
  have hfields := (fieldValues_readsIf [.of "nrows" (.of_ok hfirst),
    .of "ncols" (.of_ok hsecond), .of "data" (.of_ok hthird)] (by simp [Entry.of, field]) h).1
    (by simp [Entry.of])
  refine ((ReadsIf.of_ok hfields).bind_eq trivial _).trans ?_
  refine ((ReadsIf.of_ok hthird).bind_eq trivial _).trans ?_
  refine ((ReadsIf.of_ok hfirst).bind_eq trivial _).trans ?_
  exact (ReadsIf.of_ok hsecond).bind_eq trivial _

/-- **A matrix is read by checking what the text spells.** -/
theorem read_of_spells {written : String} (hrows : nrows < wordLimit) (hcols : ncols < wordLimit)
    (h : Spells written nrows ncols data) :
    Json.read (Matrix α) written = orRefuse (checked data.toArray nrows ncols) := by
  obtain ⟨form, first, second, values, hparse, hcarries, hfirst, hsecond, hvalues⟩ := h
  rw [Json.read, hparse]
  exact ofJson_of_carries hcarries (natBelow_number hfirst hrows) (natBelow_number hsecond hcols)
    (items_of_forall₂ hvalues)

/-- **It is read from no text that does not spell it.** -/
theorem spells_of_read {written : String} {m : Matrix α}
    (h : Json.read (Matrix α) written = .ok m) : Spells written m.nrows m.ncols m.toList := by
  rw [Json.read] at h
  cases hparse : parse written with
  | none =>
    rw [hparse] at h
    cases h
  | some form =>
    rw [hparse] at h
    obtain ⟨values, hfields, hvalues⟩ := exists_of_bind_eq_ok h
    have hcarries := carries_of_fieldValues (by simp [jsonFields, field])
      (by simp [jsonFields, field]) hfields
    split at hvalues
    · obtain ⟨data, hdata, hvalues⟩ := exists_of_bind_eq_ok hvalues
      obtain ⟨nrows, hrows, hvalues⟩ := exists_of_bind_eq_ok hvalues
      obtain ⟨ncols, hcols, hvalues⟩ := exists_of_bind_eq_ok hvalues
      obtain ⟨hm, rfl, rfl⟩ := m.eq_of_built (.inr (orRefuse_eq_ok_iff.1 hvalues))
      obtain ⟨first, rfl, hfirst⟩ := number_of_natBelow hrows
      obtain ⟨second, rfl, hsecond⟩ := number_of_natBelow hcols
      obtain ⟨values, rfl, hitems⟩ := forall₂_of_items hdata
      rw [toList, hm]
      exact ⟨form, first, second, values, hparse, hcarries, hfirst, hsecond, hitems⟩
    · cases hvalues

end Texts

/-! ## All of them -/

/-- Storage fills its extents: it is handed over, checked and read without a fault, each time as the
same matrix. -/
structure Accepted [JsonForm α] (data : List α) (nrows ncols : Nat) (m : Matrix α) : Prop where
  /-- The storage is taken. -/
  ofColumnMajor : ofColumnMajor data.toArray nrows ncols = .ok m
  /-- Nothing is found wrong with it. -/
  checked : checked data.toArray nrows ncols = .ok m
  /-- Every text of it is read. -/
  read : ∀ written, Spells written nrows ncols data → Json.read (Matrix α) written = .ok m
  /-- The matrix has the storage. -/
  storage : m.data = data.toArray ∧ m.toList = data
  /-- It has the shape. -/
  shape : m.shape = (nrows, ncols)
  /-- It has as many elements as places. -/
  size : m.size = nrows * ncols

/-- Storage does not fill its extents: it is handed back, and found wrong in the same way each time
it is looked at. -/
structure Rejected [JsonForm α] (data : List α) (nrows ncols : Nat) (cause : FormatError) :
    Prop where
  /-- The storage is handed back. -/
  ofColumnMajor : ofColumnMajor data.toArray nrows ncols = .error data.toArray
  /-- The cause is found. -/
  checked : checked data.toArray nrows ncols = .error cause
  /-- Every text of it is refused for that. -/
  read : ∀ written, Spells written nrows ncols data →
    Json.read (Matrix α) written = .error (.refused cause)

section

variable [JsonForm α]

theorem accepted_of_filled (hrows : nrows < wordLimit) (hcols : ncols < wordLimit)
    (hwords : nrows * ncols < wordLimit) (hfilled : data.length = nrows * ncols) :
    Accepted data nrows ncols ⟨nrows, ncols, data.toArray, hfilled, hwords⟩ where
  ofColumnMajor := ofColumnMajor_of_filled hwords hfilled
  checked := checked_of_filled hwords hfilled
  read written h := by
    rw [read_of_spells hrows hcols h, checked_of_filled hwords hfilled]
    rfl
  storage := ⟨rfl, rfl⟩
  shape := rfl
  size := hfilled

theorem rejected_of_checked (hrows : nrows < wordLimit) (hcols : ncols < wordLimit)
    (hnot : ¬ (nrows * ncols < wordLimit ∧ data.length = nrows * ncols)) {cause : FormatError}
    (hcause : Matrix.checked data.toArray nrows ncols = .error cause) :
    Rejected data nrows ncols cause where
  ofColumnMajor := ofColumnMajor_of_not_filled hnot
  checked := hcause
  read written h := by
    rw [read_of_spells hrows hcols h, hcause]
    rfl

/-- **The ways to build a matrix accept the same storage.**  Storage is accepted in all of them, and
makes the same matrix, if the product of the extents is within the words and there are as many
elements; a product that is too large and storage of another length are told apart, in this order.
Elements that come back can be written with any extents, so that there is a text to read; and a
matrix that is read is the one that can be built of what the text spells. -/
theorem ways_to_build (data : List α) (nrows ncols : Nat) (hrows : nrows < wordLimit)
    (hcols : ncols < wordLimit) :
    (nrows * ncols < wordLimit → data.length = nrows * ncols →
      ∃ m, Accepted data nrows ncols m) ∧
    (nrows * ncols < wordLimit → data.length ≠ nrows * ncols →
      Rejected data nrows ncols (.matrixLengthMismatch nrows ncols data.length)) ∧
    (wordLimit ≤ nrows * ncols → Rejected data nrows ncols .arraySizeOverflow) ∧
    ((∀ x ∈ data, ComesBack x) → ∃ written, Spells written nrows ncols data) ∧
    ∀ (written : String) (m : Matrix α), Json.read (Matrix α) written = .ok m →
      Spells written m.nrows m.ncols m.toList := by
  refine ⟨fun hwords hfilled => ⟨_, accepted_of_filled hrows hcols hwords hfilled⟩,
    fun hwords hlength => ?_, fun hover => ?_, exists_spells nrows ncols,
    fun written m => spells_of_read⟩
  · exact rejected_of_checked hrows hcols (fun h => hlength h.2)
      (checked_of_length_ne hwords hlength)
  · exact rejected_of_checked hrows hcols (fun h => Nat.not_lt.2 hover h.1) (checked_of_le hover)

end

/-- Two rows of three integers, and a complex number of seventeen digits and a negative zero;
extents whose product is that of no integers if it is cut to a word; and no rows of as many elements
as a word can count. -/
theorem ways_to_build_extents :
    (∃ m, Accepted ([1, -2, 3, 4, 5, -2147483648] : List Int32) 2 3 m) ∧
    (∃ written, Spells written 2 3 ([1, -2, 3, 4, 5, -2147483648] : List Int32)) ∧
    (∃ written, Spells written 1 1
      ([⟨⟨0x3fd3333333333334⟩, ⟨0x8000000000000000⟩⟩] : List Complex128)) ∧
    Rejected ([] : List Int32) 0x8000000000000000 2 .arraySizeOverflow ∧
    (∃ m, Accepted ([] : List Int32) 0 0xffffffffffffffff m) ∧
    Rejected ([7] : List Int32) 0 0xffffffffffffffff
      (.matrixLengthMismatch 0 0xffffffffffffffff 1) := by
  obtain ⟨hfilled, -, -, hintegers, -⟩ :=
    ways_to_build ([1, -2, 3, 4, 5, -2147483648] : List Int32) 2 3 (by decide) (by decide)
  obtain ⟨-, -, -, hcomplex, -⟩ :=
    ways_to_build ([⟨⟨0x3fd3333333333334⟩, ⟨0x8000000000000000⟩⟩] : List Complex128) 1 1
      (by decide) (by decide)
  obtain ⟨-, -, hover, -⟩ :=
    ways_to_build ([] : List Int32) 0x8000000000000000 2 (by decide) (by decide)
  obtain ⟨hnothing, -⟩ :=
    ways_to_build ([] : List Int32) 0 0xffffffffffffffff (by decide) (by decide)
  obtain ⟨-, hsome, -⟩ :=
    ways_to_build ([7] : List Int32) 0 0xffffffffffffffff (by decide) (by decide)
  refine ⟨hfilled (by decide) (by decide), hintegers fun x _ => comesBack_int32 x,
    hcomplex fun z hz => ?_, hover (by decide), hnothing (by decide) (by decide),
    hsome (by decide) (by decide)⟩
  rw [List.mem_singleton.1 hz]
  exact comesBack_complex (comesBack_binary64 (by decide +kernel))
    (comesBack_binary64 (by decide +kernel))

end Matrix

end Screening
