import Screening.Proofs.Acceptance
import Screening.Proofs.JsonForms
import Screening.Proofs.MatrixAccess

/-!
# Contents are consistent whichever way they come in

Contents are decoded from the bytes of a source or read from a JSON text.  The two ways share no
code: one shapes the matrices by the sizes of the first record, the other takes shapes from the text
and validates them afterwards.  What comes out of either is `Contents.Consistent`.

* `Reading.Gives` — what holds of every result of an operation on a reader.
* `Contents.validate_of_decode`, `Contents.validate_of_read` — the matrices of contents fit, whether
  these were decoded or read.
* `Dimensions.Spells` — a text that spells two sizes and a count, in whatever way; sizes are read of
  no other text.
* `Dimensions.Answer` — such a text is accepted exactly if some first record declares the sizes, and
  refused for the first thing that is wrong with them.
* `consistent` — all of this.
-/

set_option autoImplicit false

namespace Screening

open Json

/-! ## Results of decoding -/

/-- Whatever an operation gives, from any reader, has a property. -/
def Reading.Gives {α : Type} (P : α → Prop) (m : Reading α) : Prop :=
  ∀ r x r', m r = .ok x r' → P x

namespace Reading.Gives

variable {α β : Type} {P : α → Prop} {Q : β → Prop}

theorem pure {x : α} (h : P x) : Gives P (Pure.pure x : Reading α) := by
  rintro _ _ _ ⟨⟩
  exact h

theorem bind {m : Reading α} {f : α → Reading β} (hm : Gives P m) (hf : ∀ x, P x → Gives Q (f x)) :
    Gives Q (m >>= f) := by
  intro r y r'' h
  cases hr : m r with
  | ok x r' => exact hf x (hm r x r' hr) r' y r'' ((bind_ok hr).symm.trans h)
  | error cause r' => simp [bind_error hr] at h

/-- What comes first need not have any property. -/
theorem bind_any {m : Reading α} {f : α → Reading β} (hf : ∀ x, Gives Q (f x)) :
    Gives Q (m >>= f) :=
  bind (P := fun _ => True) (fun _ _ _ _ => trivial) fun x _ => hf x

theorem ofFormat {check : Except FormatError α} (h : ∀ x, check = .ok x → P x) :
    Gives P (Reading.ofFormat check) := by
  intro r x r' hr
  cases check with
  | ok =>
    cases hr
    exact h x rfl
  | error => cases hr

end Reading.Gives

namespace Contents

open Reading

theorem shape_of_reshape {kind : RecordKind} {data : List Complex128} {shape : Nat × Nat}
    {m : ComplexMatrix} (h : reshape kind data shape = .ok m) : m.shape = shape := by
  rw [reshape, checkedShape] at h
  split at h
  · cases hbuilt : Matrix.ofColumnMajor data.toArray shape.1 shape.2 with
    | ok built =>
      rw [hbuilt] at h
      cases h
      obtain ⟨-, hrows, hcols⟩ := Matrix.eq_of_built m (.inl hbuilt)
      exact Prod.ext hrows hcols
    | error rejected =>
      rw [hbuilt] at h
      cases h
  · cases h

theorem readMatrix_gives (kind : RecordKind) (shape : Nat × Nat) :
    Gives (·.shape = shape) (readMatrix kind shape) :=
  .bind_any fun _ => .bind (.ofFormat fun _ => shape_of_reshape) fun _ h =>
    .bind_any fun _ => .pure h

/-- **The matrices of decoded contents have the shapes that the sizes call for.** -/
theorem read_gives (label : String) : Gives (·.validate = .ok ()) (Contents.read label) := by
  refine .bind_any fun dimensions => .bind_any fun _ => .bind_any fun header => ?_
  refine .bind (readMatrix_gives .wing _) fun wing hwing => ?_
  refine .bind (readMatrix_gives .cwing _) fun cwing hcwing => ?_
  refine .bind (readMatrix_gives .response _) fun response hresponse => .pure ?_
  exact (validate_eq_ok_iff _).2 ⟨hwing, hcwing, hresponse⟩

/-- Contents are decoded only with matrices that fit. -/
theorem validate_of_decode {source : Source} {label : String} {c : Contents} {r : Reader}
    (h : decode source label = (.ok c, r)) : c.validate = .ok () := by
  rw [decode, outcome] at h
  cases hread : Contents.read label (Reader.ofSource source) with
  | ok x r' =>
    rw [hread] at h
    cases h
    exact read_gives label _ _ _ hread
  | error cause r' =>
    rw [hread] at h
    cases h

/-! ## Results of reading JSON -/

/-- Contents are read of a form only if validation finds nothing wrong with them. -/
theorem validate_of_ofJson {form : Json} {c : Contents} (h : JsonForm.ofJson form = .ok c) :
    c.validate = .ok () := by
  obtain ⟨values, -, h⟩ := exists_of_bind_eq_ok h
  split at h
  · obtain ⟨source, -, h⟩ := exists_of_bind_eq_ok h
    obtain ⟨dimensions, -, h⟩ := exists_of_bind_eq_ok h
    obtain ⟨header, -, h⟩ := exists_of_bind_eq_ok h
    obtain ⟨wing, -, h⟩ := exists_of_bind_eq_ok h
    obtain ⟨cwing, -, h⟩ := exists_of_bind_eq_ok h
    obtain ⟨response, -, h⟩ := exists_of_bind_eq_ok h
    obtain ⟨_, hvalid, h⟩ := exists_of_bind_eq_ok h
    cases h
    exact orRefuse_eq_ok_iff.1 hvalid
  · cases h

/-- Contents are read only with matrices that fit. -/
theorem validate_of_read {written : String} {c : Contents}
    (h : Json.read Contents written = .ok c) : c.validate = .ok () := by
  rw [Json.read] at h
  split at h
  · exact validate_of_ofJson h
  · cases h

/-- The sizes are those that a file can declare, all parts have the extents that they call for, and
every matrix holds an element for each place. -/
structure Consistent (c : Contents) : Prop where
  /-- The number of G-vectors is positive and a signed integer. -/
  ngvector : 1 ≤ c.dimensions.ngvector ∧ c.dimensions.ngvector ≤ 2147483647
  /-- So is the second size. -/
  ngvector2 : 1 ≤ c.dimensions.ngvector2 ∧ c.dimensions.ngvector2 ≤ 2147483647
  /-- There was room for both sizes. -/
  fieldCount : 2 ≤ c.dimensions.fieldCount
  /-- The header has all its values. -/
  header : c.header.values.length = 18
  /-- The shapes of the matrices. -/
  shapes : c.wing.shape = (c.dimensions.ngvector, 3) ∧
    c.cwing.shape = (c.dimensions.ngvector, 3) ∧
    c.response.shape = (c.dimensions.ngvector, c.dimensions.ngvector)
  /-- The elements of the matrices. -/
  filled : ∀ m ∈ [c.wing, c.cwing, c.response], m.toList.length = m.nrows * m.ncols
  /-- Validation finds nothing wrong. -/
  valid : c.validate = .ok ()

theorem consistent_of_validate {c : Contents} (h : c.validate = .ok ()) : c.Consistent where
  ngvector := ⟨c.dimensions.ngvector_pos, c.dimensions.ngvector_le⟩
  ngvector2 := ⟨c.dimensions.ngvector2_pos, c.dimensions.ngvector2_le⟩
  fieldCount := c.dimensions.minFields_le
  header := c.header.length_eq
  shapes := (validate_eq_ok_iff c).1 h
  filled := fun m _ => m.length_toList
  valid := h

end Contents

/-! ## Sizes -/

namespace Dimensions

/-- The two sizes and the count of fields. -/
def sizes (d : Dimensions) : Nat × Nat × Nat := (d.ngvector, d.ngvector2, d.fieldCount)

/-- A text is the form of two sizes and a count, each of them written as a whole number: an object
with these three members in any order and maybe others, or an array of the three. -/
def Spells (written : String) (ngvector ngvector2 fieldCount : Nat) : Prop :=
  ∃ (form : Json) (first second third : NumberLiteral), parse written = some form ∧
    Carries [("ngvector", .number first), ("ngvector2", .number second),
      ("field_count", .number third)] form ∧
    first.toInt? = some (ngvector : Int) ∧ second.toInt? = some (ngvector2 : Int) ∧
    third.toInt? = some (fieldCount : Int)

/-- Every sizes are declared by some first record. -/
theorem exists_fields (d : Dimensions) : ∃ fields, ofFields fields = .ok d := by
  have hsize {n : Nat} (h : n ≤ maxSize) : (Int32.ofNat n).toInt = n :=
    Int32.toInt_ofNat_of_lt (Nat.lt_of_le_of_lt h (by decide))
  have hfirst := hsize d.ngvector_le
  have hsecond := hsize d.ngvector2_le
  have hpositive : 0 < (Int32.ofNat d.ngvector).toInt ∧ 0 < (Int32.ofNat d.ngvector2).toInt := by
    have := d.ngvector_pos
    have := d.ngvector2_pos
    omega
  refine ⟨Int32.ofNat d.ngvector :: Int32.ofNat d.ngvector2 ::
    List.replicate (d.fieldCount - minFields) 0, ?_⟩
  have hcount : d.fieldCount - minFields + 2 = d.fieldCount := Nat.sub_add_cancel d.minFields_le
  rw [ofFields, dif_pos hpositive]
  simp only [hfirst, hsecond, List.length_replicate, hcount, Int.toNat_natCast]

/-- Any sizes can be spelled. -/
theorem exists_spells (ngvector ngvector2 fieldCount : Nat) :
    ∃ written, Spells written ngvector ngvector2 fieldCount := by
  have hform : (Json.ofFields [("ngvector", ofNat ngvector), ("ngvector2", ofNat ngvector2),
      ("field_count", ofNat fieldCount)]).WellFormed :=
    wellFormed_ofFields (by simp [wellFormed_ofNat])
  exact ⟨_, _, _, _, _, parse_compact hform, carries_ofFields (by simp), toInt?_digits _,
    toInt?_digits _, toInt?_digits _⟩

variable {written : String} {ngvector ngvector2 fieldCount : Nat}

theorem read_of_spells (h : Spells written ngvector ngvector2 fieldCount)
    (hfirst : ngvector < UInt32.size) (hsecond : ngvector2 < UInt32.size)
    (hthird : fieldCount < UInt64.size) :
    Json.read Dimensions written = orRefuse (ofSizes ngvector ngvector2 fieldCount) := by
  obtain ⟨form, first, second, third, hparse, hcarries, hspells, hspells2, hspells3⟩ := h
  rw [Json.read, hparse]
  exact Dimensions.ofJson_eq hcarries (natBelow_number hspells hfirst)
    (natBelow_number hspells2 hsecond) (natBelow_number hspells3 hthird)

/-- **Sizes are read of no text that does not spell them.** -/
theorem spells_of_read {d : Dimensions} (h : Json.read Dimensions written = .ok d) :
    Spells written d.ngvector d.ngvector2 d.fieldCount := by
  rw [Json.read] at h
  cases hparse : parse written with
  | none =>
    rw [hparse] at h
    cases h
  | some form =>
    rw [hparse] at h
    obtain ⟨first, second, third, hcarries, hfirst, hsecond, hthird⟩ := carries_of_ofJson h
    obtain ⟨literal, rfl, hspells⟩ := number_of_natBelow hfirst
    obtain ⟨literal2, rfl, hspells2⟩ := number_of_natBelow hsecond
    obtain ⟨literal3, rfl, hspells3⟩ := number_of_natBelow hthird
    exact ⟨form, literal, literal2, literal3, hparse, hcarries, hspells, hspells2, hspells3⟩

/-- **Sizes are admitted exactly if some first record declares them.** -/
theorem ofSizes_eq_ok_iff {d : Dimensions} :
    ofSizes ngvector ngvector2 fieldCount = .ok d ↔
      d.sizes = (ngvector, ngvector2, fieldCount) ∧ ∃ fields, ofFields fields = .ok d := by
  constructor
  · intro h
    obtain ⟨rfl, rfl, rfl⟩ := ofSizes_eq_ok h
    exact ⟨rfl, exists_fields d⟩
  · rintro ⟨hsizes, -⟩
    cases hsizes
    exact ofSizes_self d

/-- How two sizes and a count are answered: with dimensions if some first record declares them, and
otherwise with the first thing that is wrong with them, a size too large for a field, a size of
zero, or too few fields. -/
structure Answer (ngvector ngvector2 fieldCount : Nat) (result : Except ReadError Dimensions) :
    Prop where
  /-- They are accepted exactly if a first record declares them. -/
  accepted : ∀ d, result = .ok d ↔
    d.sizes = (ngvector, ngvector2, fieldCount) ∧ ∃ fields, ofFields fields = .ok d
  /-- A size is not a signed integer. -/
  tooLarge : 2147483647 < ngvector ∨ 2147483647 < ngvector2 →
    result = .error (.refused .arraySizeOverflow)
  /-- Both are, but one of them is zero. -/
  zero : ngvector ≤ 2147483647 → ngvector2 ≤ 2147483647 → ngvector = 0 ∨ ngvector2 = 0 →
    result = .error (.refused (.invalidDimensions ngvector ngvector2))
  /-- Both sizes could be declared, but not by so few fields. -/
  tooFew : 0 < ngvector → ngvector ≤ 2147483647 → 0 < ngvector2 → ngvector2 ≤ 2147483647 →
    fieldCount < 2 → result = .error (.refused (.wrongCount .dimensions 2 fieldCount))

/-- **Sizes are checked in this order.** -/
theorem answer_ofSizes (ngvector ngvector2 fieldCount : Nat) :
    Answer ngvector ngvector2 fieldCount (orRefuse (ofSizes ngvector ngvector2 fieldCount)) where
  accepted d := orRefuse_eq_ok_iff.trans ofSizes_eq_ok_iff
  tooLarge h := by
    rw [ofSizes, dif_neg (by unfold maxSize; omega)]
    rfl
  zero h h2 hzero := by
    rw [ofSizes, dif_pos ⟨h, h2⟩, dif_neg (by omega)]
    rfl
  tooFew hpos h hpos2 h2 hfew := by
    rw [ofSizes, dif_pos ⟨h, h2⟩, dif_pos ⟨hpos, hpos2⟩, dif_neg (by unfold minFields; omega)]
    rfl

end Dimensions

/-! ## Both ways -/

/-- **Contents are consistent whichever way they come in**: decoded from any source, or read from
any text.  So are sizes: they are read only of texts that spell them, any sizes of 32 bits with a
count of 64 bits can be spelled, and every text that spells them is answered alike, accepted exactly
if a first record declares them. -/
theorem consistent :
    (∀ (source : Source) (label : String) (c : Contents) (r : Reader),
      decode source label = (.ok c, r) → c.Consistent) ∧
    (∀ (written : String) (c : Contents), Json.read Contents written = .ok c → c.Consistent) ∧
    (∀ (written : String) (d : Dimensions), Json.read Dimensions written = .ok d →
      Dimensions.Spells written d.ngvector d.ngvector2 d.fieldCount) ∧
    ∀ ngvector < UInt32.size, ∀ ngvector2 < UInt32.size, ∀ fieldCount < UInt64.size,
      (∃ written, Dimensions.Spells written ngvector ngvector2 fieldCount) ∧
      ∀ written, Dimensions.Spells written ngvector ngvector2 fieldCount →
        Dimensions.Answer ngvector ngvector2 fieldCount (Json.read Dimensions written) := by
  refine ⟨fun source label c r h => Contents.consistent_of_validate (Contents.validate_of_decode h),
    fun written c h => Contents.consistent_of_validate (Contents.validate_of_read h),
    fun written d h => Dimensions.spells_of_read h, ?_⟩
  intro ngvector hfirst ngvector2 hsecond fieldCount hthird
  refine ⟨Dimensions.exists_spells ngvector ngvector2 fieldCount, fun written hspells => ?_⟩
  rw [Dimensions.read_of_spells hspells hfirst hsecond hthird]
  exact Dimensions.answer_ofSizes ngvector ngvector2 fieldCount

/-- A form of contents with a single G-vector: an object with its members in another order and one
that is no field, and with arrays in place of most structures. -/
def misordered : Json :=
  let wing := Json.array [ofNat 1, ofNat 3, .array (List.replicate 3 (.array [ofNat 0, ofNat 5]))]
  .object [(some "wing", wing),
    (some "note", .object [(none, .null)]),
    (some "header", .array [.array (List.replicate 18 (ofNat 7))]),
    (some "cwing", wing),
    (some "dimensions", .object [(some "field_count", ofNat 2), (some "ngvector2", ofNat 9),
      (some "ngvector", ofNat 1)]),
    (some "response", .array [ofNat 1, ofNat 1, .array [.array [ofNat 0, ofNat 0]]]),
    (some "source", .string (some "single"))]

/-- A size that no field can hold and a size of zero, in another order and with a member between
them. -/
def oversized : Json :=
  .object [(some "field_count", ofNat 1), (some "note", .null),
    (some "ngvector2", ofNat 2147483648), (some "ngvector", ofNat 0)]

theorem consistent_misordered :
    (∃ c r, decode singleSource "single" = (.ok c, r) ∧ c.Consistent) ∧
      (∃ c, Json.read Contents (pretty misordered) = .ok c ∧ c.Consistent) ∧
      Dimensions.Spells (compact oversized) 0 2147483648 1 ∧
      Json.read Dimensions (compact oversized) = .error (.refused .arraySizeOverflow) := by
  have steady : singleSource.Steady := ⟨fun _ => show some 5 ≠ some 0 by decide, rfl⟩
  obtain ⟨c, r, hdecode, -⟩ :=
    decode_of_isFile steady "single" single_isFile (List.prefix_append _ _)
  have hform : misordered.WellFormed := by
    simp [misordered, wellFormed_object_iff, wellFormed_array_iff, wellFormed_ofNat,
      WellFormed.string, WellFormed.null]
  have hread : (JsonForm.ofJson misordered : Except ReadError Contents).isOk = true := by
    decide +kernel
  obtain ⟨d, hd⟩ : ∃ d, Json.read Contents (pretty misordered) = .ok d := by
    rw [Json.read, parse_pretty hform]
    cases h : (JsonForm.ofJson misordered : Except ReadError Contents) with
    | ok d => exact ⟨d, h⟩
    | error cause => simp [h, Except.isOk, Except.toBool] at hread
  have hspells : Dimensions.Spells (compact oversized) 0 2147483648 1 := by
    refine ⟨_, _, _, _, parse_compact ?_, .object ?_ ?_, toInt?_digits _, toInt?_digits _,
      toInt?_digits _⟩
    · simp [oversized, wellFormed_object_iff, wellFormed_ofNat, WellFormed.null]
    · simp
    · simp [ofNat]
  exact ⟨⟨c, r, hdecode, consistent.1 _ _ _ _ hdecode⟩, ⟨d, hd, consistent.2.1 _ _ hd⟩, hspells,
    ((consistent.2.2.2 0 (by decide) 2147483648 (by decide) 1 (by decide)).2 _ hspells).tooLarge
      (.inr (by decide))⟩

end Screening
