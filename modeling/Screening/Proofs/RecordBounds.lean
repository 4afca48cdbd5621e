import Screening.Proofs.Retyping

/-!
# How much the parts of a file can be

The markers of a record hold 32 bits, and so they bound what lies between them: the fields of the
first record, and the elements of every matrix.  This file says, for any source, what reading each
part of a file goes over, and that no shape on the way is too large to be counted.

* `Reading.WithoutOverflow m r P` — what an operation gives from a reader, if it fails for no shape
  that is too large; put together by `WithoutOverflow.bind`.
* `Contents.readDimensions_goes`, `readHeader_goes`, `readMatrix_goes` — the parts of a file, each
  with the record that is gone over.
* `Contents.read_goes` — the sizes of a file that is read lie in its first payload, and its largest
  matrix has a payload that a marker can announce.
-/

set_option autoImplicit false

namespace Screening

/-- From a reader, an operation gives an answer and leaves a reader of which something holds, or it
fails, but not for a shape that is too large. -/
structure Reading.WithoutOverflow {α : Type} (m : Reading α) (r : Reader)
    (P : α → Reader → Prop) : Prop where
  /-- What holds of an answer and of the reader after it. -/
  gives : ∀ {x r'}, m r = .ok x r' → P x r'
  /-- No failure is for a shape. -/
  fails : ∀ {e r'}, m r = .error e r' → e ≠ .format .arraySizeOverflow

namespace Reading

variable {α β : Type} {r : Reader} {P Q : α → Reader → Prop} {R : β → Reader → Prop}

theorem Ensures.withoutOverflow {m : Reading α} (h : Ensures m r P) : WithoutOverflow m r P where
  gives := h.gives
  fails := by
    rintro _ r' hfail rfl
    exact absurd (h.stops hfail) (by decide)

theorem withoutOverflow_pure {x : α} (h : P x r) : WithoutOverflow (pure x) r P :=
  ⟨by rintro _ _ ⟨⟩; exact h, nofun⟩

theorem withoutOverflow_throw {cause : FormatError} (h : cause ≠ .arraySizeOverflow) :
    WithoutOverflow (throw (.format cause)) r P :=
  ⟨nofun, by rintro _ _ ⟨⟩; simpa using h⟩

/-- A rule of the format that has nothing to say about shapes. -/
theorem withoutOverflow_ofFormat {check : Except FormatError α} (hok : ∀ x, check = .ok x → P x r)
    (herror : check ≠ .error .arraySizeOverflow) : WithoutOverflow (ofFormat check) r P := by
  cases check with
  | ok x => exact withoutOverflow_pure (hok x rfl)
  | error cause => exact withoutOverflow_throw (by simpa using herror)

/-- **One operation after the other.** -/
theorem WithoutOverflow.bind {m : Reading α} {f : α → Reading β} (hm : WithoutOverflow m r P)
    (hf : ∀ x r', P x r' → WithoutOverflow (f x) r' R) : WithoutOverflow (m >>= f) r R := by
  cases hrun : m r with
  | ok x r' =>
    have hnext := hf x r' (hm.gives hrun)
    exact ⟨fun h => hnext.gives ((bind_ok hrun).symm.trans h),
      fun h => hnext.fails ((bind_ok hrun).symm.trans h)⟩
  | error e r' =>
    have hfail := bind_error (f := f) hrun
    refine ⟨fun h => ?_, fun h => ?_⟩
    · rw [hfail] at h
      cases h
    · rw [hfail] at h
      cases h
      exact hm.fails hrun

end Reading

theorem Settled.of_ok {α : Type} {cause : Option FormatError} {value : α} {Means : α → Prop}
    (h : Settled cause (.ok value) Means) : Means value := by
  cases cause with
  | some cause => cases h
  | none =>
    obtain ⟨_, ⟨⟩, hmeans⟩ := h
    exact hmeans

namespace Contents

open Reading Reader

variable {α : Type} {r : Reader}

/-- A reader went over a record whose payload holds these elements. -/
def WentOverElements [Element α] (r : Reader) (elements : List α) (r' : Reader) : Prop :=
  ∃ found, r.WentOver found r' ∧ found.payload.length = elements.length * Element.size α ∧
    elements = elementsOf α (found.payload.length / Element.size α) found.payload

theorem note_withoutOverflow (event : Event) :
    WithoutOverflow (note event) r fun _ r' =>
      r' = { r with journal := r.journal.push event } :=
  ⟨by rintro _ _ ⟨⟩; rfl, nofun⟩

/-- What a record is decoded to are the elements of its payload, which are whole. -/
theorem elements_of_decode [Element α] {record : Record} {elements : List α}
    (h : record.decode α = .ok elements) :
    record.payload.length = elements.length * Element.size α ∧
      elements = elementsOf α (record.payload.length / Element.size α) record.payload := by
  rw [Record.decode, decodeElements_eq] at h
  split at h
  · rename_i hwhole
    cases h
    refine ⟨?_, rfl⟩
    rw [length_elementsOf, Nat.div_mul_cancel (Nat.dvd_of_mod_eq_zero hwhole)]
  · cases h

theorem decode_ne_overflow [Element α] (record : Record) :
    record.decode α ≠ .error .arraySizeOverflow := by
  rw [Record.decode, decodeElements_eq]
  split <;> simp

/-- The elements of the next record are gone over with it. -/
theorem nextElements_goes [Element α] (kind : RecordKind) (r : Reader) :
    WithoutOverflow (nextElements α kind) r (WentOverElements r) := by
  have helements : WithoutOverflow (readElements α) r fun found r' =>
      ∀ elements, found = some elements → WentOverElements r elements r' := by
    refine (ensures_readRecord r).withoutOverflow.bind fun found r' hover => ?_
    cases found with
    | none => exact withoutOverflow_pure nofun
    | some record =>
      have hdecode : WithoutOverflow (ofFormat (record.decode α)) r' (WentOverElements r) :=
        withoutOverflow_ofFormat (fun _ h => ⟨record, hover record rfl, elements_of_decode h⟩)
          (decode_ne_overflow record)
      show WithoutOverflow (some <$> ofFormat (record.decode α)) r' _
      rw [map_eq_pure_bind]
      refine hdecode.bind fun elements r'' hwent => withoutOverflow_pure ?_
      rintro _ ⟨⟩
      exact hwent
  refine helements.bind fun found r' hfound => ?_
  cases found with
  | none => exact withoutOverflow_throw (by simp)
  | some elements => exact withoutOverflow_pure (hfound elements rfl)

/-- A reader went over a record with a payload of which something holds. -/
def WentOverPayload (r : Reader) (P : List UInt8 → Prop) (r' : Reader) : Prop :=
  ∃ found, r.WentOver found r' ∧ P found.payload

/-- What is noted afterwards does not matter. -/
theorem WentOverPayload.note {P : List UInt8 → Prop} {r' : Reader} (h : WentOverPayload r P r')
    (event : Event) : WentOverPayload r P { r' with journal := r'.journal.push event } := by
  obtain ⟨found, hover, hpayload⟩ := h
  exact ⟨found, ⟨hover.length_lt, hover.pending, hover.taken, hover.offset, hover.position,
    hover.index, hover.recordsRead⟩, hpayload⟩

theorem ofFields_ne_overflow (fields : List Int32) :
    Dimensions.ofFields fields ≠ .error .arraySizeOverflow := by
  unfold Dimensions.ofFields
  split
  · split <;> simp
  · simp

theorem ofValues_ne_overflow (values : List Binary64) :
    Header.ofValues values ≠ .error .arraySizeOverflow := by
  unfold Header.ofValues
  split <;> simp

/-- **A shape within the words is never found too large.** -/
theorem reshape_ne_overflow (kind : RecordKind) (data : List Complex128) {shape : Nat × Nat}
    (h : shape.1 * shape.2 < wordLimit) : reshape kind data shape ≠ .error .arraySizeOverflow := by
  rw [reshape_eq kind data h]
  split <;> simp

/-- The sizes of a file lie in its first payload, which has a field for each that is counted. -/
theorem readDimensions_goes (r : Reader) :
    WithoutOverflow readDimensions r fun d r' => WentOverPayload r
      (fun payload => SizesOf payload d ∧ payload.length = 4 * d.fieldCount) r' := by
  refine (nextElements_goes .dimensions r).bind ?_
  rintro _ r' ⟨found, hover, hlength, rfl⟩
  refine withoutOverflow_ofFormat (fun d hd => ?_) (ofFields_ne_overflow _)
  have hsettled : Settled (contentFault 0 .dimensions found.payload) (.ok d)
      (SizesOf found.payload) := hd ▸ ofFields_elementsOf 0 found.payload
  have hsizes := hsettled.of_ok
  have hsize : Element.size Int32 = 4 := rfl
  rw [length_elementsOf, hsize] at hlength
  refine ⟨found, hover, hsizes, ?_⟩
  rw [hsizes.fieldCount]
  omega

/-- The header takes a record. -/
theorem readHeader_goes (r : Reader) :
    WithoutOverflow readHeader r fun _ r' => WentOverPayload r (fun _ => True) r' := by
  refine (nextElements_goes .header r).bind ?_
  rintro values r' ⟨found, hover, -, -⟩
  have hwent : WentOverPayload r (fun _ => True) r' := ⟨found, hover, trivial⟩
  have hheader : WithoutOverflow (ofFormat (Header.ofValues values)) r'
      fun _ => WentOverPayload r fun _ => True :=
    withoutOverflow_ofFormat (fun _ _ => hwent) (ofValues_ne_overflow values)
  exact hheader.bind fun _ _ hwent =>
    (note_withoutOverflow _).bind fun _ _ hnote => withoutOverflow_pure (hnote ▸ hwent.note _)

/-- A matrix takes a record with an element for each place. -/
theorem readMatrix_goes (kind : RecordKind) {shape : Nat × Nat}
    (h : shape.1 * shape.2 < wordLimit) (r : Reader) :
    WithoutOverflow (readMatrix kind shape) r fun _ r' => WentOverPayload r
      (fun payload => payload.length = 16 * (shape.1 * shape.2)) r' := by
  refine (nextElements_goes kind r).bind ?_
  rintro data r' ⟨found, hover, hlength, -⟩
  have hmatrix : WithoutOverflow (ofFormat (reshape kind data shape)) r' fun _ =>
      WentOverPayload r fun payload => payload.length = 16 * (shape.1 * shape.2) := by
    refine withoutOverflow_ofFormat (fun m hm => ⟨found, hover, ?_⟩)
      (reshape_ne_overflow kind data h)
    have hsize : Element.size Complex128 = 16 := rfl
    rw [reshape_eq kind data h] at hm
    split at hm
    · rename_i hfilled
      have hplaces : data.length = shape.1 * shape.2 := hfilled
      show found.payload.length = _
      rw [hlength, hsize, hplaces, Nat.mul_comm]
    · cases hm
  exact hmatrix.bind fun _ _ hwent =>
    (note_withoutOverflow _).bind fun _ _ hnote => withoutOverflow_pure (hnote ▸ hwent.note _)

end Contents

/-- **The products of extents that sizes call for are words.** -/
theorem Dimensions.shapes_lt (d : Dimensions) :
    d.wingShape.1 * d.wingShape.2 < wordLimit ∧
      d.responseShape.1 * d.responseShape.2 < wordLimit := by
  have hle : d.ngvector ≤ maxSize := d.ngvector_le
  have hlimit : maxSize * wingColumns < wordLimit ∧ maxSize * maxSize < wordLimit := by decide
  exact ⟨Nat.lt_of_le_of_lt (Nat.mul_le_mul_right _ hle) hlimit.1,
    Nat.lt_of_le_of_lt (Nat.mul_le_mul hle hle) hlimit.2⟩

namespace Contents

open Reading Reader

/-- **What reading a file goes over**: its sizes lie in a payload at the front of the source, with a
field for each that is counted, and a marker can announce the elements of its largest matrix. -/
theorem read_goes (label : String) (r : Reader) :
    WithoutOverflow (Contents.read label) r fun c _ =>
      (∃ payload rest, r.source.pending = frame payload ++ rest ∧
        payload.length < UInt32.size ∧ SizesOf payload c.dimensions ∧
        payload.length = 4 * c.dimensions.fieldCount) ∧
      16 * (c.dimensions.ngvector * c.dimensions.ngvector) < UInt32.size := by
  refine (readDimensions_goes r).bind ?_
  rintro d r₁ ⟨first, hfirst, hsizes, hcount⟩
  obtain ⟨hwings, hsquare⟩ := d.shapes_lt
  refine (note_withoutOverflow _).bind fun _ r₂ _ => ?_
  refine (readHeader_goes r₂).bind fun header r₃ _ => ?_
  refine (readMatrix_goes .wing hwings r₃).bind fun wing r₄ _ => ?_
  refine (readMatrix_goes .cwing hwings r₄).bind fun cwing r₅ _ => ?_
  refine (readMatrix_goes .response hsquare r₅).bind fun response r₆ hresponse => ?_
  obtain ⟨last, hlast, hlength⟩ := hresponse
  exact withoutOverflow_pure ⟨⟨first.payload, _, hfirst.pending, hfirst.length_lt, hsizes, hcount⟩,
    hlength ▸ hlast.length_lt⟩

end Contents

end Screening
