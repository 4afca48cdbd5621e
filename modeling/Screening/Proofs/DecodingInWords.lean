import Screening.Contents.InWords
import Screening.Proofs.RecordBounds

/-!
# Decoding never leaves the words

A file is five records, and the words have room for far more: their counts, the offsets and what
they take.  So decoding that breaks off where a number is not a word never breaks off, and ends like
decoding without limits.

* `ReadingInWords.EndsLike m' m r` — an operation with machine words does what one without limits
  does; put together by `EndsLike.bind`.
* `Reader.Room n r` — the words have room for the counts of as many more records.
* `Reader.readRecord_inWords`, `Contents.read_inWords` — a record, and a file.
* `decode_inWords` — decoding with machine words ends like decoding.
-/

set_option autoImplicit false

namespace Screening

namespace ReadingInWords

variable {α β : Type} {r : Reader}

/-- From a reader, an operation with machine words ends like one without limits. -/
def EndsLike (m' : ReadingInWords α) (m : Reading α) (r : Reader) : Prop := m' r = ofReading m r

theorem endsLike_ofReading (m : Reading α) : EndsLike (ofReading m) m r := rfl

theorem endsLike_pure (x : α) : EndsLike (pure x) (pure x) r := rfl

theorem endsLike_fail (cause : FormatError) :
    EndsLike (fail cause : ReadingInWords α) (throw (.format cause)) r := rfl

/-- One operation after the other. -/
theorem EndsLike.bind {m' : ReadingInWords α} {m : Reading α} {f' : α → ReadingInWords β}
    {f : α → Reading β} (hm : EndsLike m' m r)
    (hf : ∀ x r', m r = .ok x r' → EndsLike (f' x) (f x) r') :
    EndsLike (m' >>= f') (m >>= f) r := by
  show EStateM.bind m' f' r = ofReading (m >>= f) r
  rw [EStateM.bind, hm, ofReading, ofReading]
  cases hrun : m r with
  | ok x r' =>
    rw [Reading.bind_ok hrun]
    exact hf x r' hrun
  | error cause r' => rw [Reading.bind_error hrun]

theorem EndsLike.map {m' : ReadingInWords α} {m : Reading α} (hm : EndsLike m' m r) (f : α → β) :
    EndsLike (f <$> m') (f <$> m) r := by
  rw [map_eq_pure_bind, map_eq_pure_bind]
  exact hm.bind fun _ _ _ => endsLike_pure _

/-- A computation that gives a number may come before. -/
theorem EndsLike.compute {x : α} {computation : Except Breakdown α}
    {f' : α → ReadingInWords β} {m : Reading β} (hx : computation = .ok x)
    (hf : EndsLike (f' x) m r) : EndsLike (compute computation >>= f') m r := by
  subst hx
  exact hf

end ReadingInWords

open ReadingInWords

namespace Reader

variable {r : Reader}

/-! ## Records -/

/-- Bytes that a record takes in its file at most. -/
def maxSpan : Nat := span UInt32.size

/-- The words have room for the counts of as many more records. -/
structure Room (records : Nat) (r : Reader) : Prop where
  /-- The records can be counted. -/
  recordsRead : r.recordsRead + records < wordLimit
  /-- So can their bytes. -/
  position : r.position + records * maxSpan < wordLimit

theorem take_inWords {want : Nat} (h : r.position + want < wordLimit) :
    EndsLike (InWords.take want) (take want) r := by
  show InWords.take want r = ofReading (take want) r
  have hle {bytes : List UInt8} {r' : Reader} (htake : take want r = .ok bytes r') :
      bytes.length ≤ want := ((ensures_take want).gives htake).1
  rw [ofReading, InWords.take]
  rw [take] at hle ⊢
  split
  · rename_i hfill
    rw [hfill]
  · rename_i bytes source hfill
    rw [hfill] at hle ⊢
    have hle' := hle rfl
    rw [Word.add, if_pos (by omega)]

theorem readMarker_inWords (record : Nat) (h : r.position + markerSize < wordLimit) :
    EndsLike (InWords.readMarker record) (readMarker record) r := by
  refine (take_inWords h).bind fun bytes r' _ => ?_
  split
  · exact endsLike_pure _
  · split
    · exact endsLike_fail _
    · exact endsLike_pure _

theorem readPayload_inWords (record : Nat) {length : Nat} (h : r.position + length < wordLimit) :
    EndsLike (InWords.readPayload record length) (readPayload record length) r := by
  refine (take_inWords h).bind fun payload r' _ => ?_
  split
  · exact endsLike_fail _
  · exact endsLike_pure _

theorem readTrailingMarker_inWords (record leading : Nat)
    (h : r.position + markerSize < wordLimit) :
    EndsLike (InWords.readTrailingMarker record leading) (readTrailingMarker record leading) r := by
  refine (readMarker_inWords record h).bind fun found r' _ => ?_
  cases found with
  | none => exact endsLike_fail _
  | some trailing => exact endsLike_ofReading _

theorem readBody_inWords (record : Nat) {length : Nat}
    (h : r.position + length + markerSize < wordLimit) :
    EndsLike (InWords.readBody record length) (readBody record length) r := by
  refine (readPayload_inWords record (by omega)).bind fun payload r' hpayload => ?_
  obtain ⟨hlen, took⟩ := (ensures_readPayload record length).gives hpayload
  have hposition := took.moved.position
  exact (readTrailingMarker_inWords record length (by omega)).bind fun _ _ _ => endsLike_pure _

theorem noteRecord_inWords (index offset : Nat) {length : Nat} (h : length < UInt32.size) :
    EndsLike (InWords.noteRecord index length offset)
      (note (.recordRead index length offset)) r := by
  have hspan : length + 2 * markerSize < wordLimit :=
    Nat.lt_trans (Nat.add_lt_add_right h _) (by decide)
  exact .compute (if_pos hspan) (endsLike_ofReading _)

/-- **A record is read without leaving the words**, as long as they have room for it. -/
theorem readRecord_inWords (h : r.Room 1) : EndsLike InWords.readRecord readRecord r := by
  have hspan : maxSpan = UInt32.size + 2 * markerSize := rfl
  have hposition := h.position
  refine EndsLike.bind (m := get) rfl ?_
  rintro _ _ ⟨⟩
  refine .compute (if_pos h.recordsRead) ?_
  refine (readMarker_inWords _ (by omega)).bind fun found r₁ hfound => ?_
  cases found with
  | none => exact (endsLike_ofReading _).bind fun _ _ _ => endsLike_pure _
  | some length =>
    obtain ⟨hlength, took⟩ := (ensures_readMarker _).gives hfound length rfl
    have hafter := took.moved.position
    rw [length_marker] at hafter
    refine (readBody_inWords _ (by omega)).bind fun payload r₂ _ => ?_
    exact (noteRecord_inWords _ _ hlength).bind fun _ _ _ =>
      (endsLike_ofReading _).bind fun _ _ _ => endsLike_pure _

/-- There is room for one record less where a record was gone over. -/
theorem Room.wentOver {records : Nat} {found : Record} {r' : Reader} (h : r.Room (records + 1))
    (hover : r.WentOver found r') : r'.Room records := by
  have hspan : maxSpan = UInt32.size + 2 * markerSize := rfl
  have hlength := hover.length_lt
  have hrecords := h.recordsRead
  have hposition := h.position
  rw [Nat.succ_mul] at hposition
  refine ⟨by rw [hover.recordsRead]; omega, ?_⟩
  rw [hover.position, span]
  omega

theorem Room.first {records : Nat} (h : r.Room (records + 1)) : r.Room 1 := by
  have hrecords := h.recordsRead
  have hposition := h.position
  rw [Nat.succ_mul] at hposition
  exact ⟨by omega, by omega⟩

theorem Room.note {records : Nat} (h : r.Room records) (event : Event) :
    Room records { r with journal := r.journal.push event } :=
  ⟨h.recordsRead, h.position⟩

/-- At the start there is room for as many records as a file has. -/
theorem room_ofSource (source : Source) : (ofSource source).Room 5 :=
  ⟨show 0 + 5 < wordLimit by decide, show 0 + 5 * maxSpan < wordLimit by decide⟩

/-! ## Elements -/

theorem elementsOfRecord_inWords {α : Type} [Element α] (record : Record) :
    EndsLike (InWords.elementsOfRecord α record) (Reading.ofFormat (record.decode α)) r := by
  have hsize : Element.size α ≠ 0 := Nat.pos_iff_ne_zero.1 (Element.size_pos α)
  refine .compute (if_neg hsize) ?_
  rw [Record.decode, decodeElements_eq]
  split
  · exact .compute (if_neg hsize) (endsLike_pure _)
  · exact endsLike_fail _

theorem readElements_inWords {α : Type} [Element α] (h : r.Room 1) :
    EndsLike (InWords.readElements α) (readElements α) r := by
  refine (readRecord_inWords h).bind fun found r' _ => ?_
  cases found with
  | none => exact endsLike_pure _
  | some record => exact (elementsOfRecord_inWords record).map some

end Reader

namespace Contents

open Reader

variable {r : Reader}

/-! ## The parts of a file -/

theorem nextElements_inWords {α : Type} [Element α] (kind : RecordKind) (h : r.Room 1) :
    EndsLike (InWords.nextElements α kind) (nextElements α kind) r := by
  refine (readElements_inWords h).bind fun found r' _ => ?_
  cases found with
  | none => exact endsLike_fail _
  | some elements => exact endsLike_pure _

theorem readDimensions_inWords (h : r.Room 1) :
    EndsLike InWords.readDimensions readDimensions r :=
  (nextElements_inWords .dimensions h).bind fun _ _ _ => endsLike_ofReading _

theorem readHeader_inWords (h : r.Room 1) : EndsLike InWords.readHeader readHeader r :=
  (nextElements_inWords .header h).bind fun _ _ _ =>
    (endsLike_ofReading _).bind fun _ _ _ =>
      (endsLike_ofReading _).bind fun _ _ _ => endsLike_pure _

/-- The places of a shape are counted within the words. -/
theorem reshape_inWords (kind : RecordKind) (data : List Complex128) {shape : Nat × Nat}
    (h : shape.1 * shape.2 < wordLimit) :
    EndsLike (InWords.reshape kind data shape) (Reading.ofFormat (reshape kind data shape)) r := by
  have hcounted : checkedShape shape.1 shape.2 = .ok (shape.1 * shape.2) := if_pos h
  refine .compute (if_pos h) ?_
  rw [reshape, hcounted]
  cases Matrix.ofColumnMajor data.toArray shape.1 shape.2 with
  | ok matrix => exact endsLike_pure _
  | error rejected => exact endsLike_fail _

theorem readMatrix_inWords (kind : RecordKind) {shape : Nat × Nat}
    (hshape : shape.1 * shape.2 < wordLimit) (h : r.Room 1) :
    EndsLike (InWords.readMatrix kind shape) (readMatrix kind shape) r :=
  (nextElements_inWords kind h).bind fun data _ _ =>
    (reshape_inWords kind data hshape).bind fun _ _ _ =>
      (endsLike_ofReading _).bind fun _ _ _ => endsLike_pure _

/-- There is room for one record less where a part of a file was read. -/
theorem room_of_wentOver {records : Nat} {P : List UInt8 → Prop} {r' : Reader}
    (h : r.Room (records + 1)) (hover : WentOverPayload r P r') : r'.Room records := by
  obtain ⟨found, hover, -⟩ := hover
  exact h.wentOver hover

/-- **A file is read without leaving the words.** -/
theorem read_inWords (label : String) (h : r.Room 5) :
    EndsLike (InWords.read label) (Contents.read label) r := by
  refine (readDimensions_inWords h.first).bind fun d r₁ hd => ?_
  have h₁ : r₁.Room 4 := room_of_wentOver h ((readDimensions_goes r).gives hd)
  obtain ⟨hwings, hsquare⟩ := d.shapes_lt
  refine (endsLike_ofReading _).bind ?_
  rintro _ _ ⟨⟩
  have h₂ := h₁.note (.dimensionsRead label d.ngvector d.ngvector2)
  refine (readHeader_inWords h₂.first).bind fun header r₃ hheader => ?_
  have h₃ : r₃.Room 3 := room_of_wentOver h₂ ((readHeader_goes _).gives hheader)
  refine (readMatrix_inWords .wing hwings h₃.first).bind fun wing r₄ hwing => ?_
  have h₄ : r₄.Room 2 := room_of_wentOver h₃ ((readMatrix_goes .wing hwings r₃).gives hwing)
  refine (readMatrix_inWords .cwing hwings h₄.first).bind fun cwing r₅ hcwing => ?_
  have h₅ : r₅.Room 1 := room_of_wentOver h₄ ((readMatrix_goes .cwing hwings r₄).gives hcwing)
  exact (readMatrix_inWords .response hsquare h₅).bind fun response r₆ _ => endsLike_pure _

end Contents

/-- **Decoding with machine words ends like decoding**, whatever the source does. -/
theorem decode_inWords (source : Source) (label : String) :
    InWords.decode source label =
      ((decode source label).1.mapError .failure, (decode source label).2) := by
  rw [InWords.decode, Contents.read_inWords label (Reader.room_ofSource source), ofReading, decode,
    Reading.outcome]
  cases Contents.read label (Reader.ofSource source) <;> rfl

end Screening
