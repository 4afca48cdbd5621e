import Screening.Proofs.Consistency
import Screening.Proofs.DecodingInWords

/-!
# How large a file can be

No number leaves the words while a file is decoded, and no shape is ever too large: long before
that, the payload of its largest matrix cannot be announced by a marker any more.  That bounds the
number of G-vectors, and the first payload bounds the number of fields in the same way.  Every
number up to these bounds is the one of some file.

* `Payloads.ofSizes` — the payloads of a file that declares given sizes.
* `le_maxRows_iff` — a marker can announce the payload of the largest matrix just up to the bound.
* `decode_ofSizes` — files of all sizes up to the bounds can be decoded.
* `decode_capacity` — all of it.
-/

set_option autoImplicit false

namespace Screening

/-- The most G-vectors that a file can have. -/
def maxRows : Nat := 16383

/-- The most fields that the first record of a file can have. -/
def maxFields : Nat := 1073741823

/-! ## Bounds -/

/-- The largest matrix can be announced just up to the bound. -/
theorem le_maxRows_iff {n : Nat} : 16 * (n * n) < UInt32.size ↔ n ≤ maxRows := by
  constructor
  · intro h
    by_contra hlarge
    have hsquare : 16384 * 16384 ≤ n * n := Nat.mul_self_le_mul_self (Nat.lt_of_not_le hlarge)
    have hlimit : UInt32.size = 16 * (16384 * 16384) := rfl
    omega
  · intro h
    have hsquare : n * n ≤ maxRows * maxRows := Nat.mul_self_le_mul_self h
    exact Nat.lt_of_le_of_lt (Nat.mul_le_mul_left 16 hsquare) (by decide)

/-- Fields can be announced just up to the bound. -/
theorem le_maxFields_iff {n : Nat} : 4 * n < UInt32.size ↔ n ≤ maxFields := by
  have hlimit : UInt32.size = 4 * (maxFields + 1) := rfl
  omega

section

variable {source : Source} {label : String}

/-- What is decoded lies within the bounds. -/
theorem le_of_decode {c : Contents} {r : Reader} (h : decode source label = (.ok c, r)) :
    c.dimensions.ngvector ≤ maxRows ∧ c.dimensions.fieldCount ≤ maxFields := by
  obtain ⟨⟨payload, rest, -, hlength, -, hcount⟩, hsquare⟩ :=
    (Contents.read_goes label _).gives (Reading.eq_ok_of_outcome h)
  exact ⟨le_maxRows_iff.1 hsquare, le_maxFields_iff.1 (hcount ▸ hlength)⟩

/-- A shape is never what decoding fails for. -/
theorem decode_ne_arraySizeOverflow (source : Source) (label : String) :
    (decode source label).1 ≠ .error (.format .arraySizeOverflow) := by
  intro h
  exact (Contents.read_goes label _).fails (Reading.eq_error_of_outcome (Prod.ext h rfl)) rfl

/-- A file that declares too many G-vectors is rejected, whatever follows. -/
theorem decode_of_maxRows_lt {payload rest : List UInt8} (hlength : payload.length < UInt32.size)
    (hlarge : (maxRows : Int) < integerAt 0 payload)
    (hsource : source.pending = frame payload ++ rest) :
    ∃ e, (decode source label).1 = .error e := by
  cases hdecode : (decode source label).1 with
  | error e => exact ⟨e, rfl⟩
  | ok c =>
    exfalso
    have hpair : decode source label = (.ok c, (decode source label).2) := Prod.ext hdecode rfl
    obtain ⟨⟨found, rest', hpending, hfound, hsizes, -⟩, -⟩ :=
      (Contents.read_goes label _).gives (Reading.eq_ok_of_outcome hpair)
    obtain ⟨rfl, -⟩ := frame_append_inj hlength hfound (hsource.symm.trans hpending)
    have hle := (le_of_decode hpair).1
    have hrows := hsizes.ngvector
    omega

end

/-! ## Files of all sizes -/

/-- The payloads of a file that declares these sizes in as many fields, with nothing but zeros
otherwise. -/
def Payloads.ofSizes (ngvector ngvector2 fieldCount : Nat) : Payloads
  | .dimensions => encodeElements
      (Int32.ofNat ngvector :: Int32.ofNat ngvector2 :: List.replicate (fieldCount - minFields) 0)
  | .header => List.replicate 144 0
  | .wing => List.replicate (48 * ngvector) 0
  | .cwing => List.replicate (48 * ngvector) 0
  | .response => List.replicate (16 * (ngvector * ngvector)) 0

/-- Sizes that a file can have. -/
structure Possible (ngvector ngvector2 fieldCount : Nat) : Prop where
  /-- There is a G-vector, and the largest matrix can be announced. -/
  ngvector : 1 ≤ ngvector ∧ ngvector ≤ maxRows
  /-- The second size is positive, and a field can hold it. -/
  ngvector2 : 1 ≤ ngvector2 ∧ ngvector2 ≤ maxSize
  /-- There is a field for both sizes, and all fields can be announced. -/
  fieldCount : minFields ≤ fieldCount ∧ fieldCount ≤ maxFields

namespace Possible

variable {ngvector ngvector2 fieldCount : Nat}

/-- The first payload declares the sizes. -/
theorem declares (h : Possible ngvector ngvector2 fieldCount) :
    (Payloads.ofSizes ngvector ngvector2 fieldCount .dimensions).length = 4 * fieldCount ∧
      integerAt 0 (Payloads.ofSizes ngvector ngvector2 fieldCount .dimensions) = ngvector ∧
      integerAt 1 (Payloads.ofSizes ngvector ngvector2 fieldCount .dimensions) = ngvector2 := by
  obtain ⟨hrows, hsecond, hcount⟩ := h
  have hword {n : Nat} (hn : n ≤ maxSize) : (Int32.ofNat n).toInt = n :=
    Int32.toInt_ofNat_of_lt (Nat.lt_of_le_of_lt hn (by decide))
  have hfirst : ngvector ≤ maxSize := Nat.le_trans hrows.2 (by decide)
  -- Reading the payload as integers gives back those that it was made of.
  have hback := elementsOf_encodeElements (Int32.ofNat ngvector :: Int32.ofNat ngvector2 ::
    List.replicate (fieldCount - minFields) 0) []
  rw [List.append_nil] at hback
  have hslot {slot : Nat} {x : Int32} (hx : (Int32.ofNat ngvector :: Int32.ofNat ngvector2 ::
      List.replicate (fieldCount - minFields) 0)[slot]? = some x) : x.toInt = integerAt slot
        (Payloads.ofSizes ngvector ngvector2 fieldCount .dimensions) :=
    toInt_of_getElem? ((congrArg (·[slot]?) hback).trans hx)
  refine ⟨?_, (hslot rfl).symm.trans (hword hfirst), (hslot rfl).symm.trans (hword hsecond.2)⟩
  have hminFields : minFields = 2 := rfl
  have hsize : Element.size Int32 = 4 := rfl
  rw [Payloads.ofSizes, length_encodeElements, List.length_cons, List.length_cons,
    List.length_replicate, hsize]
  omega

/-- Payloads of possible sizes make a file. -/
theorem isFile (h : Possible ngvector ngvector2 fieldCount) :
    (Payloads.ofSizes ngvector ngvector2 fieldCount).IsFile := by
  obtain ⟨hlength, hfirst, hsecond⟩ := h.declares
  obtain ⟨hrows, hpositive, hcount⟩ := h
  have hminFields : minFields = 2 := rfl
  have hfields := le_maxFields_iff.2 hcount.2
  have hsquare := le_maxRows_iff.2 hrows.2
  have hwing : 48 * ngvector < UInt32.size :=
    Nat.lt_of_le_of_lt (Nat.mul_le_mul_left 48 hrows.2) (by decide)
  have hsame : (Payloads.ofSizes ngvector ngvector2 fieldCount).rows = ngvector := by
    rw [Payloads.rows, hfirst, Int.toNat_natCast]
  intro kind
  rw [Payloads.Holds, hsame]
  cases kind with
  | dimensions =>
    refine ⟨by omega, by omega, by omega, ?_, ?_⟩
    · rw [hfirst]
      omega
    · rw [hsecond]
      omega
  | header => exact ⟨show 144 < UInt32.size by decide, rfl⟩
  | wing => simpa [Payloads.ofSizes, Fits] using hwing
  | cwing => simpa [Payloads.ofSizes, Fits] using hwing
  | response => simpa [Payloads.ofSizes, Fits] using hsquare

/-- **All possible sizes are those of a file.** -/
theorem decodes (h : Possible ngvector ngvector2 fieldCount) {source : Source}
    (steady : source.Steady) (hsource : source.pending =
      (Payloads.ofSizes ngvector ngvector2 fieldCount).bytes RecordKind.sequence)
    (label : String) : ∃ c r, decode source label = (.ok c, r) ∧
      c.dimensions.sizes = (ngvector, ngvector2, fieldCount) := by
  have hprefix : (Payloads.ofSizes ngvector ngvector2 fieldCount).bytes RecordKind.sequence <+:
      source.pending := hsource ▸ List.prefix_refl _
  obtain ⟨c, r, hdecode, -⟩ := decode_of_isFile steady label h.isFile hprefix
  obtain ⟨p, hp, hfront, hc, -⟩ := file_of_decode steady hdecode
  obtain rfl := hp.eq h.isFile hfront hprefix
  obtain ⟨hlength, hfirst, hsecond⟩ := h.declares
  have hsizes := hc.dimensions
  have hngvector := hsizes.ngvector
  have hngvector2 := hsizes.ngvector2
  have hcount := hsizes.fieldCount
  refine ⟨c, r, hdecode, Prod.ext ?_ (Prod.ext ?_ ?_)⟩
  all_goals
    dsimp only [Dimensions.sizes]
    omega

end Possible

/-! ## Words and bounds -/

/-- **Decoding stays within the words, and its bounds are exact.**  Decoding that breaks off where a
number is not a word ends like decoding, whatever the source does, and no shape is ever too large: a
first record cannot declare extents whose products are.  A record that is read has a length that
loses nothing as a marker, and what it takes is a word.  What is decoded has no more G-vectors and
no more fields than the bounds; a file that declares more G-vectors is rejected, whatever follows;
and all sizes up to the bounds are those of some file. -/
theorem decode_capacity :
    (∀ (source : Source) (label : String),
      InWords.decode source label =
        ((decode source label).1.mapError .failure, (decode source label).2) ∧
      (decode source label).1 ≠ .error (.format .arraySizeOverflow)) ∧
    (∀ d : Dimensions, d.ngvector * 3 < wordLimit ∧ d.ngvector * d.ngvector < wordLimit ∧
      checkedShape d.wingShape.1 d.wingShape.2 = .ok (d.ngvector * 3) ∧
      checkedShape d.responseShape.1 d.responseShape.2 = .ok (d.ngvector * d.ngvector)) ∧
    (∀ (r : Reader) (record : Record) (r' : Reader), Reader.readRecord r = .ok (some record) r' →
      record.declaredLength = record.payload.length ∧ span record.payload.length < wordLimit) ∧
    (∀ (source : Source) (label : String) (c : Contents) (r : Reader),
      decode source label = (.ok c, r) →
      c.dimensions.ngvector ≤ 16383 ∧ c.dimensions.fieldCount ≤ 1073741823) ∧
    (∀ (source : Source) (payload rest : List UInt8), payload.length < UInt32.size →
      16384 ≤ integerAt 0 payload → source.pending = frame payload ++ rest →
      ∀ label, ∃ e, (decode source label).1 = .error e) ∧
    ∀ ngvector ngvector2 fieldCount : Nat, 1 ≤ ngvector → ngvector ≤ 16383 →
      1 ≤ ngvector2 → ngvector2 ≤ 2147483647 → 2 ≤ fieldCount → fieldCount ≤ 1073741823 →
      ∃ bytes, ∀ source : Source, source.Steady → source.pending = bytes → ∀ label,
        ∃ c r, decode source label = (.ok c, r) ∧
          c.dimensions.sizes = (ngvector, ngvector2, fieldCount) := by
  refine ⟨fun source label => ⟨decode_inWords source label,
      decode_ne_arraySizeOverflow source label⟩, fun d => ?_, fun r record r' hread => ?_,
    fun source label c r => le_of_decode,
    fun source payload rest hlength hlarge hsource label => ?_,
    fun ngvector ngvector2 fieldCount hfirst hfirst' hsecond hsecond' hcount hcount' => ?_⟩
  · obtain ⟨hwings, hsquare⟩ := d.shapes_lt
    exact ⟨hwings, hsquare, if_pos hwings, if_pos hsquare⟩
  · have hlength := ((Reader.ensures_readRecord r).gives hread record rfl).length_lt
    exact ⟨record.declaredLength_eq hlength,
      Nat.lt_trans (Nat.add_lt_add_right hlength _) (by decide)⟩
  · exact decode_of_maxRows_lt hlength hlarge hsource
  · have hpossible : Possible ngvector ngvector2 fieldCount :=
      ⟨⟨hfirst, hfirst'⟩, ⟨hsecond, hsecond'⟩, hcount, hcount'⟩
    exact ⟨_, fun source steady hsource label => hpossible.decodes steady hsource label⟩

/-- A short record, a small file, a first record that declares one G-vector too many, and the
largest sizes there are. -/
theorem decode_capacity_extremes :
    (∃ r', Reader.readRecord (.ofSource (.ofBytes (frame [1, 2, 3]))) =
        .ok (some ⟨1, 0, [1, 2, 3]⟩) r' ∧
      Record.declaredLength ⟨1, 0, [1, 2, 3]⟩ = 3 ∧ span 3 < wordLimit) ∧
    (∃ c r, decode singleSource "single" = (.ok c, r) ∧
      c.dimensions.ngvector ≤ 16383 ∧ c.dimensions.fieldCount ≤ 1073741823) ∧
    (∃ e, (decode (.ofBytes (frame [0, 64, 0, 0, 1, 0, 0, 0])) "large").1 = .error e) ∧
    ∃ source : Source, source.Steady ∧ ∃ c r, decode source "largest" = (.ok c, r) ∧
      c.dimensions.sizes = (16383, 2147483647, 1073741823) := by
  obtain ⟨-, -, hrecords, hbounds, hlarge, hsizes⟩ := decode_capacity
  refine ⟨?_, ?_, ?_, ?_⟩
  · obtain ⟨r', hread, -⟩ := Reader.readRecord_goesOver
      (r := .ofSource (.ofBytes (frame [1, 2, 3]))) (Source.steady_ofBytes _)
    exact ⟨r', hread, hrecords _ _ _ hread⟩
  · have steady : singleSource.Steady := ⟨fun _ => show some 5 ≠ some 0 by decide, rfl⟩
    obtain ⟨c, r, hdecode, -⟩ :=
      decode_of_isFile steady "single" single_isFile (List.prefix_append _ _)
    exact ⟨c, r, hdecode, hbounds _ _ _ _ hdecode⟩
  · exact hlarge _ _ [] (by decide) (by decide) (List.append_nil _).symm "large"
  · obtain ⟨bytes, hbytes⟩ := hsizes 16383 2147483647 1073741823 (by decide) (by decide) (by decide)
      (by decide) (by decide) (by decide)
    exact ⟨.ofBytes bytes, Source.steady_ofBytes bytes,
      hbytes _ (Source.steady_ofBytes bytes) rfl "largest"⟩

end Screening
