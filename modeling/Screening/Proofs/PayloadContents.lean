import Screening.Contents.Decode
import Screening.Proofs.Elements
import Screening.Proofs.Grammar

/-!
# What the payloads of a file say

Each of the five payloads is read as elements and made into one part of the contents.  This file
sets that against the numbers that lie in the payload, by their place.

* `SizesOf`, `HeaderOf`, `MatrixOf` — a part of the contents says what lies in a payload.
* `Settled cause outcome Means` — an outcome is a failure for the given cause or, where there is
  none, a value of which something holds.
* `ofFields_elementsOf`, `ofValues_elementsOf`, `reshape_elementsOf` — the making of a part is
  settled by what is wrong with its payload and by what lies there.
-/

set_option autoImplicit false

namespace Screening

/-! ## Numbers by their place -/

/-- The sign of an integer is the one of two's complement. -/
theorem toInt_decodeInt32 (bytes : List UInt8) :
    (decodeInt32 bytes).toInt = Int.bmod (LittleEndian.toNat bytes) UInt32.size := by
  have hnat : (decodeInt32 bytes).toBitVec.toNat = LittleEndian.toNat bytes % UInt32.size :=
    UInt32.toNat_ofNat'
  show (decodeInt32 bytes).toBitVec.toInt = _
  rw [BitVec.toInt_eq_toNat_bmod, hnat, Int.natCast_emod]
  exact Int.emod_bmod _ _

/-- An integer of a payload is the one in its slot. -/
theorem toInt_of_getElem? {count slot : Nat} {payload : List UInt8} {x : Int32}
    (h : (elementsOf Int32 count payload)[slot]? = some x) : x.toInt = integerAt slot payload := by
  have hsize : Element.size Int32 = 4 := rfl
  have hdecode (bytes : List UInt8) : (Element.decode bytes : Int32) = decodeInt32 bytes := rfl
  rw [getElem?_elementsOf, hsize, hdecode, Nat.mul_comm] at h
  split at h
  · rw [← Option.some.inj h, toInt_decodeInt32]
    unfold integerAt numberAt
    rfl
  · cases h

/-- The bits of a number of a payload are those in its slot. -/
theorem bits_of_getElem? {count slot : Nat} {payload : List UInt8} {x : Binary64}
    (hsize : count * 8 ≤ payload.length)
    (h : (elementsOf Binary64 count payload)[slot]? = some x) :
    x.bits.toNat = numberAt 8 (8 * slot) payload := by
  have hwidth : Element.size Binary64 = 8 := rfl
  have hdecode (bytes : List UInt8) : (Element.decode bytes : Binary64) = decodeBinary64 bytes :=
    rfl
  rw [getElem?_elementsOf, hwidth, hdecode, Nat.mul_comm] at h
  split at h
  · have hlen : ((payload.drop (8 * slot)).take 8).length = 8 := by
      rw [List.length_take, List.length_drop]
      omega
    rw [← Option.some.inj h, toNat_bits_decodeBinary64 hlen, numberAt]
  · cases h

/-- The bits of a pair of a payload lie in its slot, those of the real part first. -/
theorem bits_of_getElem?_complex {count slot : Nat} {payload : List UInt8} {z : Complex128}
    (hsize : count * 16 ≤ payload.length)
    (h : (elementsOf Complex128 count payload)[slot]? = some z) :
    z.re.bits.toNat = numberAt 8 (16 * slot) payload ∧
      z.im.bits.toNat = numberAt 8 (16 * slot + 8) payload := by
  have hwidth : Element.size Complex128 = 16 := rfl
  have hdecode (bytes : List UInt8) :
      (Element.decode bytes : Complex128) = decodeComplex128 bytes := rfl
  rw [getElem?_elementsOf, hwidth, hdecode, Nat.mul_comm] at h
  split at h
  · have hre : ((payload.drop (16 * slot)).take 16).take 8 = (payload.drop (16 * slot)).take 8 := by
      rw [List.take_take, Nat.min_eq_left (by decide)]
    have him : ((payload.drop (16 * slot)).take 16).drop 8 =
        (payload.drop (16 * slot + 8)).take 8 := by
      rw [List.drop_take, List.drop_drop]
    rw [← Option.some.inj h, decodeComplex128, hre, him, numberAt, numberAt]
    constructor
    · apply toNat_bits_decodeBinary64
      rw [List.length_take, List.length_drop]
      omega
    · apply toNat_bits_decodeBinary64
      rw [List.length_take, List.length_drop]
      omega
  · cases h

/-! ## Parts of the contents -/

/-- The sizes are those that a payload declares. -/
structure SizesOf (payload : List UInt8) (d : Dimensions) : Prop where
  /-- The first number of the payload. -/
  ngvector : (d.ngvector : Int) = integerAt 0 payload
  /-- The second number of the payload. -/
  ngvector2 : (d.ngvector2 : Int) = integerAt 1 payload
  /-- The count of its numbers. -/
  fieldCount : d.fieldCount = payload.length / 4

/-- The slots of the header hold the numbers of a payload, bit for bit. -/
def HeaderOf (payload : List UInt8) (h : Header) : Prop :=
  ∀ slot < 18, ∃ x, h.get? slot = some x ∧ x.bits.toNat = numberAt 8 (8 * slot) payload

/-- The matrix has this shape, and its elements are the pairs of a payload, bit for bit, a column
after the other. -/
structure MatrixOf (nrows ncols : Nat) (payload : List UInt8) (m : ComplexMatrix) : Prop where
  /-- The shape. -/
  shape : m.shape = (nrows, ncols)
  /-- The elements. -/
  get? : ∀ row < nrows, ∀ col < ncols, ∃ z, m.get? row col = some z ∧
    z.re.bits.toNat = numberAt 8 (16 * (col * nrows + row)) payload ∧
    z.im.bits.toNat = numberAt 8 (16 * (col * nrows + row) + 8) payload

/-- A failure for the given cause or, where there is none, a value of which something holds. -/
def Settled {α : Type} (cause : Option FormatError) (outcome : Except FormatError α)
    (Means : α → Prop) : Prop :=
  match cause with
  | some cause => outcome = .error cause
  | none => ∃ value, outcome = .ok value ∧ Means value

/-! ## The making of the parts -/

theorem ofFields_elementsOf (rows : Nat) (payload : List UInt8) :
    Settled (contentFault rows .dimensions payload)
      (Dimensions.ofFields (elementsOf Int32 (payload.length / 4) payload)) (SizesOf payload) := by
  have hlen := length_elementsOf (α := Int32) (payload.length / 4) payload
  have hslot {slot : Nat} {x : Int32}
      (h : (elementsOf Int32 (payload.length / 4) payload)[slot]? = some x) :
      x.toInt = integerAt slot payload := toInt_of_getElem? h
  rw [contentFault_dimensions]
  generalize elementsOf Int32 (payload.length / 4) payload = fields at *
  match fields with
  | [] | [_] =>
    rw [← hlen, if_pos (show _ < 2 by simp)]
    rfl
  | first :: second :: others =>
    have hfirst : first.toInt = integerAt 0 payload := hslot rfl
    have hsecond : second.toInt = integerAt 1 payload := hslot rfl
    have hcount : others.length + 2 = payload.length / 4 := hlen
    rw [if_neg (by omega), Dimensions.ofFields, ← hfirst, ← hsecond]
    by_cases hpos : 0 < first.toInt ∧ 0 < second.toInt
    · rw [if_pos hpos]
      refine ⟨_, dif_pos hpos, ⟨?_, ?_, hcount⟩⟩
      · rw [← hfirst]
        exact Int.toNat_of_nonneg (Int.le_of_lt hpos.1)
      · rw [← hsecond]
        exact Int.toNat_of_nonneg (Int.le_of_lt hpos.2)
    · rw [if_neg hpos]
      exact dif_neg hpos

theorem ofValues_elementsOf (rows : Nat) (payload : List UInt8) :
    Settled (contentFault rows .header payload)
      (Header.ofValues (elementsOf Binary64 (payload.length / 8) payload)) (HeaderOf payload) := by
  have hlen := length_elementsOf (α := Binary64) (payload.length / 8) payload
  rw [contentFault_of_ne (by decide), elementSize, elementsDue]
  by_cases hcount : payload.length / 8 = 18
  · rw [if_pos hcount]
    refine ⟨_, dif_pos (hlen.trans hcount), fun slot hslot => ?_⟩
    have hlt : slot < (elementsOf Binary64 (payload.length / 8) payload).length := by omega
    have hget := List.getElem?_eq_getElem hlt
    exact ⟨_, hget, bits_of_getElem? (Nat.div_mul_le_self _ 8) hget⟩
  · have hno : (elementsOf Binary64 (payload.length / 8) payload).length ≠ Header.length :=
      fun heq => hcount (hlen.symm.trans heq)
    rw [if_neg hcount, Header.ofValues, dif_neg hno, hlen]
    rfl

/-- Elements take a shape exactly if there are as many as it has places. -/
theorem reshape_eq (kind : RecordKind) (data : List Complex128) {nrows ncols : Nat}
    (h : nrows * ncols < wordLimit) :
    Contents.reshape kind data (nrows, ncols) =
      if filled : data.toArray.size = nrows * ncols then
        .ok ⟨nrows, ncols, data.toArray, filled, h⟩
      else
        .error (.wrongCount kind (nrows * ncols) data.length) := by
  have hshape : checkedShape nrows ncols = .ok (nrows * ncols) := if_pos h
  rw [Contents.reshape, hshape]
  by_cases filled : data.toArray.size = nrows * ncols
  · rw [dif_pos filled]
    simp only [Matrix.ofColumnMajor, dif_pos (And.intro h filled)]
    rfl
  · have hno : ¬ (nrows * ncols < wordLimit ∧ data.toArray.size = nrows * ncols) :=
      fun both => filled both.2
    rw [dif_neg filled]
    simp only [Matrix.ofColumnMajor, dif_neg hno]
    rfl

theorem reshape_elementsOf {rows nrows ncols : Nat} {kind : RecordKind}
    (hsize : elementSize kind = 16) (hdue : elementsDue rows kind = nrows * ncols)
    (hlt : nrows * ncols < wordLimit) (payload : List UInt8) :
    Settled (contentFault rows kind payload)
      (Contents.reshape kind (elementsOf Complex128 (payload.length / 16) payload) (nrows, ncols))
      (MatrixOf nrows ncols payload) := by
  have hlen := length_elementsOf (α := Complex128) (payload.length / 16) payload
  have hkind : kind ≠ .dimensions := by
    rintro rfl
    cases hsize
  rw [contentFault_of_ne hkind, hsize, hdue, reshape_eq _ _ hlt]
  by_cases hcount : payload.length / 16 = nrows * ncols
  · have filled := hlen.trans hcount
    rw [if_pos hcount]
    refine ⟨_, dif_pos filled, ⟨rfl, fun row hrow col hcol => ?_⟩⟩
    have hindex : col * nrows + row < (elementsOf Complex128 (payload.length / 16) payload).length :=
      Matrix.flatIndex_lt ⟨nrows, ncols, _, filled, hlt⟩ hrow hcol
    have hget := List.getElem?_eq_getElem hindex
    refine ⟨_, ?_, bits_of_getElem?_complex (Nat.div_mul_le_self _ 16) hget⟩
    rw [Matrix.get?, if_pos ⟨hrow, hcol⟩]
    exact List.getElem?_toArray.trans hget
  · rw [if_neg hcount, dif_neg (by rw [List.size_toArray, hlen]; exact hcount), hlen]
    rfl

end Screening
