import Screening.Binary64
import Screening.Error
import Screening.LittleEndian

/-!
# Elements and the payloads they fill

A payload is read by cutting it into pieces of one element each.  `Element` says what a piece
means, and its laws make reading and writing inverse: `decode_encode` for values and
`encode_decode` for pieces of the right size.

* `elementCount` — how many elements a payload of a given length holds, if they are whole.
* `decodeElements`, `encodeElements` — between payloads and lists of elements.
* `TypedPayload` — a payload read under a type chosen at run time.
-/

set_option autoImplicit false

namespace Screening

/-- A pair of double-precision numbers. -/
structure Complex128 where
  /-- The real part. -/
  re : Binary64
  /-- The imaginary part. -/
  im : Binary64
  deriving DecidableEq, Repr, Inhabited

/-- Equal as numbers in both parts. -/
def Complex128.sameNumber (z w : Complex128) : Bool :=
  z.re.sameNumber w.re && z.im.sameNumber w.im

/-! ## One element -/

/-- A type whose values are laid out in a fixed number of bytes, each run of that many bytes being
the layout of exactly one value. -/
class Element (α : Type) where
  /-- The type as it is named at run time. -/
  elementType : ElementType
  /-- The bytes of a value. -/
  encode : α → List UInt8
  /-- The value that a run of bytes spells. -/
  decode : List UInt8 → α
  /-- Every value takes the bytes of its type. -/
  length_encode : ∀ x : α, (encode x).length = elementType.size
  /-- A value is read back from its bytes. -/
  decode_encode : ∀ x : α, decode (encode x) = x
  /-- The bytes of a value are the ones it was read from. -/
  encode_decode : ∀ bytes : List UInt8, bytes.length = elementType.size →
    encode (decode bytes) = bytes

namespace Element

/-- Bytes of one value. -/
def size (α : Type) [Element α] : Nat := (elementType α).size

theorem size_pos (α : Type) [Element α] : 0 < size α := (elementType α).size_pos

end Element

/-- The four bytes of a signed integer, in two's complement. -/
def encodeInt32 (x : Int32) : List UInt8 := LittleEndian.toBytes 4 x.toUInt32.toNat

/-- The signed integer of four bytes, in two's complement. -/
def decodeInt32 (bytes : List UInt8) : Int32 := (UInt32.ofNat (LittleEndian.toNat bytes)).toInt32

instance : Element Int32 where
  elementType := .int32
  encode := encodeInt32
  decode := decodeInt32
  length_encode _ := LittleEndian.length_toBytes 4 _
  decode_encode x := by
    have h : x.toUInt32.toNat < UInt32.size := x.toUInt32.toNat_lt
    rw [decodeInt32, encodeInt32, LittleEndian.toNat_toBytes h, UInt32.ofNat_toNat]
    rfl
  encode_decode bytes h := by
    have hlt : LittleEndian.toNat bytes < UInt32.size := by
      have := LittleEndian.toNat_lt bytes
      rw [h] at this
      exact this
    have back : (decodeInt32 bytes).toUInt32.toNat = LittleEndian.toNat bytes := by
      show (UInt32.ofNat (LittleEndian.toNat bytes)).toNat = _
      rw [UInt32.toNat_ofNat', Nat.mod_eq_of_lt hlt]
    have width : 4 = bytes.length := h.symm
    rw [encodeInt32, back, width, LittleEndian.toBytes_toNat]

/-- The eight bytes of a double-precision number. -/
def encodeBinary64 (x : Binary64) : List UInt8 := LittleEndian.toBytes 8 x.bits.toNat

/-- The double-precision number of eight bytes. -/
def decodeBinary64 (bytes : List UInt8) : Binary64 := ⟨UInt64.ofNat (LittleEndian.toNat bytes)⟩

theorem decodeBinary64_encodeBinary64 (x : Binary64) : decodeBinary64 (encodeBinary64 x) = x := by
  have h : x.bits.toNat < UInt64.size := x.bits.toNat_lt
  rw [decodeBinary64, encodeBinary64, LittleEndian.toNat_toBytes h, UInt64.ofNat_toNat]

/-- The bits of a number are those that its bytes spell. -/
theorem toNat_bits_decodeBinary64 {bytes : List UInt8} (h : bytes.length = 8) :
    (decodeBinary64 bytes).bits.toNat = LittleEndian.toNat bytes := by
  have hlt : LittleEndian.toNat bytes < UInt64.size := by
    have := LittleEndian.toNat_lt bytes
    rw [h] at this
    exact this
  rw [decodeBinary64, UInt64.toNat_ofNat', Nat.mod_eq_of_lt hlt]

theorem encodeBinary64_decodeBinary64 {bytes : List UInt8} (h : bytes.length = 8) :
    encodeBinary64 (decodeBinary64 bytes) = bytes := by
  have width : 8 = bytes.length := h.symm
  rw [encodeBinary64, toNat_bits_decodeBinary64 h, width, LittleEndian.toBytes_toNat]

instance : Element Binary64 where
  elementType := .float64
  encode := encodeBinary64
  decode := decodeBinary64
  length_encode _ := LittleEndian.length_toBytes 8 _
  decode_encode := decodeBinary64_encodeBinary64
  encode_decode _ h := encodeBinary64_decodeBinary64 h

/-- The sixteen bytes of a pair, the real part first. -/
def encodeComplex128 (z : Complex128) : List UInt8 := encodeBinary64 z.re ++ encodeBinary64 z.im

/-- The pair of sixteen bytes, the real part first. -/
def decodeComplex128 (bytes : List UInt8) : Complex128 :=
  ⟨decodeBinary64 (bytes.take 8), decodeBinary64 (bytes.drop 8)⟩

theorem length_encodeBinary64 (x : Binary64) : (encodeBinary64 x).length = 8 :=
  LittleEndian.length_toBytes 8 _

instance : Element Complex128 where
  elementType := .complex128
  encode := encodeComplex128
  decode := decodeComplex128
  length_encode z := by
    rw [encodeComplex128, List.length_append, length_encodeBinary64, length_encodeBinary64]
    rfl
  decode_encode z := by
    rw [decodeComplex128, encodeComplex128, List.take_left' (length_encodeBinary64 z.re),
      List.drop_left' (length_encodeBinary64 z.re), decodeBinary64_encodeBinary64,
      decodeBinary64_encodeBinary64]
  encode_decode bytes h := by
    have width : bytes.length = 16 := h
    have first : (bytes.take 8).length = 8 := by rw [List.length_take]; omega
    have second : (bytes.drop 8).length = 8 := by rw [List.length_drop]; omega
    rw [encodeComplex128, decodeComplex128, encodeBinary64_decodeBinary64 first,
      encodeBinary64_decodeBinary64 second, List.take_append_drop]

/-! ## Payloads -/

/-- The number of elements of `size` bytes in `length` bytes, which must be a multiple of it. -/
def elementCount (record length size : Nat) : Except FormatError Nat :=
  if size = 0 ∨ length % size ≠ 0 then
    .error (.malformedPayloadSize record length size)
  else
    .ok (length / size)

/-- The first `count` elements laid out in a run of bytes. -/
def elementsOf (α : Type) [Element α] : Nat → List UInt8 → List α
  | 0, _ => []
  | count + 1, bytes =>
    Element.decode (bytes.take (Element.size α)) ::
      elementsOf α count (bytes.drop (Element.size α))

/-- A payload as a list of elements; `record` only labels the failure. -/
def decodeElements (α : Type) [Element α] (record : Nat) (payload : List UInt8) :
    Except FormatError (List α) := do
  let count ← elementCount record payload.length (Element.size α)
  return elementsOf α count payload

/-- The bytes of a list of elements, one after the other. -/
def encodeElements {α : Type} [Element α] (elements : List α) : List UInt8 :=
  elements.flatMap Element.encode

@[simp] theorem length_elementsOf {α : Type} [Element α] (count : Nat) (bytes : List UInt8) :
    (elementsOf α count bytes).length = count := by
  induction count generalizing bytes with
  | zero => rfl
  | succ count ih => simp [elementsOf, ih]

@[simp] theorem length_encodeElements {α : Type} [Element α] (elements : List α) :
    (encodeElements elements).length = elements.length * Element.size α := by
  induction elements with
  | nil => simp [encodeElements]
  | cons x rest ih =>
    have split : encodeElements (x :: rest) = Element.encode x ++ encodeElements rest := rfl
    rw [split, List.length_append, ih, Element.length_encode, List.length_cons, Nat.succ_mul,
      Nat.add_comm]
    rfl

/-! ## Types chosen at run time -/

/-- A payload read under a type chosen at run time, or left as bytes. -/
inductive TypedPayload where
  /-- The bytes themselves. -/
  | raw (bytes : List UInt8)
  /-- Signed integers. -/
  | int32 (elements : List Int32)
  /-- Double-precision numbers. -/
  | float64 (elements : List Binary64)
  /-- Pairs of double-precision numbers. -/
  | complex128 (elements : List Complex128)
  deriving DecidableEq, Repr

namespace TypedPayload

/-- A payload read under a type, or left as bytes where there is none. -/
def ofBytes (record : Nat) (payload : List UInt8) :
    Option ElementType → Except FormatError TypedPayload
  | none => .ok (.raw payload)
  | some .int32 => .int32 <$> decodeElements Int32 record payload
  | some .float64 => .float64 <$> decodeElements Binary64 record payload
  | some .complex128 => .complex128 <$> decodeElements Complex128 record payload

/-- The number of elements, or of bytes where there is no type. -/
def length : TypedPayload → Nat
  | raw bytes => bytes.length
  | int32 elements => elements.length
  | float64 elements => elements.length
  | complex128 elements => elements.length

/-- Nothing is in the payload. -/
def isEmpty (p : TypedPayload) : Bool := p.length == 0

/-- The type of the elements; bytes have none. -/
def elementType? : TypedPayload → Option ElementType
  | raw _ => none
  | int32 _ => some .int32
  | float64 _ => some .float64
  | complex128 _ => some .complex128

end TypedPayload

end Screening
