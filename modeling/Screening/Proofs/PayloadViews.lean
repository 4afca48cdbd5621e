import Screening.Probe
import Screening.Proofs.PayloadContents
import Screening.Proofs.Probing

/-!
# A payload under several types

The bytes of a payload are the same under every type that is laid over them.  Nothing is lost on the
way to elements and back, and where one type is twice as wide as another, an element of the one is
two elements of the other.

* `encodeElements_elementsOf`, `elementsOf_encodeElements` — the two ways between bytes and elements
  are inverse.
* `Lossless α size` — what that means for payloads, with the refusal of those that do not fit.
* `ArePairs`, `AreHalves` — elements that are two narrower ones each.
* `TypedReadings source` — each record of a source is the same under a type whether it is read so,
  read and then decoded, or counted by a probe.
* `payload_views` — all of it.
-/

set_option autoImplicit false

namespace Screening

/-! ## Bytes and elements -/

section Elements

variable {α : Type} [Element α]

/-- The elements of a payload are laid out as the bytes that they were read from. -/
theorem encodeElements_elementsOf {count : Nat} {bytes : List UInt8}
    (h : count * Element.size α ≤ bytes.length) :
    encodeElements (elementsOf α count bytes) = bytes.take (count * Element.size α) := by
  induction count generalizing bytes with
  | zero => rw [Nat.zero_mul, List.take_zero]; rfl
  | succ count ih =>
    rw [Nat.succ_mul] at h
    have hfirst : (bytes.take (Element.size α)).length = Element.size α := by
      rw [List.length_take]
      omega
    have hrest : count * Element.size α ≤ (bytes.drop (Element.size α)).length := by
      rw [List.length_drop]
      omega
    have hcons (x : α) (rest : List α) :
        encodeElements (x :: rest) = Element.encode x ++ encodeElements rest := rfl
    rw [elementsOf, hcons, Element.encode_decode _ hfirst, ih hrest, Nat.succ_mul,
      Nat.add_comm (count * _), List.take_add]

/-- Elements are read back from their bytes, whatever follows. -/
theorem elementsOf_encodeElements (elements : List α) (rest : List UInt8) :
    elementsOf α elements.length (encodeElements elements ++ rest) = elements := by
  induction elements with
  | nil => rfl
  | cons x later ih =>
    have hwidth : (Element.encode x).length = Element.size α := Element.length_encode x
    have hcons : encodeElements (x :: later) = Element.encode x ++ encodeElements later := rfl
    rw [List.length_cons, elementsOf, hcons, List.append_assoc, List.take_left' hwidth,
      List.drop_left' hwidth, Element.decode_encode, ih]

end Elements

/-- Payloads and lists of elements of a type are two forms of one thing, `size` bytes to an
element. -/
structure Lossless (α : Type) [Element α] (size : Nat) : Prop where
  /-- A payload of whole elements is read as so many elements, and is what they are laid out as. -/
  whole : ∀ (record : Nat) (payload : List UInt8), size ∣ payload.length →
    ∃ elements : List α, decodeElements α record payload = .ok elements ∧
      elements.length = payload.length / size ∧ encodeElements elements = payload
  /-- Any other payload is refused. -/
  broken : ∀ (record : Nat) (payload : List UInt8), ¬ size ∣ payload.length →
    decodeElements α record payload = .error (.malformedPayloadSize record payload.length size)
  /-- Elements are read back from what they are laid out as, each with all its bits. -/
  back : ∀ (record : Nat) (elements : List α),
    decodeElements α record (encodeElements elements) = .ok elements

theorem lossless (α : Type) [Element α] : Lossless α (Element.size α) where
  whole record payload h := by
    have hmod := Nat.mod_eq_zero_of_dvd h
    refine ⟨elementsOf α (payload.length / Element.size α) payload, ?_, length_elementsOf _ _, ?_⟩
    · rw [decodeElements_eq, if_pos hmod]
    · have hall : payload.length / Element.size α * Element.size α = payload.length :=
        Nat.div_mul_cancel h
      rw [encodeElements_elementsOf (Nat.le_of_eq hall), hall, List.take_length]
  broken record payload h := by
    rw [decodeElements_eq, if_neg fun hmod => h (Nat.dvd_of_mod_eq_zero hmod)]
  back record elements := by
    have hback := elementsOf_encodeElements elements []
    rw [List.append_nil] at hback
    rw [decodeElements_eq, length_encodeElements, Nat.mul_mod_left, if_pos rfl,
      Nat.mul_div_cancel _ (Element.size_pos α), hback]

/-! ## Wide elements and narrow ones -/

/-- Each pair is made of the two numbers at twice its place. -/
structure ArePairs (pairs : List Complex128) (numbers : List Binary64) : Prop where
  /-- There are two numbers to a pair. -/
  length : numbers.length = 2 * pairs.length
  /-- The first is the real part. -/
  re : ∀ k, pairs[k]?.map Complex128.re = numbers[2 * k]?
  /-- The second is the imaginary part. -/
  im : ∀ k, pairs[k]?.map Complex128.im = numbers[2 * k + 1]?

/-- The bits of each number are those of the two integers at twice its place. -/
structure AreHalves (numbers : List Binary64) (integers : List Int32) : Prop where
  /-- There are two integers to a number. -/
  length : integers.length = 2 * numbers.length
  /-- The first holds the low half of the bits, the second the high half. -/
  bits : ∀ k x, numbers[k]? = some x → ∃ low high,
    integers[2 * k]? = some low ∧ integers[2 * k + 1]? = some high ∧
      x.bits.toNat = low.toUInt32.toNat + UInt32.size * high.toUInt32.toNat

/-- Pairs and numbers read from the same bytes. -/
theorem arePairs_elementsOf (count : Nat) (bytes : List UInt8) :
    ArePairs (elementsOf Complex128 count bytes) (elementsOf Binary64 (2 * count) bytes) where
  length := by rw [length_elementsOf, length_elementsOf]
  re k := by
    have hpair : Element.size Complex128 = 16 := rfl
    have hnumber : Element.size Binary64 = 8 := rfl
    rw [getElem?_elementsOf, getElem?_elementsOf, hpair, hnumber]
    by_cases hk : k < count
    · have hplace : 2 * k * 8 = k * 16 := by omega
      have htake : ((bytes.drop (k * 16)).take 16).take 8 = (bytes.drop (k * 16)).take 8 := by
        rw [List.take_take, Nat.min_eq_left (by decide)]
      rw [if_pos hk, if_pos (by omega), hplace, ← htake]
      rfl
    · rw [if_neg hk, if_neg (by omega)]
      rfl
  im k := by
    have hpair : Element.size Complex128 = 16 := rfl
    have hnumber : Element.size Binary64 = 8 := rfl
    rw [getElem?_elementsOf, getElem?_elementsOf, hpair, hnumber]
    by_cases hk : k < count
    · have hplace : (2 * k + 1) * 8 = k * 16 + 8 := by omega
      have hdrop : ((bytes.drop (k * 16)).take 16).drop 8 =
          (bytes.drop (k * 16 + 8)).take 8 := by
        rw [List.drop_take, List.drop_drop]
      rw [if_pos hk, if_pos (by omega), hplace, ← hdrop]
      rfl
    · rw [if_neg hk, if_neg (by omega)]
      rfl

/-- A number of eight bytes is put together from its low and its high half. -/
theorem numberAt_eight {offset : Nat} {bytes : List UInt8} (h : offset + 4 ≤ bytes.length) :
    numberAt 8 offset bytes =
      numberAt 4 offset bytes + UInt32.size * numberAt 4 (offset + 4) bytes := by
  have hlow : ((bytes.drop offset).take 4).length = 4 := by
    rw [List.length_take, List.length_drop]
    omega
  have hhalves : (bytes.drop offset).take 8 =
      (bytes.drop offset).take 4 ++ (bytes.drop (offset + 4)).take 4 := by
    rw [← List.drop_drop, ← List.take_add]
  rw [numberAt, hhalves, LittleEndian.toNat_append, hlow]
  rfl

/-- The bits of an integer are those in its slot. -/
theorem toNat_toUInt32_decodeInt32 {bytes : List UInt8} (h : bytes.length = 4) :
    (decodeInt32 bytes).toUInt32.toNat = LittleEndian.toNat bytes := by
  have hlt : LittleEndian.toNat bytes < UInt32.size := markerLength_lt h
  show (UInt32.ofNat (LittleEndian.toNat bytes)).toNat = _
  rw [UInt32.toNat_ofNat', Nat.mod_eq_of_lt hlt]

theorem exists_integer {count : Nat} {bytes : List UInt8} (h : count * 4 ≤ bytes.length)
    (slot : Nat) (hslot : slot < count) :
    ∃ n, (elementsOf Int32 count bytes)[slot]? = some n ∧
      n.toUInt32.toNat = numberAt 4 (4 * slot) bytes := by
  have hwidth : Element.size Int32 = 4 := rfl
  refine ⟨decodeInt32 ((bytes.drop (slot * 4)).take 4), ?_, ?_⟩
  · rw [getElem?_elementsOf, if_pos hslot, hwidth]
    rfl
  · have hlen : ((bytes.drop (slot * 4)).take 4).length = 4 := by
      rw [List.length_take, List.length_drop]
      omega
    rw [toNat_toUInt32_decodeInt32 hlen, numberAt, Nat.mul_comm]

/-- Numbers and integers read from the same bytes. -/
theorem areHalves_elementsOf {count : Nat} {bytes : List UInt8} (h : count * 8 ≤ bytes.length) :
    AreHalves (elementsOf Binary64 count bytes) (elementsOf Int32 (2 * count) bytes) where
  length := by rw [length_elementsOf, length_elementsOf]
  bits k x hx := by
    have hk : k < count := by
      have := (List.getElem?_eq_some_iff.1 hx).1
      rwa [length_elementsOf] at this
    have hintegers : 2 * count * 4 ≤ bytes.length := by omega
    obtain ⟨low, hlow, lowBits⟩ :=
      exists_integer hintegers (2 * k) (by omega)
    obtain ⟨high, hhigh, highBits⟩ :=
      exists_integer hintegers (2 * k + 1) (by omega)
    refine ⟨low, high, hlow, hhigh, ?_⟩
    have hlowPlace : 4 * (2 * k) = 8 * k := by omega
    have hhighPlace : 4 * (2 * k + 1) = 8 * k + 4 := by omega
    have hlowEnd : 8 * k + 4 ≤ bytes.length := by omega
    rw [bits_of_getElem? h hx, lowBits, highBits, hlowPlace, hhighPlace]
    exact numberAt_eight hlowEnd

/-- What is read as pairs is read as numbers too, two to a pair. -/
theorem numbers_of_pairs {record : Nat} {payload : List UInt8} {pairs : List Complex128}
    (h : decodeElements Complex128 record payload = .ok pairs) :
    ∃ numbers, decodeElements Binary64 record payload = .ok numbers ∧ ArePairs pairs numbers := by
  have hpair : Element.size Complex128 = 16 := rfl
  have hnumber : Element.size Binary64 = 8 := rfl
  rw [decodeElements_eq, hpair] at h
  split at h
  · rename_i hmod
    have hcount : payload.length / 8 = 2 * (payload.length / 16) := by omega
    cases h
    refine ⟨_, ?_, arePairs_elementsOf _ payload⟩
    rw [decodeElements_eq, hnumber, if_pos (by omega), hcount]
  · cases h

/-- What is read as numbers is read as integers too, two to a number. -/
theorem integers_of_numbers {record : Nat} {payload : List UInt8} {numbers : List Binary64}
    (h : decodeElements Binary64 record payload = .ok numbers) :
    ∃ integers, decodeElements Int32 record payload = .ok integers ∧
      AreHalves numbers integers := by
  have hnumber : Element.size Binary64 = 8 := rfl
  have hinteger : Element.size Int32 = 4 := rfl
  rw [decodeElements_eq, hnumber] at h
  split at h
  · rename_i hmod
    have hcount : payload.length / 4 = 2 * (payload.length / 8) := by omega
    cases h
    have hall : payload.length / 8 * 8 ≤ payload.length := by omega
    refine ⟨_, ?_, areHalves_elementsOf hall⟩
    rw [decodeElements_eq, hinteger, if_pos (by omega), hcount]
  · cases h

/-! ## Types chosen at run time -/

theorem length_decoded {α : Type} [Element α] {wrap : List α → TypedPayload}
    (hwrap : ∀ elements, (wrap elements).length = elements.length) (record : Nat)
    (payload : List UInt8) :
    (wrap <$> decodeElements α record payload).toOption.map TypedPayload.length =
      if payload.length % Element.size α = 0 then some (payload.length / Element.size α)
      else none := by
  rw [decodeElements_eq]
  split
  · exact congrArg some ((hwrap _).trans (length_elementsOf _ _))
  · rfl

/-- **A probe counts what a type makes of the payload**, if the type makes something of it. -/
theorem ProbedRecord.count_eq_length (found : Record) (previewSize : Nat) (type : ElementType) :
    (ofRecord found previewSize).count type =
      (found.decodeAs (some type)).toOption.map TypedPayload.length := by
  rw [count_ofRecord]
  cases type with
  | int32 => exact (length_decoded (α := Int32) (fun _ => rfl) _ _).symm
  | float64 => exact (length_decoded (α := Binary64) (fun _ => rfl) _ _).symm
  | complex128 => exact (length_decoded (α := Complex128) (fun _ => rfl) _ _).symm

namespace Reader

/-- A reader after so many readings of a record, whatever they gave. -/
def afterRecords (count : Nat) (r : Reader) : Reader := (run (List.replicate count .record) r).2

/-- The reading of a record that comes after so many others finds this one. -/
def Finds (r : Reader) (count : Nat) (found : Record) : Prop :=
  ∃ after, readRecord (afterRecords count r) = .ok (some found) after

theorem afterRecords_succ {r r' : Reader} {found : Option Record}
    (h : readRecord r = .ok found r') (count : Nat) :
    afterRecords (count + 1) r = afterRecords count r' := by
  have hrun : Step.record.run r = .ok (Answer.ofOption .record found) r' := by
    rw [Step.run, map_eq_pure_bind, Reading.bind_ok h]
    rfl
  have hobserve : observe .record r =
      (⟨.ok (Answer.ofOption .record found), r'.recordsRead, r'.position⟩, r') := by
    rw [observe, hrun]
  rw [afterRecords, List.replicate_succ, run, hobserve]
  rfl

/-- A record under a type is what the type makes of the record. -/
theorem readAs_of_readRecord {r r' : Reader} {found : Record}
    (h : readRecord r = .ok (some found) r') (type : Option ElementType) :
    readAs type r = Reading.ofFormat (some <$> found.decodeAs type) r' := by
  rw [readAs, readWith, Reading.bind_ok h]
  exact Reading.map_ofFormat rfl

/-- **Every entry of a probe is of the record that a reader finds in its place.** -/
theorem finds_of_probeUpTo {previewSize limit : Nat} {r r' : Reader} {entries : List ProbedRecord}
    (h : probeUpTo previewSize limit r = .ok entries r') {place : Nat} {entry : ProbedRecord}
    (hentry : entries[place]? = some entry) :
    ∃ found, r.Finds place found ∧ entry = .ofRecord found previewSize := by
  induction limit generalizing r entries place with
  | zero =>
    cases h
    cases hentry
  | succ limit ih =>
    rw [probeUpTo_readRecord] at h
    cases hread : readRecord r with
    | error cause s =>
      rw [hread] at h
      cases h
    | ok found s =>
      rw [hread] at h
      cases found with
      | none =>
        cases h
        cases hentry
      | some first =>
        obtain ⟨later, hlater, rfl⟩ := Reading.exists_of_map_ok h
        cases place with
        | zero =>
          cases hentry
          exact ⟨first, ⟨s, hread⟩, rfl⟩
        | succ place =>
          obtain ⟨found, ⟨after, hfound⟩, heq⟩ := ih hlater hentry
          exact ⟨found, ⟨after, by rw [afterRecords_succ hread, hfound]⟩, heq⟩

/-- A probe that is limited to records which are there reports each of them. -/
theorem probeUpTo_of_finds (previewSize : Nat) {count : Nat} {r : Reader}
    (h : ∀ place < count, ∃ found, r.Finds place found) :
    ∃ entries r', probeUpTo previewSize count r = .ok entries r' ∧ entries.length = count := by
  induction count generalizing r with
  | zero => exact ⟨[], r, rfl, rfl⟩
  | succ count ih =>
    obtain ⟨first, s, hread⟩ := h 0 (Nat.succ_pos count)
    have hread' : readRecord r = .ok (some first) s := hread
    obtain ⟨later, r', hlater, hlength⟩ := ih (r := s) fun place hplace => by
      obtain ⟨found, after, hfound⟩ := h (place + 1) (Nat.succ_lt_succ hplace)
      rw [afterRecords_succ hread'] at hfound
      exact ⟨found, after, hfound⟩
    refine ⟨.ofRecord first previewSize :: later, r', ?_, by rw [List.length_cons, hlength]⟩
    rw [probeUpTo_readRecord, hread']
    exact Reading.map_ok _ hlater

end Reader

/-- The records of a source are the same under a type in whatever way they are asked for. -/
structure TypedReadings (source : Source) : Prop where
  /-- Read under a type, a record gives or refuses what it does when decoded afterwards. -/
  readAs : ∀ place found after,
    Reader.readRecord ((Reader.ofSource source).afterRecords place) = .ok (some found) after →
      ∀ type, Reader.readAs type ((Reader.ofSource source).afterRecords place) =
        Reading.ofFormat (some <$> found.decodeAs type) after
  /-- A probe counts the elements of each of its records where there are whole ones. -/
  counts : ∀ limit previewSize entries,
    (probeRecords source limit previewSize).1 = .ok entries →
      ∀ (place : Nat) (entry : ProbedRecord), entries[place]? = some entry →
        ∃ found, (Reader.ofSource source).Finds place found ∧
          ∀ type, entry.count type =
            (found.decodeAs (some type)).toOption.map TypedPayload.length
  /-- There is a probe that reports any record that can be reached. -/
  reached : ∀ count, (∀ place < count, ∃ found, (Reader.ofSource source).Finds place found) →
    ∀ previewSize, ∃ entries,
      (probeRecords source (some count) previewSize).1 = .ok entries ∧ entries.length = count

theorem typedReadings (source : Source) : TypedReadings source where
  readAs _ _ _ h type := Reader.readAs_of_readRecord h type
  counts limit previewSize entries h place entry hentry := by
    have hrun : Reader.probe limit previewSize (Reader.ofSource source) = .ok entries _ :=
      Reading.eq_ok_of_outcome (Prod.ext h rfl)
    obtain ⟨found, hfinds, rfl⟩ := Reader.finds_of_probeUpTo hrun hentry
    exact ⟨found, hfinds, ProbedRecord.count_eq_length found previewSize⟩
  reached count h previewSize := by
    obtain ⟨entries, r', hprobe, hlength⟩ := Reader.probeUpTo_of_finds previewSize h
    refine ⟨entries, ?_, hlength⟩
    have hrun : Reader.probe (some count) previewSize (Reader.ofSource source) =
        .ok entries r' := hprobe
    rw [probeRecords, Reading.outcome, hrun]

/-- **A payload is the same bytes under every type.**  Under each type it is read without loss, or
refused if it does not hold whole elements; its pairs are its numbers two by two, and its numbers
are its integers two by two; and for every record of every source, decoding under a type chosen at
run time, reading under that type and the counts of a probe agree with the elements. -/
theorem payload_views (source : Source) :
    (Lossless Int32 4 ∧ Lossless Binary64 8 ∧ Lossless Complex128 16) ∧
    (∀ record payload pairs, decodeElements Complex128 record payload = .ok pairs →
      ∃ numbers, decodeElements Binary64 record payload = .ok numbers ∧
        ArePairs pairs numbers) ∧
    (∀ record payload numbers, decodeElements Binary64 record payload = .ok numbers →
      ∃ integers, decodeElements Int32 record payload = .ok integers ∧
        AreHalves numbers integers) ∧
    (∀ found : Record,
      found.decodeAs (some .int32) =
        TypedPayload.int32 <$> decodeElements Int32 found.index found.payload ∧
      found.decodeAs (some .float64) =
        TypedPayload.float64 <$> decodeElements Binary64 found.index found.payload ∧
      found.decodeAs (some .complex128) =
        TypedPayload.complex128 <$> decodeElements Complex128 found.index found.payload) ∧
    TypedReadings source :=
  ⟨⟨lossless Int32, lossless Binary64, lossless Complex128⟩, fun _ _ _ => numbers_of_pairs,
    fun _ _ _ => integers_of_numbers, fun _ => ⟨rfl, rfl, rfl⟩, typedReadings source⟩

end Screening
