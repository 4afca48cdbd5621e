import Screening.Contents
import Screening.Proofs.Framing

/-!
# The grammar of a file

What a file is, said of its bytes alone: five frames, each with a payload of the size and with the
numbers that its place calls for.  The sizes come from the first two numbers of the first payload.

* `numberAt`, `integerAt` — the numbers that lie in a payload, by their place.
* `Fits rows kind payload` — the payload is one that its place may hold.
* `Payloads.IsFile` — five payloads that make a file; their bytes are `Payloads.bytes`.
* `fault rows kind bytes` — what is first wrong with the record that should begin with the given
  bytes.
* `FirstFault bytes kind cause` — what is first wrong with a whole stream, and in which record.
-/

set_option autoImplicit false

namespace Screening

/-! ## Numbers by their place -/

/-- The number that `width` bytes spell from an offset on, the least significant first. -/
def numberAt (width offset : Nat) (bytes : List UInt8) : Nat :=
  LittleEndian.toNat ((bytes.drop offset).take width)

/-- The signed 32-bit number in a slot, in two's complement. -/
def integerAt (slot : Nat) (bytes : List UInt8) : Int :=
  Int.bmod (numberAt 4 (4 * slot) bytes) UInt32.size

/-! ## Payloads that a place may hold -/

/-- A payload is one that a record of the kind may hold in a file with that many G-vectors. -/
def Fits (rows : Nat) (kind : RecordKind) (payload : List UInt8) : Prop :=
  match kind with
  | .dimensions =>
    payload.length % 4 = 0 ∧ 8 ≤ payload.length ∧ 0 < integerAt 0 payload ∧ 0 < integerAt 1 payload
  | .header => payload.length = 144
  | .wing => payload.length = 48 * rows
  | .cwing => payload.length = 48 * rows
  | .response => payload.length = 16 * (rows * rows)

instance : (rows : Nat) → (kind : RecordKind) → (payload : List UInt8) →
    Decidable (Fits rows kind payload)
  | _, .dimensions, payload => inferInstanceAs (Decidable (payload.length % 4 = 0 ∧
      8 ≤ payload.length ∧ 0 < integerAt 0 payload ∧ 0 < integerAt 1 payload))
  | _, .header, payload => inferInstanceAs (Decidable (payload.length = 144))
  | rows, .wing, payload => inferInstanceAs (Decidable (payload.length = 48 * rows))
  | rows, .cwing, payload => inferInstanceAs (Decidable (payload.length = 48 * rows))
  | rows, .response, payload => inferInstanceAs (Decidable (payload.length = 16 * (rows * rows)))

/-- A payload for each of the records. -/
abbrev Payloads := RecordKind → List UInt8

namespace Payloads

/-- The number of G-vectors, the first number of the first payload. -/
def rows (p : Payloads) : Nat := (integerAt 0 (p .dimensions)).toNat

/-- The bytes of the records of some kinds, one behind the other. -/
def bytes (p : Payloads) (kinds : List RecordKind) : List UInt8 :=
  kinds.flatMap fun kind => frame (p kind)

/-- The payload of a kind has a length that a marker can hold, and is one that its place may
hold. -/
def Holds (p : Payloads) (kind : RecordKind) : Prop :=
  (p kind).length < UInt32.size ∧ Fits p.rows kind (p kind)

/-- Every payload is one that its place may hold. -/
def IsFile (p : Payloads) : Prop := ∀ kind, p.Holds kind

end Payloads

/-! ## Faults -/

/-- The bytes of one element of the record of a kind. -/
def elementSize : RecordKind → Nat
  | .dimensions => 4
  | .header => 8
  | .wing => 16
  | .cwing => 16
  | .response => 16

/-- The number of elements of the record of a kind; of the first record, the fewest. -/
def elementsDue (rows : Nat) : RecordKind → Nat
  | .dimensions => 2
  | .header => 18
  | .wing => 3 * rows
  | .cwing => 3 * rows
  | .response => rows * rows

/-- What is wrong with a payload of whole elements: their number, or that sizes are not positive. -/
def contentFault (rows : Nat) (kind : RecordKind) (payload : List UInt8) : Option FormatError :=
  let found := payload.length / elementSize kind
  let miscounted := FormatError.wrongCount kind (elementsDue rows kind) found
  match kind with
  | .dimensions =>
    if found < elementsDue rows .dimensions then
      some miscounted
    else if 0 < integerAt 0 payload ∧ 0 < integerAt 1 payload then
      none
    else
      some (.invalidDimensions (integerAt 0 payload) (integerAt 1 payload))
  | kind => if found = elementsDue rows kind then none else some miscounted

/-- What is first wrong with the record of a kind that should begin with the given bytes, tested
from the front: that there are none, that they end within the leading marker, within the payload or
within the trailing marker, that the markers differ, that the elements are not whole, and what the
payload holds. -/
def fault (rows : Nat) (kind : RecordKind) (bytes : List UInt8) : Option FormatError :=
  let length := announced bytes
  let body := bytes.drop markerSize
  let tail := body.drop length
  if bytes = [] then
    some (.missing kind)
  else if bytes.length < markerSize then
    some (.truncatedRecord kind.index markerSize bytes.length)
  else if body.length < length then
    some (.truncatedRecord kind.index length body.length)
  else if tail.length < markerSize then
    some (.truncatedRecord kind.index markerSize tail.length)
  else if announced tail ≠ length then
    some (.recordSizeMismatch kind.index length (announced tail))
  else if length % elementSize kind ≠ 0 then
    some (.malformedPayloadSize kind.index length (elementSize kind))
  else
    contentFault rows kind (body.take length)

/-- The records that come before the one of a kind. -/
def RecordKind.before (kind : RecordKind) : List RecordKind :=
  RecordKind.sequence.take (kind.index - 1)

/-- The first record of a stream that is at fault is the one of this kind, for this cause: those
before it lie one behind the other from the front and are as they should be, and the fault is found
in what follows them. -/
def FirstFault (bytes : List UInt8) (kind : RecordKind) (cause : FormatError) : Prop :=
  ∃ (p : Payloads) (rest : List UInt8), bytes = p.bytes kind.before ++ rest ∧
    (∀ earlier ∈ kind.before, p.Holds earlier) ∧ fault p.rows kind rest = some cause

/-! ## A fault is what does not fit -/

/-- The first payload has to hold two numbers at least, and the first two have to be positive. -/
theorem contentFault_dimensions (rows : Nat) (payload : List UInt8) :
    contentFault rows .dimensions payload =
      if payload.length / 4 < 2 then
        some (.wrongCount .dimensions 2 (payload.length / 4))
      else if 0 < integerAt 0 payload ∧ 0 < integerAt 1 payload then
        none
      else
        some (.invalidDimensions (integerAt 0 payload) (integerAt 1 payload)) := rfl

/-- Of every other payload only the number of its elements matters. -/
theorem contentFault_of_ne {kind : RecordKind} (h : kind ≠ .dimensions) (rows : Nat)
    (payload : List UInt8) :
    contentFault rows kind payload =
      if payload.length / elementSize kind = elementsDue rows kind then
        none
      else
        some (.wrongCount kind (elementsDue rows kind) (payload.length / elementSize kind)) := by
  cases kind with
  | dimensions => exact absurd rfl h
  | header | wing | cwing | response => rfl

/-- A payload that is as it should be holds whole elements. -/
theorem Fits.length_mod {rows : Nat} {kind : RecordKind} {payload : List UInt8}
    (h : Fits rows kind payload) : payload.length % elementSize kind = 0 := by
  cases kind with
  | dimensions => exact h.1
  | header | wing | cwing | response =>
    have hlen : payload.length = _ := h
    rw [elementSize]
    omega

theorem contentFault_eq_none_iff {rows : Nat} {kind : RecordKind} {payload : List UInt8}
    (h : payload.length % elementSize kind = 0) :
    contentFault rows kind payload = none ↔ Fits rows kind payload := by
  cases kind with
  | dimensions =>
    have hmod : payload.length % 4 = 0 := h
    rw [contentFault_dimensions]
    by_cases hcount : payload.length / 4 < 2
    · rw [if_pos hcount]
      refine ⟨nofun, fun hfits => ?_⟩
      have := hfits.2.1
      omega
    by_cases hpos : 0 < integerAt 0 payload ∧ 0 < integerAt 1 payload
    · rw [if_neg hcount, if_pos hpos]
      exact ⟨fun _ => ⟨hmod, by omega, hpos⟩, fun _ => rfl⟩
    · rw [if_neg hcount, if_neg hpos]
      exact ⟨nofun, fun hfits => absurd hfits.2.2 hpos⟩
  | header | wing | cwing | response =>
    rw [contentFault_of_ne (by decide), ite_eq_left_iff]
    simp only [reduceCtorEq, imp_false, Classical.not_not]
    simp only [elementSize, elementsDue, Fits] at h ⊢
    omega

/-- What is wrong with a payload: that its elements are not whole, or what they are. -/
def payloadFault (rows : Nat) (kind : RecordKind) (payload : List UInt8) : Option FormatError :=
  if payload.length % elementSize kind = 0 then
    contentFault rows kind payload
  else
    some (.malformedPayloadSize kind.index payload.length (elementSize kind))

theorem payloadFault_eq_none_iff {rows : Nat} {kind : RecordKind} {payload : List UInt8} :
    payloadFault rows kind payload = none ↔ Fits rows kind payload := by
  rw [payloadFault]
  split
  · exact contentFault_eq_none_iff (by assumption)
  · rename_i hmod
    exact ⟨nofun, fun hfits => absurd hfits.length_mod hmod⟩

/-- What is wrong with a record is that there is none, that it is badly framed, or its payload. -/
theorem fault_eq (rows : Nat) (kind : RecordKind) (bytes : List UInt8) :
    fault rows kind bytes = match framing kind.index bytes with
      | .ended => some (.missing kind)
      | .broken cause => some cause
      | .whole payload => payloadFault rows kind payload := by
  simp only [fault, framing, framingBody]
  generalize announced bytes = length, bytes.drop markerSize = body
  by_cases hnil : bytes = []
  · rw [if_pos hnil, if_pos hnil]
  rw [if_neg hnil, if_neg hnil]
  by_cases hmarker : bytes.length < markerSize
  · rw [if_pos hmarker, if_pos hmarker]
  rw [if_neg hmarker, if_neg hmarker]
  by_cases hbody : body.length < length
  · rw [if_pos hbody, if_pos hbody]
  rw [if_neg hbody, if_neg hbody]
  by_cases htail : (body.drop length).length < markerSize
  · rw [if_pos htail, if_pos htail]
  rw [if_neg htail, if_neg htail]
  by_cases hsame : announced (body.drop length) = length
  · have hlen : (body.take length).length = length := by
      rw [List.length_take, Nat.min_eq_left (Nat.le_of_not_lt hbody)]
    rw [if_neg (not_not_intro hsame), if_pos hsame]
    dsimp only
    rw [payloadFault, hlen, ite_not]
  · rw [if_pos hsame, if_neg hsame]

/-- Nothing is wrong with a record exactly if its frame is there and its payload fits. -/
theorem fault_eq_none_iff {rows : Nat} {kind : RecordKind} {bytes : List UInt8} :
    fault rows kind bytes = none ↔
      ∃ payload, framing kind.index bytes = .whole payload ∧ Fits rows kind payload := by
  rw [fault_eq]
  cases framing kind.index bytes with
  | ended => simp
  | broken cause => simp
  | whole payload => simp [payloadFault_eq_none_iff]

/-- The first record does not depend on the number of G-vectors, which it is the one to say. -/
theorem fault_dimensions (rows rows' : Nat) (bytes : List UInt8) :
    fault rows .dimensions bytes = fault rows' .dimensions bytes := by
  rw [fault_eq, fault_eq]
  cases framing RecordKind.dimensions.index bytes <;> rfl

/-! ## There is only one first fault -/

namespace Payloads

variable {p q : Payloads}

theorem bytes_cons (kind : RecordKind) (kinds : List RecordKind) :
    p.bytes (kind :: kinds) = frame (p kind) ++ p.bytes kinds := rfl

theorem bytes_append (first second : List RecordKind) :
    p.bytes (first ++ second) = p.bytes first ++ p.bytes second := List.flatMap_append ..

/-- Records are determined by their bytes, and so is what follows them. -/
theorem eq_of_bytes_append {kinds : List RecordKind} {rest rest' : List UInt8}
    (hp : ∀ kind ∈ kinds, p.Holds kind) (hq : ∀ kind ∈ kinds, q.Holds kind)
    (h : p.bytes kinds ++ rest = q.bytes kinds ++ rest') :
    (∀ kind ∈ kinds, p kind = q kind) ∧ rest = rest' := by
  induction kinds with
  | nil => exact ⟨fun _ hmem => absurd hmem List.not_mem_nil, h⟩
  | cons kind kinds ih =>
    rw [bytes_cons, bytes_cons, List.append_assoc, List.append_assoc] at h
    obtain ⟨hpk, hp⟩ := List.forall_mem_cons.1 hp
    obtain ⟨hqk, hq⟩ := List.forall_mem_cons.1 hq
    obtain ⟨hkind, hrest⟩ := frame_append_inj hpk.1 hqk.1 h
    obtain ⟨hkinds, hrest'⟩ := ih hp hq hrest
    exact ⟨List.forall_mem_cons.2 ⟨hkind, hkinds⟩, hrest'⟩

/-- Families that agree on the records before some kind see the same faults in it. -/
theorem fault_congr {kind : RecordKind} (h : ∀ earlier ∈ kind.before, p earlier = q earlier)
    (bytes : List UInt8) : fault p.rows kind bytes = fault q.rows kind bytes := by
  cases kind with
  | dimensions => exact fault_dimensions _ _ _
  | header | wing | cwing | response =>
    rw [rows, rows, h .dimensions (by decide)]

end Payloads

theorem fault_frame_append {p : Payloads} {kind : RecordKind} (h : p.Holds kind)
    (rest : List UInt8) : fault p.rows kind (frame (p kind) ++ rest) = none :=
  fault_eq_none_iff.2 ⟨p kind, framing_frame_append h.1 _ rest, h.2⟩

/-- Where some record is the first at fault, no records lie that are as they should be and go on to
that one. -/
theorem FirstFault.not_prefix {bytes : List UInt8} {kind : RecordKind} {cause : FormatError}
    (h : FirstFault bytes kind cause) {q : Payloads} {kinds : List RecordKind}
    (hkinds : kind.before ++ [kind] <+: kinds) (hq : ∀ other ∈ kinds, q.Holds other) :
    ¬ q.bytes kinds <+: bytes := by
  rintro ⟨later, hlater⟩
  obtain ⟨p, rest, hbytes, hp, hfault⟩ := h
  obtain ⟨more, rfl⟩ := hkinds
  have hbefore : ∀ other ∈ kind.before, q.Holds other := fun other hmem =>
    hq other (List.mem_append_left _ (List.mem_append_left _ hmem))
  have hkind : q.Holds kind := hq kind (by simp)
  rw [hbytes, Payloads.bytes_append, Payloads.bytes_append, List.append_assoc,
    List.append_assoc] at hlater
  obtain ⟨hagree, hrest⟩ := Payloads.eq_of_bytes_append hbefore hp hlater
  have hframe : q.bytes [kind] = frame (q kind) := List.append_nil _
  rw [← Payloads.fault_congr hagree, ← hrest, hframe, fault_frame_append hkind] at hfault
  cases hfault

theorem before_append_prefix_sequence (kind : RecordKind) :
    kind.before ++ [kind] <+: RecordKind.sequence := by
  cases kind <;> decide

theorem before_append_prefix_before {kind kind' : RecordKind} (h : kind.index < kind'.index) :
    kind.before ++ [kind] <+: kind'.before := by
  revert h
  cases kind <;> cases kind' <;> decide

/-- A record that comes later is not the first at fault as well. -/
theorem FirstFault.not_lt {bytes : List UInt8} {kind kind' : RecordKind}
    {cause cause' : FormatError} (h : FirstFault bytes kind cause)
    (h' : FirstFault bytes kind' cause') : ¬ kind.index < kind'.index := by
  intro hlt
  obtain ⟨q, rest, hbytes, hq, -⟩ := h'
  exact h.not_prefix (before_append_prefix_before hlt) hq ⟨rest, hbytes.symm⟩

/-- **Only one record is the first at fault, and only for one cause.** -/
theorem FirstFault.unique {bytes : List UInt8} {kind kind' : RecordKind}
    {cause cause' : FormatError} (h : FirstFault bytes kind cause)
    (h' : FirstFault bytes kind' cause') : kind = kind' ∧ cause = cause' := by
  have hindex : kind.index = kind'.index :=
    Nat.le_antisymm (Nat.le_of_not_lt (h'.not_lt h)) (Nat.le_of_not_lt (h.not_lt h'))
  have hkind : kind = kind' :=
    Option.some.inj ((RecordKind.atIndex?_index kind).symm.trans
      (hindex ▸ RecordKind.atIndex?_index kind'))
  subst hkind
  obtain ⟨p, rest, hbytes, hp, hfault⟩ := h
  obtain ⟨q, rest', hbytes', hq, hfault'⟩ := h'
  obtain ⟨hagree, rfl⟩ := Payloads.eq_of_bytes_append hp hq (hbytes.symm.trans hbytes')
  rw [Payloads.fault_congr hagree, hfault'] at hfault
  exact ⟨rfl, (Option.some.inj hfault).symm⟩

end Screening
