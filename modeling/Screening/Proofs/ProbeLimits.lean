import Screening.Hex
import Screening.Proofs.Probing

/-!
# A probe walks once over the records, and a limit only cuts the walk short

A probe without a limit reports every record of a stream, and the records lie side by side from its
beginning to its end.  A probe with a limit makes the first steps of the same walk: it reports the
first of the same records, and fails where the other one fails, if it gets as far.

* `Hex.Spells text bytes` — a text is the hexadecimal form of some bytes.
* `ProbedRecord.Describes`, `Tiles` — a report of the record at an offset, and reports of all records
  of a stream.
* `Reader.probeUpTo_take`, `Reader.probeUpTo_error_mono`, `Reader.probeUpTo_ended` — a probe with
  another limit: what it reports, where it fails, and that it goes no further than the source.
* `Reader.tiles_of_probeUpTo` — a probe that comes to the end of a source has reported all of it.
* `probe_walks_once` — all of this.
-/

set_option autoImplicit false

namespace Screening

/-! ## Hexadecimal text -/

namespace Hex

/-- The digits, each at the place of its value. -/
def digits : List Char := "0123456789abcdef".toList

/-- A text spells bytes, the two digits of each at twice its place, the high one first. -/
structure Spells (text : String) (bytes : List UInt8) : Prop where
  /-- There is nothing else in the text. -/
  length : text.toList.length = 2 * bytes.length
  /-- The digits of each byte. -/
  digits : ∀ (k : Nat) (byte : UInt8), bytes[k]? = some byte →
    text.toList[2 * k]? = digits[byte.toNat / 16]? ∧
      text.toList[2 * k + 1]? = digits[byte.toNat % 16]?

theorem getElem?_digits {n : Nat} (h : n < 16) : digits[n]? = some (digit n) := by
  have hall : ∀ m < 16, digits[m]? = some (digit m) := by decide
  exact hall n h

theorem getElem?_flatMap_ofByte {bytes : List UInt8} {k : Nat} {byte : UInt8}
    (h : bytes[k]? = some byte) :
    (bytes.flatMap ofByte)[2 * k]? = some (digit (byte.toNat / 16)) ∧
      (bytes.flatMap ofByte)[2 * k + 1]? = some (digit (byte.toNat % 16)) := by
  induction bytes generalizing k with
  | nil => cases h
  | cons first rest ih =>
    cases k with
    | zero =>
      cases h
      exact ⟨rfl, rfl⟩
    | succ k => exact ih h

/-- **Bytes are spelled digit by digit.** -/
theorem spells_ofBytes (bytes : List UInt8) : Spells (ofBytes bytes) bytes where
  length := by rw [String.length_toList, length_ofBytes]
  digits k byte h := by
    have hlt : byte.toNat < 256 := byte.toNat_lt
    obtain ⟨hhigh, hlow⟩ := getElem?_flatMap_ofByte h
    rw [ofBytes, String.toList_ofList, hhigh, hlow, getElem?_digits (by omega),
      getElem?_digits (by omega)]
    exact ⟨rfl, rfl⟩

end Hex

/-! ## Reports of a stream -/

/-- The bytes that the records of a report take, with their markers. -/
def spansOf : List ProbedRecord → Nat
  | [] => 0
  | p :: rest => span p.length + spansOf rest

/-- A report of the record that lies in `bytes` where it says. -/
structure ProbedRecord.Describes (p : ProbedRecord) (bytes : List UInt8) (previewSize : Nat) :
    Prop where
  /-- The frame of a payload of that length lies there, and the payload begins as reported. -/
  payload : ∃ payload, payload.length = p.length ∧ frame payload <+: bytes.drop p.offset ∧
    p.preview = payload.take previewSize
  /-- As much is kept of it as was asked for, or all of it. -/
  length : p.preview.length = min previewSize p.length
  /-- It is shown in hexadecimal digits. -/
  shown : Hex.Spells (Hex.preview p.preview previewSize) p.preview

/-- Reports of all records of a stream, which lie side by side from its beginning to its end. -/
structure Tiles (bytes : List UInt8) (previewSize : Nat) (entries : List ProbedRecord) : Prop where
  /-- Each is numbered, begins where the ones before it end, and describes the record there. -/
  places : ∀ (j : Nat) (p : ProbedRecord), entries[j]? = some p →
    p.index = j + 1 ∧ p.offset = spansOf (entries.take j) ∧ p.Describes bytes previewSize
  /-- They end where the stream ends. -/
  total : spansOf entries = bytes.length
  /-- So there are not many of them. -/
  count : entries.length ≤ bytes.length / 8

section Probed

variable {payloads : List (List UInt8)} {previewSize : Nat}

theorem take_probed (previewSize records position : Nat) (payloads : List (List UInt8))
    (count : Nat) :
    (probed previewSize records position payloads).take count =
      probed previewSize records position (payloads.take count) := by
  induction payloads generalizing records position count with
  | nil => rw [probed, List.take_nil, List.take_nil, probed]
  | cons payload rest ih =>
    cases count with
    | zero => rfl
    | succ count => rw [probed, List.take_succ_cons, ih, List.take_succ_cons, probed]

theorem spansOf_probed (hp : ∀ payload ∈ payloads, payload.length < UInt32.size)
    (records position : Nat) :
    spansOf (probed previewSize records position payloads) = Reader.spanOf payloads := by
  induction payloads generalizing records position with
  | nil => rfl
  | cons payload rest ih =>
    obtain ⟨hlt, hp⟩ := List.forall_mem_cons.1 hp
    have hlength : (ProbedRecord.ofRecord ⟨records + 1, position, payload⟩ previewSize).length =
        payload.length := Record.declaredLength_eq ⟨_, _, payload⟩ hlt
    rw [probed, spansOf, ih hp, hlength, Reader.spanOf]

theorem getElem?_probed (previewSize records position : Nat) (payloads : List (List UInt8))
    (j : Nat) :
    (probed previewSize records position payloads)[j]? = payloads[j]?.map fun payload =>
      .ofRecord ⟨records + j + 1, position + Reader.spanOf (payloads.take j), payload⟩
        previewSize := by
  induction payloads generalizing records position j with
  | nil => rfl
  | cons payload rest ih =>
    cases j with
    | zero => rfl
    | succ j =>
      have hindex : records + 1 + j + 1 = records + (j + 1) + 1 := by omega
      rw [probed, List.getElem?_cons_succ, ih, List.getElem?_cons_succ, List.take_succ_cons,
        Reader.spanOf, Nat.add_assoc position, hindex]

/-- A record among frames is described where it lies. -/
theorem describes_ofRecord {payload bytes : List UInt8} {index offset : Nat}
    (hlt : payload.length < UInt32.size) (hframe : frame payload <+: bytes.drop offset)
    (previewSize : Nat) :
    (ProbedRecord.ofRecord ⟨index, offset, payload⟩ previewSize).Describes bytes previewSize := by
  have hlength : (ProbedRecord.ofRecord ⟨index, offset, payload⟩ previewSize).length =
      payload.length := Record.declaredLength_eq ⟨_, _, payload⟩ hlt
  refine ⟨⟨payload, hlength.symm, hframe, rfl⟩, ?_, ?_⟩
  · rw [hlength]
    exact List.length_take
  · have hall : (payload.take previewSize).take previewSize = payload.take previewSize := by
      rw [List.take_take, Nat.min_self]
    show Hex.Spells (Hex.ofBytes ((payload.take previewSize).take previewSize)) _
    rw [hall]
    exact Hex.spells_ofBytes _

/-- **Frames side by side are tiled by what is reported of them.** -/
theorem tiles_probed (hp : ∀ payload ∈ payloads, payload.length < UInt32.size)
    (previewSize : Nat) :
    Tiles (payloads.flatMap frame) previewSize (probed previewSize 0 0 payloads) where
  places j p h := by
    rw [getElem?_probed, Option.map_eq_some_iff] at h
    obtain ⟨payload, hpayload, rfl⟩ := h
    obtain ⟨hj, hget⟩ := List.getElem?_eq_some_iff.1 hpayload
    have hbefore : ∀ other ∈ payloads.take j, other.length < UInt32.size :=
      fun other hmem => hp other (List.mem_of_mem_take hmem)
    have hframe : frame payload <+:
        (payloads.flatMap frame).drop (Reader.spanOf (payloads.take j)) := by
      have hsplit : payloads = payloads.take j ++ payload :: payloads.drop (j + 1) := by
        rw [← hget, ← List.drop_eq_getElem_cons hj, List.take_append_drop]
      have hflat : payloads.flatMap frame = (payloads.take j).flatMap frame ++
          (frame payload ++ (payloads.drop (j + 1)).flatMap frame) := by
        rw [← List.flatMap_cons, ← List.flatMap_append, ← hsplit]
      rw [hflat, List.drop_left' (Reader.length_flatMap_frame _)]
      exact List.prefix_append _ _
    rw [take_probed, spansOf_probed hbefore]
    refine ⟨?_, Nat.zero_add _, ?_⟩
    · show 0 + j + 1 = j + 1
      omega
    · rw [← Nat.zero_add (Reader.spanOf _)] at hframe
      exact describes_ofRecord (hp payload (List.mem_of_getElem? hpayload)) hframe previewSize
  total := by rw [spansOf_probed hp, Reader.length_flatMap_frame]
  count := by
    have hspan := Reader.eight_mul_length_le_spanOf payloads
    rw [length_probed, Reader.length_flatMap_frame]
    omega

end Probed

/-! ## Another limit -/

namespace Reader

open Reading

variable {r r' : Reader} {previewSize k m n : Nat} {entries : List ProbedRecord} {cause : Error}

/-- **A probe with a smaller limit reports the first of the same records.** -/
theorem probeUpTo_take (hk : k ≤ m) (h : probeUpTo previewSize m r = .ok entries r') :
    ∃ r'', probeUpTo previewSize k r = .ok (entries.take k) r'' := by
  -- Along the smaller limit: both probes make the same step as long as there is one to make.
  induction k generalizing m r entries with
  | zero => exact ⟨r, rfl⟩
  | succ k ih =>
    obtain ⟨m, rfl⟩ : ∃ less, m = less + 1 := ⟨m - 1, by omega⟩
    rw [probeUpTo_readRecord] at h ⊢
    cases hread : readRecord r with
    | error cause r₁ =>
      rw [hread] at h
      cases h
    | ok found r₁ =>
      rw [hread] at h
      cases found with
      | none =>
        cases h
        exact ⟨r', rfl⟩
      | some record =>
        obtain ⟨rest, hrest, rfl⟩ := exists_of_map_ok h
        obtain ⟨r₂, hfewer⟩ := ih (Nat.le_of_succ_le_succ hk) hrest
        exact ⟨r₂, map_ok _ hfewer⟩

/-- **A probe that fails fails under every larger limit.** -/
theorem probeUpTo_error_mono (hk : k ≤ m) (h : probeUpTo previewSize k r = .error cause r') :
    probeUpTo previewSize m r = .error cause r' := by
  induction k generalizing m r with
  | zero => cases h
  | succ k ih =>
    obtain ⟨m, rfl⟩ : ∃ less, m = less + 1 := ⟨m - 1, by omega⟩
    rw [probeUpTo_readRecord] at h ⊢
    cases hread : readRecord r with
    | error cause r₁ =>
      rw [hread] at h
      exact h
    | ok found r₁ =>
      rw [hread] at h
      cases found with
      | none => cases h
      | some record => exact map_error_iff.2 (ih (Nat.le_of_succ_le_succ hk) (map_error_iff.1 h))

/-- **A probe that stops before its limit has come to the end of the source**, so that any limit
beyond what it reports does the same. -/
theorem probeUpTo_ended (hm : entries.length < m) (hn : entries.length < n)
    (h : probeUpTo previewSize m r = .ok entries r') :
    probeUpTo previewSize n r = .ok entries r' := by
  induction m generalizing n r entries with
  | zero => omega
  | succ m ih =>
    obtain ⟨n, rfl⟩ : ∃ less, n = less + 1 := ⟨n - 1, by omega⟩
    rw [probeUpTo_readRecord] at h ⊢
    cases hread : readRecord r with
    | error cause r₁ =>
      rw [hread] at h
      cases h
    | ok found r₁ =>
      rw [hread] at h
      cases found with
      | none => exact h
      | some record =>
        obtain ⟨rest, hrest, rfl⟩ := exists_of_map_ok h
        exact map_ok _
          (ih (Nat.lt_of_succ_lt_succ hm) (Nat.lt_of_succ_lt_succ hn) hrest)

/-! ## The end of the source -/

/-- A probe that stops before its limit leaves nothing in the source. -/
theorem pending_eq_nil_of_probeUpTo (hs : r.source.Steady) (hm : entries.length < m)
    (h : probeUpTo previewSize m r = .ok entries r') : r'.source.pending = [] := by
  induction m generalizing r entries with
  | zero => omega
  | succ m ih =>
    obtain ⟨r₁, moved, hstep⟩ := probeUpTo_succ hs previewSize m
    rw [hstep] at h
    cases hframing : framing (r.recordsRead + 1) r.source.pending with
    | ended =>
      rw [hframing] at h
      cases h
      rw [moved.pending, framing_eq_ended_iff.1 hframing, List.drop_nil]
    | broken cause =>
      rw [hframing] at h
      cases h
    | whole payload =>
      rw [hframing] at h
      obtain ⟨rest, hrest, rfl⟩ := exists_of_map_ok h
      exact ih (moved.source.steady hs) (Nat.lt_of_succ_lt_succ hm) hrest

/-- **A probe that comes to the end of a source has reported all of it.** -/
theorem tiles_of_probeUpTo {source : Source} (steady : source.Steady)
    (hm : entries.length < m) (h : probeUpTo previewSize m (ofSource source) = .ok entries r') :
    Tiles source.pending previewSize entries ∧
      r'.source.taken = source.taken + source.pending.length := by
  obtain ⟨payloads, rest, hp, hpending, rfl, moved⟩ :=
    frames_of_probeUpTo (r := .ofSource source) steady h
  have hrest : rest = [] := by
    have hend := pending_eq_nil_of_probeUpTo (r := .ofSource source) steady hm h
    rwa [moved.pending, hpending, List.drop_left' (length_flatMap_frame payloads)] at hend
  rw [hrest, List.append_nil] at hpending
  change source.pending = payloads.flatMap frame at hpending
  refine ⟨?_, ?_⟩
  · rw [hpending]
    exact tiles_probed hp previewSize
  · rw [moved.source.taken, hpending, length_flatMap_frame]
    rfl

/-- A source holds fewer records than it has bytes. -/
theorem length_lt_recordBound (hs : r.source.Steady)
    (h : probeUpTo previewSize m r = .ok entries r') : entries.length < r.recordBound := by
  obtain ⟨payloads, rest, -, hpending, rfl, -⟩ := frames_of_probeUpTo hs h
  have hspan := eight_mul_length_le_spanOf payloads
  rw [length_probed, recordBound, hpending, List.length_append, length_flatMap_frame]
  omega

/-- The bound on the records of a source cuts nothing short. -/
theorem probeUpTo_of_recordBound_le (hs : r.source.Steady) (hn : r.recordBound ≤ n)
    (previewSize : Nat) :
    probeUpTo previewSize r.recordBound r = probeUpTo previewSize n r := by
  cases h : probeUpTo previewSize r.recordBound r with
  | ok entries r' =>
    have hlt := length_lt_recordBound hs h
    exact (probeUpTo_ended hlt (Nat.lt_of_lt_of_le hlt hn) h).symm
  | error cause r' => exact (probeUpTo_error_mono hn h).symm

/-- A probe whose limit, if it has one, is at least `k` makes a walk of at least `k` steps. -/
theorem probe_eq_probeUpTo (hs : r.source.Steady) {limit : Option Nat}
    (hk : ∀ m ∈ limit, k ≤ m) (previewSize : Nat) :
    ∃ n, k ≤ n ∧ probe limit previewSize r = probeUpTo previewSize n r := by
  cases limit with
  | none =>
    refine ⟨max k r.recordBound, Nat.le_max_left _ _, ?_⟩
    exact probeUpTo_of_recordBound_le hs (Nat.le_max_right _ _) previewSize
  | some m => exact ⟨m, hk m rfl, rfl⟩

/-- A probe takes from its source what the records that it reports take in it. -/
theorem taken_of_probeUpTo (hs : r.source.Steady)
    (h : probeUpTo previewSize m r = .ok entries r') :
    r'.source.taken = r.source.taken + spansOf entries := by
  obtain ⟨payloads, rest, hp, -, rfl, moved⟩ := frames_of_probeUpTo hs h
  rw [moved.source.taken, spansOf_probed hp]

end Reader

/-- Without a limit the frames that make up a source are all reported. -/
theorem probeRecords_frames {source : Source} (steady : source.Steady)
    {payloads : List (List UInt8)} (hp : ∀ payload ∈ payloads, payload.length < UInt32.size)
    (h : source.pending = payloads.flatMap frame) (previewSize : Nat) :
    ∃ r', probeRecords source none previewSize = (.ok (probed previewSize 0 0 payloads), r') := by
  rw [← List.append_nil (payloads.flatMap frame)] at h
  -- One step more than there are frames, so that the walk sees the end of the source.
  obtain ⟨r₁, moved, hend, hrun⟩ :=
    Reader.probeUpTo_frames (r := .ofSource source) steady hp h previewSize 1
  obtain ⟨r₂, -, hstep⟩ := Reader.probeUpTo_succ (moved.source.steady steady) previewSize 0
  rw [framing_eq_ended_iff.2 hend] at hstep
  have hwalk := hrun.trans (Reading.map_ok _ hstep)
  rw [List.append_nil] at hwalk
  have hfew : (probed previewSize 0 0 payloads).length < payloads.length + 1 := by
    rw [length_probed]
    exact Nat.lt_succ_self _
  have hbound := Reader.length_lt_recordBound (r := .ofSource source) steady hwalk
  refine ⟨r₂, ?_⟩
  rw [probeRecords, Reading.outcome, Reader.probe, Option.getD_none,
    Reader.probeUpTo_ended hfew hbound hwalk]

/-- **A probe walks once over a stream, and a limit only cuts the walk short.**  Where it succeeds
without a limit, what it reports tiles the stream, and it has taken every byte.  Under a limit it
reports the first of the records that it reports under any larger limit or none, and takes exactly
their bytes; and where it fails under a limit it fails alike under any larger limit and none. -/
theorem probe_walks_once {source : Source} (steady : source.Steady) (previewSize : Nat) :
    (∀ entries r', probeRecords source none previewSize = (.ok entries, r') →
      Tiles source.pending previewSize entries ∧
        r'.source.taken = source.taken + source.pending.length) ∧
    ∀ (k : Nat) (limit : Option Nat), (∀ m ∈ limit, k ≤ m) →
      (∀ entries, (probeRecords source limit previewSize).1 = .ok entries →
        ∃ r', probeRecords source (some k) previewSize = (.ok (entries.take k), r') ∧
          r'.source.taken = source.taken + spansOf (entries.take k)) ∧
      ∀ cause, (probeRecords source (some k) previewSize).1 = .error cause →
        (probeRecords source limit previewSize).1 = .error cause := by
  refine ⟨fun entries r' h => ?_, fun k limit hk => ?_⟩
  · have hwalk := Reading.eq_ok_of_outcome h
    have hlt := Reader.length_lt_recordBound (r := .ofSource source) steady hwalk
    exact Reader.tiles_of_probeUpTo steady hlt hwalk
  · obtain ⟨n, hkn, hwalk⟩ :=
      Reader.probe_eq_probeUpTo (r := .ofSource source) steady hk previewSize
    refine ⟨fun entries h => ?_, fun cause h => ?_⟩
    · have hlong : Reader.probe limit previewSize (.ofSource source) =
          .ok entries (probeRecords source limit previewSize).2 :=
        Reading.eq_ok_of_outcome (Prod.ext h rfl)
      obtain ⟨r', hshort⟩ := Reader.probeUpTo_take hkn (hwalk ▸ hlong)
      refine ⟨r', ?_, Reader.taken_of_probeUpTo (r := .ofSource source) steady hshort⟩
      rw [probeRecords, Reading.outcome, Reader.probe, Option.getD_some, hshort]
    · have hshort : Reader.probe (some k) previewSize (.ofSource source) =
          .error cause (probeRecords source (some k) previewSize).2 :=
        Reading.eq_error_of_outcome (Prod.ext h rfl)
      have hlong := Reader.probeUpTo_error_mono hkn hshort
      rw [probeRecords, Reading.outcome, hwalk, hlong]

/-- Five bytes in a frame, none in another, and a record whose markers differ; three bytes at a time
at most, with interruptions. -/
def endsBadly : Source :=
  ⟨[[1, 2, 3, 4, 5], []].flatMap frame ++ (marker 2 ++ [7, 8] ++ marker 3), 0, (some 3 : Option Nat),
    [0, 6, 6, 13], none⟩

theorem probe_walks_once_endsBadly :
    Reader.lookalikes.Steady ∧
      (∃ entries r', probeRecords Reader.lookalikes none 3 = (.ok entries, r') ∧
        Tiles Reader.lookalikes.pending 3 entries ∧ r'.source.taken = 32) ∧
      endsBadly.Steady ∧ (∀ m ∈ some 2, 1 ≤ m) ∧ (∀ m ∈ (none : Option Nat), 3 ≤ m) ∧
      (∃ entries r', probeRecords endsBadly (some 1) 4 = (.ok entries, r') ∧
        entries.map (fun p => (p.index, p.offset, p.length, p.preview)) =
          [(1, 0, 5, [1, 2, 3, 4])] ∧ r'.source.taken = 13) ∧
      (probeRecords endsBadly none 4).1 = .error (.format (.recordSizeMismatch 3 2 3)) := by
  have steady : Reader.lookalikes.Steady := ⟨fun _ => show some 2 ≠ some 0 by decide, rfl⟩
  have steady' : endsBadly.Steady := ⟨fun _ => show some 3 ≠ some 0 by decide, rfl⟩
  have hsmall : ∀ payload ∈ [[1, 2, 3, 4, 5], ([] : List UInt8)],
      payload.length < UInt32.size := by decide
  have hsmall' : ∀ payload ∈ [marker 0, [], marker 0], payload.length < UInt32.size := by decide
  have hdiffer : framing 3 (marker 2 ++ [7, 8] ++ marker 3) =
      .broken (.recordSizeMismatch 3 2 3) := by decide
  have hnone : ∀ m ∈ (none : Option Nat), 3 ≤ m := by simp
  obtain ⟨r₁, hall⟩ := probeRecords_frames steady hsmall' rfl 3
  obtain ⟨htiles, htaken⟩ := (probe_walks_once steady 3).1 _ _ hall
  obtain ⟨r₂, htwo, -⟩ := Reader.probeUpTo_eq_probed (r := .ofSource endsBadly) steady' hsmall rfl 4
  obtain ⟨r₃, hthree⟩ := Reader.probeUpTo_broken (r := .ofSource endsBadly) steady' hsmall rfl
    hdiffer 4 (Nat.lt_succ_self 2)
  have hok : (probeRecords endsBadly (some 2) 4).1 =
      .ok (probed 4 0 0 [[1, 2, 3, 4, 5], []]) := by
    change Reader.probeUpTo 4 2 (.ofSource endsBadly) = _ at htwo
    rw [probeRecords, Reading.outcome, Reader.probe, Option.getD_some, htwo]
    rfl
  have hbad : (probeRecords endsBadly (some 3) 4).1 =
      .error (.format (.recordSizeMismatch 3 2 3)) := by
    rw [probeRecords, Reading.outcome, Reader.probe, Option.getD_some, hthree]
  obtain ⟨r', hone, hone'⟩ :=
    ((probe_walks_once steady' 4).2 1 (some 2) (by decide)).1 _ hok
  exact ⟨steady, ⟨_, r₁, hall, htiles, htaken⟩, steady', by decide, hnone,
    ⟨_, r', hone, by decide, hone'⟩,
    ((probe_walks_once steady' 4).2 3 none hnone).2 _ hbad⟩

end Screening
