import Screening.Probe
import Screening.Proofs.Acceptance
import Screening.Proofs.RecordSequence

/-!
# Probing and decoding see the same file

A probe walks over the records of a stream and asks nothing of them; decoding reads the same records
and asks all that their places call for.  What decoding asks can be read off what the probe reports,
so either of them tells what the other will say.

* `elementsIn kind payload` — how many elements of its kind a payload holds, if they are whole; it
  is what a probe reports (`ProbedRecord.expectedCount_ofRecord`), and by it the payload fits or not
  (`fits_iff`, `fits_dimensions_iff`).
* `probed` — what is reported of payloads that lie one behind the other.
* `Reader.probeUpTo_frames`, `Reader.frames_of_probeUpTo` — a probe reports frames, and what it
  reports are frames.
* `ShowsFile` — a report is that of a file with the given sizes.
* `probe_agrees` — decoding gives contents exactly where five records are reported that show a file,
  and a probe stops at every badly framed record at which decoding stops.
-/

set_option autoImplicit false

namespace Screening

/-! ## Counts of elements -/

/-- How many elements of its kind a payload holds, if they are whole. -/
def elementsIn (kind : RecordKind) (payload : List UInt8) : Option Nat :=
  if payload.length % elementSize kind = 0 then some (payload.length / elementSize kind) else none

theorem elementsIn_eq_some_iff {kind : RecordKind} {payload : List UInt8} {n : Nat} :
    elementsIn kind payload = some n ↔ payload.length = elementSize kind * n := by
  have hpos : 0 < elementSize kind := by cases kind <;> decide
  rw [elementsIn]
  constructor
  · intro h
    split at h
    · rename_i hmod
      rw [← Option.some.inj h, Nat.mul_div_cancel' (Nat.dvd_of_mod_eq_zero hmod)]
    · cases h
  · intro h
    rw [h, Nat.mul_mod_right, if_pos rfl, Nat.mul_div_cancel_left _ hpos]

/-- A later payload fits exactly if it holds as many elements as are due. -/
theorem fits_iff {kind : RecordKind} (h : kind ≠ .dimensions) (rows : Nat)
    (payload : List UInt8) :
    Fits rows kind payload ↔ elementsIn kind payload = some (elementsDue rows kind) := by
  rw [elementsIn_eq_some_iff]
  cases kind with
  | dimensions => exact absurd rfl h
  | header => exact Iff.rfl
  | wing | cwing =>
    simp only [Fits, elementSize, elementsDue]
    omega
  | response => exact Iff.rfl

/-- The first payload fits exactly if it holds two numbers at least and the first two are
positive. -/
theorem fits_dimensions_iff (rows : Nat) (payload : List UInt8) :
    Fits rows .dimensions payload ↔
      (∃ count, elementsIn .dimensions payload = some count ∧ 2 ≤ count) ∧
        0 < integerAt 0 payload ∧ 0 < integerAt 1 payload := by
  simp only [elementsIn_eq_some_iff, Fits, elementSize]
  constructor
  · rintro ⟨hmod, hlen, hpos⟩
    exact ⟨⟨payload.length / 4, by omega, by omega⟩, hpos⟩
  · rintro ⟨⟨count, hlen, hcount⟩, hpos⟩
    exact ⟨by omega, by omega, hpos⟩

theorem numberAt_take {width offset previewSize : Nat} (h : offset + width ≤ previewSize)
    (payload : List UInt8) :
    numberAt width offset (payload.take previewSize) = numberAt width offset payload := by
  rw [numberAt, numberAt, List.drop_take, List.take_take, Nat.min_eq_left (by omega)]

/-- The first two numbers of a payload lie in its first eight bytes. -/
theorem integerAt_take {slot previewSize : Nat} (hslot : slot < 2) (h : 8 ≤ previewSize)
    (payload : List UInt8) : integerAt slot (payload.take previewSize) = integerAt slot payload := by
  have hbytes : 4 * slot + 4 ≤ previewSize := by omega
  unfold integerAt
  rw [numberAt_take hbytes]

/-! ## What is reported of a record -/

namespace ProbedRecord

theorem count_ofRecord (record : Record) (previewSize : Nat) (type : ElementType) :
    (ofRecord record previewSize).count type =
      if record.payload.length % type.size = 0 then some (record.payload.length / type.size)
      else none := by
  have hlookup : (ofRecord record previewSize).count type =
      (elementCount record.index record.payload.length type.size).toOption := by
    cases type <;> rfl
  rw [hlookup, elementCount_eq _ _ type.size_pos]
  split <;> rfl

/-- The count that a place calls for is that of the elements of its kind. -/
theorem expectedCount_ofRecord {record : Record} {kind : RecordKind}
    (h : record.index = kind.index) (previewSize : Nat) :
    (ofRecord record previewSize).expectedCount = elementsIn kind record.payload := by
  have hkind : (ofRecord record previewSize).expectedKind = some kind := by
    rw [expectedKind, ofRecord, h, RecordKind.atIndex?_index]
  have hsize : kind.elementType.size = elementSize kind := by cases kind <;> rfl
  rw [expectedCount, hkind, Option.bind_some, count_ofRecord, hsize, elementsIn]

end ProbedRecord

/-- What a probe reports of payloads that lie one behind the other, where so many records and bytes
come before them. -/
def probed (previewSize : Nat) : Nat → Nat → List (List UInt8) → List ProbedRecord
  | _, _, [] => []
  | records, position, payload :: rest =>
    .ofRecord ⟨records + 1, position, payload⟩ previewSize ::
      probed previewSize (records + 1) (position + span payload.length) rest

@[simp] theorem length_probed (previewSize records position : Nat) (payloads : List (List UInt8)) :
    (probed previewSize records position payloads).length = payloads.length := by
  induction payloads generalizing records position with
  | nil => rfl
  | cons payload rest ih => simp [probed, ih]

/-! ## The walk of a probe -/

/-- What is made of two answers that are the same is the same. -/
theorem Reading.map_congr {α β : Type} {m m' : Reading α} {f : α → β} {r r' : Reader}
    (h : m r = m' r') : (f <$> m) r = (f <$> m') r' := by
  show EStateM.map f m r = EStateM.map f m' r'
  rw [EStateM.map, EStateM.map, h]

theorem Reading.exists_of_map_ok {α β : Type} {m : Reading α} {f : α → β} {r r' : Reader} {y : β}
    (h : (f <$> m) r = .ok y r') : ∃ x, m r = .ok x r' ∧ f x = y := by
  change EStateM.map f m r = .ok y r' at h
  rw [EStateM.map] at h
  cases hm : m r with
  | ok x s =>
    rw [hm] at h
    cases h
    exact ⟨x, rfl, rfl⟩
  | error cause s =>
    rw [hm] at h
    cases h

/-- What is made of an answer needs no more than the answer. -/
theorem Reading.map_ok {α β : Type} {m : Reading α} {r r' : Reader} {x : α} (f : α → β)
    (h : m r = .ok x r') : (f <$> m) r = .ok (f x) r' := by
  show EStateM.map f m r = .ok (f x) r'
  rw [EStateM.map, h]

/-- Nothing is made of a failure. -/
theorem Reading.map_error_iff {α β : Type} {m : Reading α} {f : α → β} {r r' : Reader}
    {cause : Error} : (f <$> m) r = .error cause r' ↔ m r = .error cause r' := by
  show EStateM.map f m r = .error cause r' ↔ _
  rw [EStateM.map]
  cases m r <;> simp

namespace Reader

open Reading

variable {r : Reader} {previewSize limit : Nat}

theorem length_flatMap_frame (payloads : List (List UInt8)) :
    (payloads.flatMap frame).length = spanOf payloads := by
  induction payloads with
  | nil => rfl
  | cons payload rest ih => rw [List.flatMap_cons, List.length_append, length_frame, ih, spanOf]

/-- Every record takes its two markers at least. -/
theorem eight_mul_length_le_spanOf (payloads : List (List UInt8)) :
    8 * payloads.length ≤ spanOf payloads := by
  induction payloads with
  | nil => exact Nat.le_refl 0
  | cons payload rest ih =>
    rw [List.length_cons, spanOf, span, markerSize]
    omega

/-- One step of a probe of any reader: it does what reading the next record does, and goes on if
there was one. -/
theorem probeUpTo_readRecord (previewSize limit : Nat) (r : Reader) :
    probeUpTo previewSize (limit + 1) r =
      match readRecord r with
      | .ok none r' => .ok [] r'
      | .ok (some record) r' =>
        ((.ofRecord record previewSize :: ·) <$> probeUpTo previewSize limit) r'
      | .error cause r' => .error cause r' := by
  rw [probeUpTo]
  cases h : readRecord r with
  | ok found r' =>
    rw [bind_ok h]
    cases found with
    | none => rfl
    | some record =>
      dsimp only
      rw [map_eq_pure_bind]
  | error cause r' => rw [bind_error h]

/-- **One step of a probe**: it ends with the source, fails where the record is badly framed, or
reports the record and goes on behind it. -/
theorem probeUpTo_succ (hs : r.source.Steady) (previewSize limit : Nat) :
    ∃ r', r.Moved (extent r.source.pending)
        (framing (r.recordsRead + 1) r.source.pending).count r' ∧
      probeUpTo previewSize (limit + 1) r =
        match framing (r.recordsRead + 1) r.source.pending with
        | .ended => .ok [] r'
        | .broken cause => .error (.format cause) r'
        | .whole payload =>
          ((.ofRecord ⟨r.recordsRead + 1, r.position, payload⟩ previewSize :: ·) <$>
            probeUpTo previewSize limit) r' := by
  obtain ⟨r', hread, moved⟩ := readRecord_goesOver hs
  refine ⟨r', moved, ?_⟩
  rw [probeUpTo_readRecord, hread]
  cases framing (r.recordsRead + 1) r.source.pending <;> rfl

/-- **Frames are reported one after the other**, and then the probe goes on behind them. -/
theorem probeUpTo_frames {payloads : List (List UInt8)} {rest : List UInt8}
    (hs : r.source.Steady) (hp : ∀ payload ∈ payloads, payload.length < UInt32.size)
    (h : r.source.pending = payloads.flatMap frame ++ rest) (previewSize limit : Nat) :
    ∃ r', r.Moved (spanOf payloads) payloads.length r' ∧ r'.source.pending = rest ∧
      probeUpTo previewSize (payloads.length + limit) r =
        ((probed previewSize r.recordsRead r.position payloads ++ ·) <$>
          probeUpTo previewSize limit) r' := by
  induction payloads generalizing r with
  | nil =>
    refine ⟨r, ⟨Source.Advanced.refl _, rfl, rfl⟩, h, ?_⟩
    simp [probed]
  | cons payload payloads ih =>
    obtain ⟨hlt, hp⟩ := List.forall_mem_cons.1 hp
    rw [List.flatMap_cons, List.append_assoc] at h
    obtain ⟨r₁, moved₁, hstep⟩ := probeUpTo_succ hs previewSize (payloads.length + limit)
    rw [h, framing_frame_append hlt, extent_frame_append hlt] at moved₁
    rw [h, framing_frame_append hlt] at hstep
    have hpending : r₁.source.pending = payloads.flatMap frame ++ rest := by
      rw [moved₁.pending, h, ← length_frame, List.drop_left]
    obtain ⟨r₂, moved₂, hrest, hrun⟩ := ih (moved₁.source.steady hs) hp hpending
    refine ⟨r₂, ?_, hrest, ?_⟩
    · have moved := moved₁.trans moved₂
      rwa [Framing.count, Nat.add_comm 1] at moved
    · rw [List.length_cons, Nat.add_right_comm, hstep]
      dsimp only
      rw [map_congr hrun, ← comp_map, moved₁.recordsRead, moved₁.position]
      rfl

/-- As many records at most are reported as there are frames. -/
theorem probeUpTo_eq_probed {payloads : List (List UInt8)} {rest : List UInt8}
    (hs : r.source.Steady) (hp : ∀ payload ∈ payloads, payload.length < UInt32.size)
    (h : r.source.pending = payloads.flatMap frame ++ rest) (previewSize : Nat) :
    ∃ r', probeUpTo previewSize payloads.length r =
        .ok (probed previewSize r.recordsRead r.position payloads) r' ∧
      r.Moved (spanOf payloads) payloads.length r' := by
  obtain ⟨r', moved, -, hrun⟩ := probeUpTo_frames hs hp h previewSize 0
  refine ⟨r', ?_, moved⟩
  have hnone : probeUpTo previewSize 0 r' = ofFormat (.ok []) r' := rfl
  rw [Nat.add_zero, map_ofFormat hnone] at hrun
  rw [hrun]
  exact congrArg (EStateM.Result.ok · r') (List.append_nil _)

/-- A probe that comes to a badly framed record fails as the record does. -/
theorem probeUpTo_broken {payloads : List (List UInt8)} {rest : List UInt8} {cause : FormatError}
    (hs : r.source.Steady) (hp : ∀ payload ∈ payloads, payload.length < UInt32.size)
    (h : r.source.pending = payloads.flatMap frame ++ rest)
    (hbroken : framing (r.recordsRead + payloads.length + 1) rest = .broken cause)
    (previewSize : Nat) (hlimit : payloads.length < limit) :
    ∃ r', probeUpTo previewSize limit r = .error (.format cause) r' := by
  obtain ⟨more, rfl⟩ : ∃ more, limit = payloads.length + (more + 1) :=
    ⟨limit - payloads.length - 1, by omega⟩
  obtain ⟨r₁, moved, hrest, hrun⟩ := probeUpTo_frames hs hp h previewSize (more + 1)
  obtain ⟨r₂, -, hstep⟩ := probeUpTo_succ (moved.source.steady hs) previewSize more
  rw [moved.recordsRead, hrest, hbroken] at hstep
  have hfail : probeUpTo previewSize (more + 1) r₁ = ofFormat (.error cause) r₂ := hstep
  exact ⟨r₂, by rw [hrun, map_ofFormat hfail]; rfl⟩

/-- **What a probe reports are the frames at the front of the source**, and it has gone over
these. -/
theorem frames_of_probeUpTo {entries : List ProbedRecord} {r' : Reader} (hs : r.source.Steady)
    (h : probeUpTo previewSize limit r = .ok entries r') :
    ∃ payloads rest, (∀ payload ∈ payloads, payload.length < UInt32.size) ∧
      r.source.pending = payloads.flatMap frame ++ rest ∧
      entries = probed previewSize r.recordsRead r.position payloads ∧
      r.Moved (spanOf payloads) payloads.length r' := by
  induction limit generalizing r entries with
  | zero =>
    cases h
    exact ⟨[], _, nofun, rfl, rfl, Source.Advanced.refl _, rfl, rfl⟩
  | succ limit ih =>
    obtain ⟨r₁, moved, hstep⟩ := probeUpTo_succ hs previewSize limit
    rw [hstep] at h
    cases hframing : framing (r.recordsRead + 1) r.source.pending with
    | ended =>
      rw [hframing] at h moved
      rw [framing_eq_ended_iff.1 hframing] at moved ⊢
      cases h
      exact ⟨[], [], nofun, rfl, rfl, moved⟩
    | broken cause =>
      rw [hframing] at h
      cases h
    | whole payload =>
      rw [hframing] at h moved
      dsimp only at h
      obtain ⟨hlt, rest, hrest⟩ := framing_eq_whole_iff.1 hframing
      rw [← hrest, extent_frame_append hlt] at moved
      have hpending : r₁.source.pending = rest := by
        rw [moved.pending, ← hrest, ← length_frame, List.drop_left]
      obtain ⟨later, hlater, rfl⟩ := exists_of_map_ok h
      obtain ⟨payloads, rest', hp, hflat, rfl, moved'⟩ := ih (moved.source.steady hs) hlater
      refine ⟨payload :: payloads, rest', List.forall_mem_cons.2 ⟨hlt, hp⟩, ?_, ?_, ?_⟩
      · rw [← hrest, ← hpending, hflat, List.flatMap_cons, List.append_assoc]
      · rw [moved.recordsRead, moved.position]
        rfl
      · have both := moved.trans moved'
        rwa [Framing.count, Nat.add_comm 1] at both

end Reader

/-! ## Reports that show a file -/

/-- A report shows a file of these sizes: there are five records, each with as many elements as its
place calls for; the sizes are the first two numbers of the first payload, and positive. -/
structure ShowsFile (entries : List ProbedRecord) (ngvector ngvector2 fieldCount : Nat) : Prop where
  /-- The numbers of elements, each under the type of its place. -/
  counts : entries.map ProbedRecord.expectedCount =
    [some fieldCount, some 18, some (3 * ngvector), some (3 * ngvector), some (ngvector * ngvector)]
  /-- The first record holds both sizes. -/
  fields : 2 ≤ fieldCount
  /-- They are seen in what was kept of its payload. -/
  sizes : ∃ first, entries.head? = some first ∧ integerAt 0 first.preview = ngvector ∧
    integerAt 1 first.preview = ngvector2
  /-- They are positive. -/
  pos : 0 < ngvector ∧ 0 < ngvector2

namespace Payloads

variable {p : Payloads} {previewSize : Nat}

theorem bytes_eq_flatMap (p : Payloads) (kinds : List RecordKind) :
    p.bytes kinds = (kinds.map p).flatMap frame := by
  rw [bytes, List.flatMap_map]

theorem exists_eq_map_sequence {payloads : List (List UInt8)} (h : payloads.length = 5) :
    ∃ p : Payloads, payloads = RecordKind.sequence.map p := by
  match payloads with
  | [first, second, third, fourth, fifth] =>
    exact ⟨fun kind => kind.casesOn first second third fourth fifth, rfl⟩

/-- What is reported of the record of a kind at an offset. -/
def entry (p : Payloads) (previewSize : Nat) (kind : RecordKind) (offset : Nat) : ProbedRecord :=
  .ofRecord ⟨kind.index, offset, p kind⟩ previewSize

/-- Five payloads are counted each in its place. -/
theorem counts_probed (p : Payloads) (previewSize : Nat) :
    (probed previewSize 0 0 (RecordKind.sequence.map p)).map ProbedRecord.expectedCount =
      RecordKind.sequence.map fun kind => elementsIn kind (p kind) := by
  have hplace (kind : RecordKind) (offset : Nat) :
      (p.entry previewSize kind offset).expectedCount = elementsIn kind (p kind) :=
    ProbedRecord.expectedCount_ofRecord rfl previewSize
  show [(p.entry previewSize .dimensions _).expectedCount,
    (p.entry previewSize .header _).expectedCount, (p.entry previewSize .wing _).expectedCount,
    (p.entry previewSize .cwing _).expectedCount,
    (p.entry previewSize .response _).expectedCount] = _
  simp only [hplace]
  rfl

/-- A file is reported as one. -/
theorem IsFile.showsFile (hp : p.IsFile) {d : Dimensions} (sizes : SizesOf (p .dimensions) d)
    (hpreview : 8 ≤ previewSize) :
    ShowsFile (probed previewSize 0 0 (RecordKind.sequence.map p)) d.ngvector d.ngvector2
      d.fieldCount := by
  have hrows : p.rows = d.ngvector := sizes.rows.symm
  have hcount (kind : RecordKind) (h : kind ≠ .dimensions) :
      elementsIn kind (p kind) = some (elementsDue d.ngvector kind) := by
    rw [← hrows, ← fits_iff h]
    exact (hp kind).2
  have hfields : elementsIn .dimensions (p .dimensions) = some d.fieldCount := by
    have hmod : (p .dimensions).length % 4 = 0 := (hp .dimensions).2.1
    rw [elementsIn_eq_some_iff, sizes.fieldCount, elementSize]
    omega
  refine ⟨?_, d.minFields_le, ⟨_, rfl, ?_, ?_⟩, d.ngvector_pos, d.ngvector2_pos⟩
  · rw [counts_probed]
    simp only [RecordKind.sequence, List.map_cons, List.map_nil]
    rw [hfields, hcount .header (by decide), hcount .wing (by decide), hcount .cwing (by decide),
      hcount .response (by decide)]
    rfl
  · exact (integerAt_take (by decide) hpreview _).trans sizes.ngvector.symm
  · exact (integerAt_take (by decide) hpreview _).trans sizes.ngvector2.symm

/-- What is reported as a file is one. -/
theorem isFile_of_showsFile {ngvector ngvector2 fieldCount : Nat}
    (hlt : ∀ kind, (p kind).length < UInt32.size) (hpreview : 8 ≤ previewSize)
    (h : ShowsFile (probed previewSize 0 0 (RecordKind.sequence.map p)) ngvector ngvector2
      fieldCount) :
    p.IsFile ∧ integerAt 0 (p .dimensions) = ngvector ∧ integerAt 1 (p .dimensions) = ngvector2 ∧
      elementsIn .dimensions (p .dimensions) = some fieldCount := by
  obtain ⟨first, hfirst, hsize, hsize2⟩ := h.sizes
  cases hfirst
  have hngvector : integerAt 0 (p .dimensions) = ngvector :=
    (integerAt_take (by decide) hpreview _).symm.trans hsize
  have hngvector2 : integerAt 1 (p .dimensions) = ngvector2 :=
    (integerAt_take (by decide) hpreview _).symm.trans hsize2
  have hrows : p.rows = ngvector := by rw [rows, hngvector, Int.toNat_natCast]
  have hcounts := h.counts
  rw [counts_probed] at hcounts
  simp only [RecordKind.sequence, List.map_cons, List.map_nil, List.cons.injEq, and_true]
    at hcounts
  obtain ⟨hfields, hheader, hwing, hcwing, hresponse⟩ := hcounts
  have hpos := h.pos
  refine ⟨fun kind => ⟨hlt kind, ?_⟩, hngvector, hngvector2, hfields⟩
  cases kind with
  | dimensions =>
    exact (fits_dimensions_iff _ _).2 ⟨⟨_, hfields, h.fields⟩, by omega, by omega⟩
  | header => exact (fits_iff (by decide) _ _).2 hheader
  | wing => exact (fits_iff (by decide) _ _).2 (hrows ▸ hwing)
  | cwing => exact (fits_iff (by decide) _ _).2 (hrows ▸ hcwing)
  | response => exact (fits_iff (by decide) _ _).2 (hrows ▸ hresponse)

end Payloads

/-! ## Badly framed records -/

/-- A record is badly framed: the source ends within it, or its markers differ. -/
def FormatError.isFraming : FormatError → Bool
  | truncatedRecord .. => true
  | recordSizeMismatch .. => true
  | _ => false

theorem isFraming_payloadFault {rows : Nat} {kind : RecordKind} {payload : List UInt8}
    {cause : FormatError} (h : payloadFault rows kind payload = some cause) :
    cause.isFraming = false := by
  rw [payloadFault] at h
  split at h
  · cases kind with
    | dimensions =>
      rw [contentFault_dimensions] at h
      repeat' split at h
      all_goals cases h
      all_goals rfl
    | header | wing | cwing | response =>
      rw [contentFault_of_ne (by decide)] at h
      split at h
      · cases h
      · cases h
        rfl
  · cases h
    rfl

/-- What is wrong with the framing of a record is found by framing it. -/
theorem framing_of_fault {rows : Nat} {kind : RecordKind} {bytes : List UInt8}
    {cause : FormatError} (h : fault rows kind bytes = some cause)
    (hcause : cause.isFraming = true) : framing kind.index bytes = .broken cause := by
  rw [fault_eq] at h
  cases hframing : framing kind.index bytes with
  | ended =>
    rw [hframing] at h
    cases h
    cases hcause
  | broken cause' =>
    rw [hframing] at h
    cases h
    rfl
  | whole payload =>
    rw [hframing] at h
    rw [isFraming_payloadFault h] at hcause
    cases hcause

/-! ## Both sides -/

theorem Reading.eq_ok_of_outcome {α : Type} {m : Reading α} {r r' : Reader} {x : α}
    (h : m.outcome r = (.ok x, r')) : m r = .ok x r' := by
  rw [Reading.outcome] at h
  split at h
  · cases h
    assumption
  · cases h

theorem Reading.eq_error_of_outcome {α : Type} {m : Reading α} {r r' : Reader} {e : Error}
    (h : m.outcome r = (.error e, r')) : m r = .error e r' := by
  rw [Reading.outcome] at h
  split at h
  · cases h
  · cases h
    assumption

/-- A probe goes far enough to see every record of a file that could be badly framed. -/
theorem probeRecords_of_firstFault {source : Source} (steady : source.Steady) {kind : RecordKind}
    {cause : FormatError} (h : FirstFault source.pending kind cause)
    (hcause : cause.isFraming = true) {limit : Option Nat}
    (hlimit : ∀ most, limit = some most → 5 ≤ most) (previewSize : Nat) :
    (probeRecords source limit previewSize).1 = .error (.format cause) := by
  obtain ⟨p, rest, hbytes, hholds, hfault⟩ := h
  have hframing := framing_of_fault hfault hcause
  have hlt : ∀ payload ∈ kind.before.map p, payload.length < UInt32.size := by
    simp only [List.mem_map]
    rintro _ ⟨earlier, hmem, rfl⟩
    exact (hholds earlier hmem).1
  have hindex : 0 + (kind.before.map p).length + 1 = kind.index := by
    rw [List.length_map]
    cases kind <;> rfl
  rw [Payloads.bytes_eq_flatMap] at hbytes
  have hfar : (kind.before.map p).length < limit.getD (Reader.ofSource source).recordBound := by
    cases limit with
    | none =>
      have hle := Reader.eight_mul_length_le_spanOf (kind.before.map p)
      rw [← Reader.length_flatMap_frame] at hle
      have hlen := congrArg List.length hbytes
      rw [List.length_append] at hlen
      show _ < source.pending.length + 1
      omega
    | some most =>
      have hfive : kind.index ≤ 5 := by cases kind <;> decide
      have hmost := hlimit most rfl
      show _ < most
      omega
  rw [← hindex] at hframing
  obtain ⟨r', hrun⟩ :=
    Reader.probeUpTo_broken (r := .ofSource source) steady hlt hbytes hframing previewSize hfar
  rw [probeRecords, Reading.outcome, Reader.probe, hrun]

/-- A probe of five records reports those of a file, and takes its bytes. -/
theorem probeRecords_of_isFile {source : Source} (steady : source.Steady) {p : Payloads}
    (hp : p.IsFile) (hfront : p.bytes RecordKind.sequence <+: source.pending)
    (previewSize : Nat) :
    ∃ r', probeRecords source (some 5) previewSize =
        (.ok (probed previewSize 0 0 (RecordKind.sequence.map p)), r') ∧
      r'.source.taken = source.taken + (p.bytes RecordKind.sequence).length := by
  obtain ⟨rest, hrest⟩ := hfront
  rw [Payloads.bytes_eq_flatMap] at hrest ⊢
  have hlt : ∀ payload ∈ RecordKind.sequence.map p, payload.length < UInt32.size := by
    simp only [List.mem_map]
    rintro _ ⟨kind, -, rfl⟩
    exact (hp kind).1
  obtain ⟨r', hrun, moved⟩ :=
    Reader.probeUpTo_eq_probed (r := .ofSource source) steady hlt hrest.symm previewSize
  have hprobe : Reader.probe (some 5) previewSize (.ofSource source) =
      .ok (probed previewSize 0 0 (RecordKind.sequence.map p)) r' := hrun
  refine ⟨r', ?_, ?_⟩
  · rw [probeRecords, Reading.outcome, hprobe]
  · rw [moved.source.taken, Reader.length_flatMap_frame]
    rfl

/-- Five records that a probe reports lie at the front of the stream, and their bytes are taken. -/
theorem payloads_of_probeRecords {source : Source} (steady : source.Steady)
    {entries : List ProbedRecord} {r' : Reader} {previewSize : Nat}
    (h : probeRecords source (some 5) previewSize = (.ok entries, r'))
    (hfive : entries.length = 5) :
    ∃ p : Payloads, (∀ kind, (p kind).length < UInt32.size) ∧
      p.bytes RecordKind.sequence <+: source.pending ∧
      entries = probed previewSize 0 0 (RecordKind.sequence.map p) ∧
      r'.source.taken = source.taken + (p.bytes RecordKind.sequence).length := by
  obtain ⟨payloads, rest, hlt, hpending, rfl, moved⟩ :=
    Reader.frames_of_probeUpTo (r := .ofSource source) steady (Reading.eq_ok_of_outcome h)
  rw [length_probed] at hfive
  obtain ⟨p, rfl⟩ := Payloads.exists_eq_map_sequence hfive
  have hbytes := p.bytes_eq_flatMap RecordKind.sequence
  refine ⟨p, fun kind => hlt _ (List.mem_map_of_mem kind.mem_sequence), ⟨rest, ?_⟩, rfl, ?_⟩
  · rw [hbytes]
    exact hpending.symm
  · rw [moved.source.taken, hbytes, Reader.length_flatMap_frame]
    rfl

/-- **A probe and decoding agree.**  Where decoding gives contents, a probe of five records shows a
file with their sizes, and where such a probe shows a file, decoding gives contents of these sizes;
both take the same bytes.  Where decoding fails at a badly framed record, every probe that may go
as far fails with the same cause. -/
theorem probe_agrees {source : Source} (steady : source.Steady) (label : String) :
    (∀ previewSize, 8 ≤ previewSize →
      (∀ c r, decode source label = (.ok c, r) →
        ∃ entries r', probeRecords source (some 5) previewSize = (.ok entries, r') ∧
          ShowsFile entries c.dimensions.ngvector c.dimensions.ngvector2 c.dimensions.fieldCount ∧
          r'.source.taken = r.source.taken) ∧
      ∀ entries r' ngvector ngvector2 fieldCount,
        probeRecords source (some 5) previewSize = (.ok entries, r') →
        ShowsFile entries ngvector ngvector2 fieldCount →
        ∃ c r, decode source label = (.ok c, r) ∧ c.dimensions.ngvector = ngvector ∧
          c.dimensions.ngvector2 = ngvector2 ∧ c.dimensions.fieldCount = fieldCount ∧
          r.source.taken = r'.source.taken) ∧
    ∀ cause : FormatError, cause.isFraming = true →
      (decode source label).1 = .error (.format cause) →
      ∀ limit previewSize, (∀ most, limit = some most → 5 ≤ most) →
        (probeRecords source limit previewSize).1 = .error (.format cause) := by
  refine ⟨fun previewSize hpreview => ⟨fun c r hdecode => ?_, ?_⟩, ?_⟩
  · obtain ⟨p, hp, hfront, hc, htaken⟩ := file_of_decode steady hdecode
    obtain ⟨r', hprobe, htaken'⟩ := probeRecords_of_isFile steady hp hfront previewSize
    exact ⟨_, r', hprobe, hp.showsFile hc.dimensions hpreview, htaken'.trans htaken.symm⟩
  · intro entries r' ngvector ngvector2 fieldCount hprobe hshows
    have hfive : entries.length = 5 := by simpa using congrArg List.length hshows.counts
    obtain ⟨p, hlt, hfront, rfl, htaken'⟩ := payloads_of_probeRecords steady hprobe hfive
    obtain ⟨hp, hngvector, hngvector2, hfields⟩ := Payloads.isFile_of_showsFile hlt hpreview hshows
    obtain ⟨c, r, hdecode, htaken⟩ := decode_of_isFile steady label hp hfront
    obtain ⟨q, hq, hfront', hc, -⟩ := file_of_decode steady hdecode
    obtain rfl : p = q := hp.eq hq hfront hfront'
    have hsizes := hc.dimensions
    have hcount := elementsIn_eq_some_iff.1 hfields
    rw [elementSize] at hcount
    refine ⟨c, r, hdecode, ?_, ?_, ?_, htaken.trans htaken'.symm⟩
    · exact Int.ofNat_inj.1 (hsizes.ngvector.trans hngvector)
    · exact Int.ofNat_inj.1 (hsizes.ngvector2.trans hngvector2)
    · rw [hsizes.fieldCount, hcount, Nat.mul_div_cancel_left _ (by decide)]
  · intro cause hcause hdecode limit previewSize hlimit
    obtain ⟨kind, cause', hsame, hfirst⟩ := firstFault_of_decode steady hdecode
    cases hsame
    exact probeRecords_of_firstFault steady hfirst hcause hlimit previewSize

/-- A good first record, and the leading marker of a header with nothing behind it. -/
def headerCutShort : Source :=
  ⟨single.bytes [.dimensions] ++ marker 144, 0, (some 3 : Option Nat), [5], none⟩

theorem probe_agrees_single :
    singleSource.Steady ∧
      (∃ c r, decode singleSource "single" = (.ok c, r) ∧
        ∃ entries r', probeRecords singleSource (some 5) 8 = (.ok entries, r') ∧
          ShowsFile entries c.dimensions.ngvector c.dimensions.ngvector2 c.dimensions.fieldCount ∧
          r'.source.taken = r.source.taken) ∧
      headerCutShort.Steady ∧
      (decode headerCutShort "short").1 = .error (.format (.truncatedRecord 2 144 0)) ∧
      (probeRecords headerCutShort none 8).1 = .error (.format (.truncatedRecord 2 144 0)) := by
  have steady : singleSource.Steady := ⟨fun _ => show some 5 ≠ some 0 by decide, rfl⟩
  have steady' : headerCutShort.Steady := ⟨fun _ => show some 3 ≠ some 0 by decide, rfl⟩
  obtain ⟨c, r, hdecode, -⟩ :=
    decode_of_isFile steady "single" single_isFile (List.prefix_append _ _)
  have hfirst : FirstFault headerCutShort.pending .header (.truncatedRecord 2 144 0) :=
    ⟨single, marker 144, rfl, fun kind _ => single_isFile kind, by decide⟩
  have hshort := decode_of_firstFault steady' "short" hfirst
  exact ⟨steady, ⟨c, r, hdecode, ((probe_agrees steady "single").1 8 (Nat.le_refl 8)).1 c r hdecode⟩,
    steady', hshort, (probe_agrees steady' "short").2 _ rfl hshort none 8 nofun⟩

end Screening
