import Screening.Proofs.Locality

/-!
# A damaged marker is detected

Nothing but its markers guards a file against damage, and a wrong leading marker is not seen by
itself: bytes of the payload may look like the trailing marker that it calls for, and what follows
like more records.  But the first record says how long every other one has to be, so of the ten
markers of a file only the very first one can be damaged without being noticed.

* `overwriteMarker bytes offset value` — the marker at an offset is overwritten.
* `Payloads.leadingOffset`, `Payloads.trailingOffset` — where the markers of a file lie.
* `taken_le_of_firstFault`, `lt_taken_of_firstFault` — how far a stream is read, from the faults of
  its beginnings.
* `decode_of_trailing` — a damaged trailing marker is reported as such, and nothing is read beyond
  it.
* `not_file_of_leading` — with a damaged leading marker the stream is no longer a file.
* `damaged_marker_detected` — both, for every stream that is decoded.
-/

set_option autoImplicit false

namespace Screening

/-- The bytes with the marker of a value written over the four that lie at an offset. -/
def overwriteMarker (bytes : List UInt8) (offset value : Nat) : List UInt8 :=
  bytes.take offset ++ (marker value ++ bytes.drop (offset + markerSize))

theorem overwriteMarker_append (front rest : List UInt8) (old value : Nat) :
    overwriteMarker (front ++ (marker old ++ rest)) front.length value =
      front ++ (marker value ++ rest) := by
  rw [overwriteMarker, List.take_left, ← List.drop_drop, List.drop_left,
    List.drop_left' (length_marker old)]

/-! ## Where the markers lie -/

namespace Payloads

/-- Where the leading marker of the record of a kind lies. -/
def leadingOffset (p : Payloads) (kind : RecordKind) : Nat := (p.bytes kind.before).length

/-- Where the trailing marker of the record of a kind lies. -/
def trailingOffset (p : Payloads) (kind : RecordKind) : Nat :=
  p.leadingOffset kind + markerSize + (p kind).length

variable {p q : Payloads}

/-- The bytes of a file from the record of a kind on. -/
theorem exists_bytes_sequence_eq (p : Payloads) (kind : RecordKind) : ∃ later,
    p.bytes RecordKind.sequence = p.bytes kind.before ++ (frame (p kind) ++ later) := by
  obtain ⟨after, hafter⟩ := before_append_prefix_sequence kind
  refine ⟨p.bytes after, ?_⟩
  rw [← hafter, bytes_append, bytes_append, bytes_cons, List.append_assoc, List.append_assoc]
  rfl

/-- A file whose leading marker of some record is overwritten. -/
theorem exists_overwrite_leading {bytes : List UInt8}
    (h : p.bytes RecordKind.sequence <+: bytes) (kind : RecordKind) (value : Nat) :
    ∃ rest, overwriteMarker bytes (p.leadingOffset kind) value =
      p.bytes kind.before ++ (marker value ++ rest) := by
  obtain ⟨more, rfl⟩ := h
  obtain ⟨later, hlater⟩ := p.exists_bytes_sequence_eq kind
  rw [hlater, List.append_assoc, List.append_assoc, frame_append, leadingOffset]
  exact ⟨_, overwriteMarker_append _ _ _ _⟩

/-- A file whose trailing marker of some record is overwritten. -/
theorem exists_overwrite_trailing {bytes : List UInt8}
    (h : p.bytes RecordKind.sequence <+: bytes) (kind : RecordKind) (value : Nat) :
    ∃ rest, overwriteMarker bytes (p.trailingOffset kind) value =
      p.bytes kind.before ++ (marker (p kind).length ++ (p kind ++ (marker value ++ rest))) := by
  obtain ⟨more, rfl⟩ := h
  obtain ⟨later, hlater⟩ := p.exists_bytes_sequence_eq kind
  have hfront : p.trailingOffset kind =
      (p.bytes kind.before ++ (marker (p kind).length ++ p kind)).length := by
    rw [trailingOffset, leadingOffset, List.length_append, List.length_append, length_marker]
    omega
  have hassoc : ∀ tail, p.bytes kind.before ++ (marker (p kind).length ++ (p kind ++ tail)) =
      (p.bytes kind.before ++ (marker (p kind).length ++ p kind)) ++ tail := by
    intro tail
    rw [List.append_assoc, List.append_assoc]
  rw [hlater, List.append_assoc, List.append_assoc, frame_append, hassoc, hfront,
    overwriteMarker_append]
  exact ⟨_, (hassoc _).symm⟩

/-- Families that agree on the first record have as many G-vectors. -/
theorem rows_congr (h : p .dimensions = q .dimensions) : p.rows = q.rows := by
  rw [rows, rows, h]

end Payloads

/-- The length of every record but the first follows from the number of G-vectors. -/
theorem Fits.length_eq {rows : Nat} {kind : RecordKind} {payload payload' : List UInt8}
    (hkind : kind ≠ .dimensions) (h : Fits rows kind payload) (h' : Fits rows kind payload') :
    payload.length = payload'.length := by
  cases kind with
  | dimensions => exact absurd rfl hkind
  | header | wing | cwing | response => exact Eq.trans h (Eq.symm h')

/-! ## Where a stream stops being a file -/

section

variable {source : Source} {offset : Nat} {kind : RecordKind} {cause : FormatError}

/-- A stream is read no further than its first fault can be seen, if that is not for want of
bytes. -/
theorem taken_le_of_firstFault (steady : source.Steady) (fresh : source.taken = 0)
    (hle : offset ≤ source.pending.length)
    (h : FirstFault (source.pending.take offset) kind cause)
    (hcause : (Error.format cause).ranOut = false) (label : String) :
    (decode source label).1 = .error (.format cause) ∧
      (decode source label).2.source.taken ≤ offset := by
  have hcut := decode_of_firstFault (Source.steady_ofBytes _) label h
  rcases decode_cut steady fresh (Source.cutAt_ofBytes_take steady fresh hle) label with
    ⟨hsame, -, htaken⟩ | ⟨⟨e, he, hout⟩, -, -⟩
  · exact ⟨hsame.trans hcut, htaken⟩
  · cases hcut.symm.trans he
    rw [hcause] at hout
    cases hout

/-- A stream is read beyond every beginning of it that has another first fault. -/
theorem lt_taken_of_firstFault (steady : source.Steady) (fresh : source.taken = 0)
    (hle : offset ≤ source.pending.length)
    (h : FirstFault (source.pending.take offset) kind cause) (label : String)
    (hne : (decode source label).1 ≠ .error (.format cause)) :
    offset < (decode source label).2.source.taken := by
  have hcut := decode_of_firstFault (Source.steady_ofBytes _) label h
  rcases decode_cut steady fresh (Source.cutAt_ofBytes_take steady fresh hle) label with
    ⟨hsame, -, -⟩ | ⟨-, -, hlt⟩
  · exact absurd (hsame.trans hcut) hne
  · exact hlt

end

/-! ## Trailing markers -/

section

variable {p : Payloads} {kind : RecordKind} {tail : List UInt8}

/-- Behind records that are as they should be, a payload may lie whose trailing marker is not what
it should be. -/
theorem firstFault_of_tail (before : ∀ earlier ∈ kind.before, p.Holds earlier) {cause : FormatError}
    (hcause : framing kind.index (marker (p kind).length ++ (p kind ++ tail)) = .broken cause) :
    FirstFault (p.bytes kind.before ++ (marker (p kind).length ++ (p kind ++ tail)))
      kind cause := by
  refine ⟨p, _, rfl, before, ?_⟩
  rw [fault_eq, hcause]

/-- What is left of such a stream when it is cut within what follows the payload. -/
theorem take_trailingOffset_add (p : Payloads) (kind : RecordKind) (tail : List UInt8) (j : Nat) :
    (p.bytes kind.before ++ (marker (p kind).length ++ (p kind ++ tail))).take
        (p.trailingOffset kind + j) =
      p.bytes kind.before ++ (marker (p kind).length ++ (p kind ++ tail.take j)) := by
  have hoffset : p.trailingOffset kind + j =
      (p.bytes kind.before).length + ((marker (p kind).length).length + ((p kind).length + j)) := by
    rw [Payloads.trailingOffset, Payloads.leadingOffset, length_marker]
    omega
  rw [hoffset, List.take_length_add_append, List.take_length_add_append,
    List.take_length_add_append]

/-- **A damaged trailing marker is reported, and read as the last.**  With its four bytes the
mismatch is seen, and one byte less leaves the record cut short. -/
theorem decode_of_trailing {source : Source} (steady : source.Steady) (fresh : source.taken = 0)
    (before : ∀ earlier ∈ kind.before, p.Holds earlier) (hlt : (p kind).length < UInt32.size)
    {value : Nat} (hvalue : value < UInt32.size) (hne : value ≠ (p kind).length)
    {rest : List UInt8} (hpending : source.pending =
      p.bytes kind.before ++ (marker (p kind).length ++ (p kind ++ (marker value ++ rest))))
    (label : String) :
    (decode source label).1 =
        .error (.format (.recordSizeMismatch kind.index (p kind).length value)) ∧
      (decode source label).2.source.taken = p.trailingOffset kind + markerSize := by
  have hlength : p.trailingOffset kind + markerSize ≤ source.pending.length := by
    rw [hpending, Payloads.trailingOffset, Payloads.leadingOffset]
    simp only [List.length_append, length_marker]
    omega
  have hmismatch : FirstFault (source.pending.take (p.trailingOffset kind + markerSize)) kind
      (.recordSizeMismatch kind.index (p kind).length value) := by
    have hannounced := announced_marker_append hvalue []
    rw [List.append_nil] at hannounced
    rw [hpending, take_trailingOffset_add, List.take_left' (length_marker value)]
    refine firstFault_of_tail before ?_
    rw [framing_payload_append hlt, hannounced, length_marker, if_neg (Nat.lt_irrefl _), if_neg hne]
  have hshort : FirstFault (source.pending.take (p.trailingOffset kind + (markerSize - 1))) kind
      (.truncatedRecord kind.index markerSize (markerSize - 1)) := by
    have htail : ((marker value ++ rest).take (markerSize - 1)).length = markerSize - 1 := by
      rw [List.length_take, List.length_append, length_marker]
      omega
    rw [hpending, take_trailingOffset_add]
    refine firstFault_of_tail before ?_
    rw [framing_payload_append hlt, htail, if_pos (by decide)]
  obtain ⟨hdecode, hle⟩ := taken_le_of_firstFault steady fresh hlength hmismatch rfl label
  have hgt := lt_taken_of_firstFault steady fresh (by omega) hshort label (by rw [hdecode]; nofun)
  refine ⟨hdecode, ?_⟩
  simp only [markerSize] at hle hgt ⊢
  omega

end

/-! ## Leading markers -/

/-- **With a damaged leading marker the stream is no file.**  Up to that marker it would be the same
file, so the first record would be the same, and with it the length of every other one. -/
theorem not_file_of_leading {p : Payloads} (hp : p.IsFile) {kind : RecordKind}
    (hkind : kind ≠ .dimensions) {value : Nat} (hvalue : value < UInt32.size)
    (hne : value ≠ (p kind).length) {rest : List UInt8} {q : Payloads} (hq : q.IsFile) :
    ¬ q.bytes RecordKind.sequence <+: p.bytes kind.before ++ (marker value ++ rest) := by
  rintro ⟨more, hmore⟩
  obtain ⟨later, hlater⟩ := q.exists_bytes_sequence_eq kind
  rw [hlater, List.append_assoc, List.append_assoc] at hmore
  obtain ⟨hagree, hrest⟩ :=
    Payloads.eq_of_bytes_append (fun other _ => hq other) (fun other _ => hp other) hmore
  have hmem : RecordKind.dimensions ∈ kind.before := by
    revert hkind
    cases kind <;> decide
  have hrows : q.rows = p.rows := Payloads.rows_congr (hagree .dimensions hmem)
  have hlen : (q kind).length = (p kind).length :=
    Fits.length_eq hkind (hrows ▸ (hq kind).2) (hp kind).2
  have hannounced := congrArg announced hrest
  rw [frame_append, announced_marker_append (hq kind).1, announced_marker_append hvalue]
    at hannounced
  exact hne (hannounced.symm.trans hlen)

/-! ## Both -/

/-- A stream that begins with no file is not decoded. -/
theorem decode_of_not_file {source : Source} (steady : source.Steady) (label : String)
    (h : ∀ q : Payloads, q.IsFile → ¬ q.bytes RecordKind.sequence <+: source.pending) :
    ∃ e, (decode source label).1 = .error e := by
  rcases decode_ends steady label with ⟨kind, cause, r, hdecode, -⟩ | ⟨c, r, -, -, hr⟩
  · exact ⟨.format cause, by rw [hdecode]⟩
  · exact absurd hr.isPrefix (h _ hr.isFile)

/-- **A damaged marker is detected.**  What is decoded begins with a file; let one of the markers of
its five records be overwritten with another value, and let the bytes be handed out in any manner.
If it is a trailing marker, decoding reports that it differs from the leading one, with both values
and the number of the record, and has taken the bytes up to the end of that marker.  If it is a
leading marker, but not that of the first record, decoding fails. -/
theorem damaged_marker_detected {source : Source} (steady : source.Steady) {label : String}
    {c : Contents} {r : Reader} (h : decode source label = (.ok c, r)) :
    ∃ p : Payloads, p.IsFile ∧ p.bytes RecordKind.sequence <+: source.pending ∧
      ∀ (damaged : Source), damaged.Steady → damaged.taken = 0 →
        ∀ (kind : RecordKind) (value : Nat) (label' : String), value < UInt32.size →
          value ≠ (p kind).length →
            (damaged.pending = overwriteMarker source.pending (p.trailingOffset kind) value →
              (decode damaged label').1 =
                  .error (.format (.recordSizeMismatch kind.index (p kind).length value)) ∧
                (decode damaged label').2.source.taken = p.trailingOffset kind + markerSize) ∧
            (kind ≠ .dimensions →
              damaged.pending = overwriteMarker source.pending (p.leadingOffset kind) value →
                ∃ e, (decode damaged label').1 = .error e) := by
  rcases decode_ends steady label with ⟨kind, cause, r', hfail, -⟩ | ⟨c', r', -, -, hr⟩
  · rw [h] at hfail
    cases hfail
  have hp := hr.isFile
  refine ⟨_, hp, hr.isPrefix, fun damaged steady' fresh kind value label' hvalue hne =>
    ⟨fun htrailing => ?_, fun hkind hleading => ?_⟩⟩
  · obtain ⟨rest, hrest⟩ := Payloads.exists_overwrite_trailing hr.isPrefix kind value
    exact decode_of_trailing steady' fresh (fun other _ => hp other) (hp kind).1 hvalue hne
      (htrailing.trans hrest) label'
  · obtain ⟨rest, hrest⟩ := Payloads.exists_overwrite_leading hr.isPrefix kind value
    refine decode_of_not_file steady' label' fun q hq => ?_
    rw [hleading, hrest]
    exact not_file_of_leading hp hkind hvalue hne hq

/-- The file with a single G-vector, its first trailing marker overwritten, and then the leading
marker of its header: the zeros of the payload look like the trailing marker of an empty record. -/
theorem damaged_marker_detected_single :
    singleSource.Steady ∧ ∃ c r, decode singleSource "single" = (.ok c, r) ∧
      (decode (.ofBytes (overwriteMarker singleSource.pending 12 9)) "damaged").1 =
        .error (.format (.recordSizeMismatch 1 8 9)) ∧
      (decode (.ofBytes (overwriteMarker singleSource.pending 12 9)) "damaged").2.source.taken =
        16 ∧
      ∃ e, (decode (.ofBytes (overwriteMarker singleSource.pending 16 0)) "damaged").1 =
        .error e := by
  have steady : singleSource.Steady := ⟨fun _ => show some 5 ≠ some 0 by decide, rfl⟩
  have hsingle : single.bytes RecordKind.sequence <+: singleSource.pending :=
    List.prefix_append _ _
  obtain ⟨c, r, hdecode, -⟩ := decode_of_isFile steady "single" single_isFile hsingle
  obtain ⟨p, hp, hfront, hdamaged⟩ := damaged_marker_detected steady hdecode
  obtain rfl : p = single := hp.eq single_isFile hfront hsingle
  obtain ⟨htrailing, -⟩ :=
    hdamaged (.ofBytes (overwriteMarker singleSource.pending 12 9)) (Source.steady_ofBytes _) rfl
      .dimensions 9 "damaged" (by decide) (by decide)
  obtain ⟨hdecode', htaken⟩ := htrailing rfl
  obtain ⟨-, hleading⟩ :=
    hdamaged (.ofBytes (overwriteMarker singleSource.pending 16 0)) (Source.steady_ofBytes _) rfl
      .header 0 "damaged" (by decide) (by decide +kernel)
  exact ⟨steady, c, r, hdecode, hdecode', htaken, hleading (by decide) rfl⟩

end Screening
