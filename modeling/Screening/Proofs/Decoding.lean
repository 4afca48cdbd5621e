import Screening.Proofs.PayloadContents
import Screening.Proofs.Reading

/-!
# Decoding finds a file or its first fault

Decoding reads five records, one behind the other, and each of them in the same way: what the frame
turns out to be, whether its elements are whole, and whether they are what the place calls for.
`ReadsRecord` says this once, and every part of the contents is read like that.

The records are then put behind one another.  `Reached start done r` is the invariant: between two
records the reader stands behind those that are done, all of which are as they should be.  `Ends` is
what is kept of an operation: it fails with the first fault of the stream, or something holds of
what it gives.

* `Payloads.found bytes` — the payloads that lie in a stream, as far as it holds any.
* `Reached.read` — the step from one record to the next.
* `read_ends` — five steps: the contents of a file, or the first fault.
-/

set_option autoImplicit false

namespace Screening

open Reading

/-! ## Reading a record in its place -/

namespace Framing

/-- The payload, if there is one. -/
def payload : Framing → List UInt8
  | whole payload => payload
  | _ => []

/-- The elements of a record that has to be there. -/
def elements (α : Type) [Element α] (kind : RecordKind) : Framing → Except FormatError (List α)
  | ended => .error (.missing kind)
  | broken cause => .error cause
  | whole payload => decodeElements α kind.index payload

end Framing

section

variable {α : Type} [Element α] {r : Reader}

theorem Contents.nextElements_goesOver {kind : RecordKind} (hs : r.source.Steady)
    (hk : r.recordsRead + 1 = kind.index) :
    Reader.GoesOver (nextElements α kind) r (Framing.elements α kind) := by
  refine Reader.GoesOver.bind (fun found => found.elim (.error (.missing kind)) .ok)
    (Reader.readWith_goesOver (Record.decode α) hs) (fun found => ?_) fun f => ?_
  · cases found <;> rfl
  · rw [hk]
    cases f with
    | ended => rfl
    | broken cause => rfl
    | whole payload =>
      rw [Framing.elements, Framing.answerWith, Record.decode]
      cases decodeElements α kind.index payload <;> rfl

end

/-- An operation reads the record of a kind: it goes over the record, and its outcome is settled by
what is wrong with the record and by what lies in its payload. -/
def ReadsRecord {α : Type} (m : Reading α) (kind : RecordKind) (rows : Nat)
    (Means : List UInt8 → α → Prop) : Prop :=
  ∀ r : Reader, r.source.Steady → r.recordsRead + 1 = kind.index →
    ∃ outcome r', m r = ofFormat outcome r' ∧
      r.Moved (extent r.source.pending) (framing kind.index r.source.pending).count r' ∧
      Settled (fault rows kind r.source.pending) outcome
        (Means (framing kind.index r.source.pending).payload)

section

variable {α β : Type} {kind : RecordKind} {rows : Nat}

/-- Whatever checks the elements of a record checks its payload, once that is framed and whole. -/
theorem readsRecord_of_check [Element α] {check : List α → Except FormatError β}
    {Means : List UInt8 → β → Prop} (kind : RecordKind) (hsize : Element.size α = elementSize kind)
    (hcheck : ∀ payload, Settled (contentFault rows kind payload)
      (check (elementsOf α (payload.length / elementSize kind) payload)) (Means payload)) :
    ReadsRecord (Contents.nextElements α kind >>= fun xs => ofFormat (check xs)) kind rows
      Means := by
  intro r hs hk
  obtain ⟨r', hnext, moved⟩ := Contents.nextElements_goesOver (α := α) hs hk
  rw [hk] at hnext moved
  refine ⟨_, r', bind_ofFormat hnext, moved, ?_⟩
  rw [fault_eq]
  cases framing kind.index r.source.pending with
  | ended => rfl
  | broken cause => rfl
  | whole payload =>
    rw [Framing.elements, decodeElements_eq, hsize]
    dsimp only
    rw [payloadFault]
    split
    · exact hcheck payload
    · rfl

/-- A note that is added in the end changes nothing. -/
theorem ReadsRecord.note {m : Reading α} {Means : List UInt8 → α → Prop}
    (h : ReadsRecord m kind rows Means) (event : Event) :
    ReadsRecord (do let x ← m; Reader.note event; return x) kind rows Means := by
  intro r hs hk
  obtain ⟨outcome, r₁, hm, moved, settled⟩ := h r hs hk
  obtain ⟨r₂, hnote, moved'⟩ := Reader.note_eq event r₁
  cases outcome with
  | error cause => exact ⟨_, r₁, bind_error hm, moved, settled⟩
  | ok x =>
    refine ⟨.ok x, r₂, ?_, moved.trans moved', settled⟩
    rw [bind_ok hm, bind_ok hnote]
    rfl

end

namespace Contents

theorem readDimensions_reads (rows : Nat) :
    ReadsRecord readDimensions .dimensions rows SizesOf :=
  readsRecord_of_check .dimensions rfl (ofFields_elementsOf rows)

theorem readHeader_reads (rows : Nat) : ReadsRecord readHeader .header rows HeaderOf := by
  have h := (readsRecord_of_check .header rfl (ofValues_elementsOf rows)).note .headerRead
  rwa [bind_assoc] at h

theorem readMatrix_reads {kind : RecordKind} {rows nrows ncols : Nat}
    (hsize : elementSize kind = 16) (hdue : elementsDue rows kind = nrows * ncols)
    (hlt : nrows * ncols < wordLimit) :
    ReadsRecord (readMatrix kind (nrows, ncols)) kind rows (MatrixOf nrows ncols) := by
  have hcheck : ∀ payload, Settled (contentFault rows kind payload)
      (reshape kind (elementsOf Complex128 (payload.length / elementSize kind) payload)
        (nrows, ncols)) (MatrixOf nrows ncols payload) := by
    intro payload
    rw [hsize]
    exact reshape_elementsOf hsize hdue hlt payload
  have hwidth : Element.size Complex128 = 16 := rfl
  have h : ReadsRecord (nextElements Complex128 kind >>= fun data =>
      ofFormat (reshape kind data (nrows, ncols))) kind rows (MatrixOf nrows ncols) :=
    readsRecord_of_check kind (hwidth.trans hsize.symm) hcheck
  have h' := h.note (.matrixRead kind nrows ncols)
  rwa [bind_assoc] at h'

end Contents

/-! ## From one record to the next -/

/-- What is left of a stream behind its first `n` records, whether or not they are as they should
be. -/
def afterRecords : Nat → List UInt8 → List UInt8
  | 0, bytes => bytes
  | n + 1, bytes => (afterRecords n bytes).drop (extent (afterRecords n bytes))

/-- The payloads that lie in a stream one behind the other, as far as there are any. -/
def Payloads.found (bytes : List UInt8) : Payloads := fun kind =>
  (framing kind.index (afterRecords kind.before.length bytes)).payload

/-- The reader stands in the source behind the records that are done, all of which are as they
should be. -/
structure Reached (start : Source) (done : List RecordKind) (r : Reader) : Prop where
  /-- The source does not fail. -/
  steady : r.source.Steady
  /-- The records are counted. -/
  recordsRead : r.recordsRead = done.length
  /-- The records are gone from the source. -/
  pending : r.source.pending = afterRecords done.length start.pending
  /-- They are what it held first. -/
  bytes : start.pending = (Payloads.found start.pending).bytes done ++ r.source.pending
  /-- Their bytes, and no others, have been handed out. -/
  taken : r.source.taken = start.taken + ((Payloads.found start.pending).bytes done).length
  /-- They are as they should be. -/
  holds : ∀ kind ∈ done, (Payloads.found start.pending).Holds kind

theorem reached_ofSource {start : Source} (steady : start.Steady) :
    Reached start [] (Reader.ofSource start) :=
  ⟨steady, rfl, rfl, rfl, rfl, fun _ hmem => absurd hmem List.not_mem_nil⟩

/-- An operation fails with the first fault of the stream, or something holds of what it gives and
of the reader after it. -/
def Ends {α : Type} (start : Source) (m : Reading α) (r : Reader) (Q : α → Reader → Prop) : Prop :=
  (∃ kind cause r', m r = .error (.format cause) r' ∧ FirstFault start.pending kind cause) ∨
    ∃ x r', m r = .ok x r' ∧ Q x r'

theorem Ends.bind {α β : Type} {start : Source} {m : Reading α} {f : α → Reading β} {r : Reader}
    {Q : α → Reader → Prop} {R : β → Reader → Prop} (h : Ends start m r Q)
    (hf : ∀ x r', Q x r' → Ends start (f x) r' R) : Ends start (m >>= f) r R := by
  rcases h with ⟨kind, cause, r', hm, hfirst⟩ | ⟨x, r', hm, hx⟩
  · exact Or.inl ⟨kind, cause, r', bind_error hm, hfirst⟩
  rcases hf x r' hx with ⟨kind, cause, r'', hfx, hfirst⟩ | ⟨y, r'', hfx, hy⟩
  · exact Or.inl ⟨kind, cause, r'', (bind_ok hm).trans hfx, hfirst⟩
  · exact Or.inr ⟨y, r'', (bind_ok hm).trans hfx, hy⟩

namespace Reached

variable {start : Source} {r : Reader}

theorem note {done : List RecordKind} (h : Reached start done r) (event : Event) :
    Ends start (Reader.note event) r fun _ r' => Reached start done r' := by
  obtain ⟨r', hnote, moved⟩ := Reader.note_eq event r
  have hpending : r'.source.pending = r.source.pending := moved.pending
  refine Or.inr ⟨(), r', hnote, moved.source.steady h.steady, moved.recordsRead.trans h.recordsRead,
    hpending.trans h.pending, ?_, moved.source.taken.trans h.taken, h.holds⟩
  rw [hpending]
  exact h.bytes

/-- **From one record to the next.**  The record of a kind is read where those before it are done:
it is the first at fault, or it is done as well and says what lies in its payload. -/
theorem read {α : Type} {m : Reading α} {Means : List UInt8 → α → Prop} (kind : RecordKind)
    (h : Reached start kind.before r)
    (reads : ReadsRecord m kind (Payloads.found start.pending).rows Means) :
    Ends start m r fun x r' => Means (Payloads.found start.pending kind) x ∧
      Reached start (kind.before ++ [kind]) r' := by
  have hindex : kind.before.length + 1 = kind.index := by cases kind <;> rfl
  obtain ⟨outcome, r', hm, moved, settled⟩ := reads r h.steady (by rw [h.recordsRead, hindex])
  have hfound : Payloads.found start.pending kind =
      (framing kind.index r.source.pending).payload := by
    rw [Payloads.found, h.pending]
  rw [← hfound] at settled
  cases hfault : fault (Payloads.found start.pending).rows kind r.source.pending with
  | some cause =>
    rw [hfault] at settled
    obtain rfl : outcome = .error cause := settled
    exact Or.inl ⟨kind, cause, r', hm, _, _, h.bytes, h.holds, hfault⟩
  | none =>
    rw [hfault] at settled
    obtain ⟨x, rfl, hmeans⟩ := settled
    obtain ⟨payload, hframing, hfits⟩ := fault_eq_none_iff.1 hfault
    obtain ⟨hlt, rest, hrest⟩ := framing_eq_whole_iff.1 hframing
    rw [hframing] at hfound moved
    have hpayload : Payloads.found start.pending kind = payload := hfound
    have hextent : extent r.source.pending = (frame payload).length := by
      rw [← hrest, extent_frame_append hlt, length_frame]
    have hpending : r'.source.pending = rest := by
      rw [moved.pending, hextent, ← hrest, List.drop_left]
    have hone : (Payloads.found start.pending).bytes [kind] = frame payload := by
      rw [Payloads.bytes_cons, hpayload]
      exact List.append_nil _
    refine Or.inr ⟨x, r', hm, hmeans, ⟨moved.source.steady h.steady, ?_, ?_, ?_, ?_, ?_⟩⟩
    · rw [moved.recordsRead, h.recordsRead, List.length_append]
      rfl
    · rw [moved.pending, h.pending, List.length_append]
      rfl
    · rw [Payloads.bytes_append, hone, List.append_assoc, hpending, hrest]
      exact h.bytes
    · rw [moved.source.taken, h.taken, hextent, Payloads.bytes_append, hone, List.length_append,
        Nat.add_assoc]
    · rintro other hmem
      rcases List.mem_append.1 hmem with hbefore | hkind
      · exact h.holds other hbefore
      · rw [List.mem_singleton.1 hkind, Payloads.Holds, hpayload]
        exact ⟨hlt, hfits⟩

end Reached

/-- The contents bear the label and say what lies in the payloads. -/
structure ContentsOf (label : String) (p : Payloads) (c : Contents) : Prop where
  /-- The label is the one given. -/
  source : c.source = label
  /-- The sizes are those of the first payload. -/
  dimensions : SizesOf (p .dimensions) c.dimensions
  /-- The header is the second payload. -/
  header : HeaderOf (p .header) c.header
  /-- The first matrix is the third payload. -/
  wing : MatrixOf p.rows 3 (p .wing) c.wing
  /-- The second matrix is the fourth payload. -/
  cwing : MatrixOf p.rows 3 (p .cwing) c.cwing
  /-- The third matrix is the fifth payload. -/
  response : MatrixOf p.rows p.rows (p .response) c.response

namespace SizesOf

variable {p : Payloads} {d : Dimensions}

theorem rows (h : SizesOf (p .dimensions) d) : d.rows = p.rows := by
  have := h.ngvector
  rw [Dimensions.rows, Payloads.rows]
  omega

/-- The shapes that the sizes call for are within the words. -/
theorem shapes (h : SizesOf (p .dimensions) d) :
    (d.wingShape = (p.rows, 3) ∧ p.rows * 3 < wordLimit) ∧
      d.responseShape = (p.rows, p.rows) ∧ p.rows * p.rows < wordLimit := by
  have hle : p.rows ≤ maxSize := h.rows ▸ d.ngvector_le
  have hsquare : p.rows * p.rows ≤ maxSize * maxSize := Nat.mul_le_mul hle hle
  have hlimit : maxSize * 3 < wordLimit ∧ maxSize * maxSize < wordLimit := by decide
  rw [Dimensions.wingShape, Dimensions.responseShape, h.rows]
  exact ⟨⟨rfl, Nat.lt_of_le_of_lt (Nat.mul_le_mul_right 3 hle) hlimit.1⟩, rfl,
    Nat.lt_of_le_of_lt hsquare hlimit.2⟩

end SizesOf

/-- **Reading a file ends with the contents of the file that lies at the front of the stream, or
with the first fault of the stream.** -/
theorem read_ends {start : Source} (steady : start.Steady) (label : String) :
    Ends start (Contents.read label) (Reader.ofSource start) fun c r' =>
      ContentsOf label (Payloads.found start.pending) c ∧
        Reached start RecordKind.sequence r' := by
  refine ((reached_ofSource steady).read .dimensions
    (Contents.readDimensions_reads _)).bind fun d r₁ ⟨sizes, h₁⟩ => ?_
  obtain ⟨⟨hwings, hwingsLt⟩, hsquare, hsquareLt⟩ := sizes.shapes
  rw [hwings, hsquare]
  refine (h₁.note _).bind fun _ r₂ h₂ => ?_
  refine (h₂.read .header (Contents.readHeader_reads _)).bind fun header r₃ ⟨hheader, h₃⟩ => ?_
  refine (h₃.read .wing (Contents.readMatrix_reads rfl (Nat.mul_comm ..) hwingsLt)).bind
    fun wing r₄ ⟨hwing, h₄⟩ => ?_
  refine (h₄.read .cwing (Contents.readMatrix_reads rfl (Nat.mul_comm ..) hwingsLt)).bind
    fun cwing r₅ ⟨hcwing, h₅⟩ => ?_
  refine (h₅.read .response (Contents.readMatrix_reads rfl rfl hsquareLt)).bind
    fun response r₆ ⟨hresponse, h₆⟩ => ?_
  exact Or.inr ⟨_, r₆, rfl, ⟨rfl, sizes, hheader, hwing, hcwing, hresponse⟩, h₆⟩

end Screening
