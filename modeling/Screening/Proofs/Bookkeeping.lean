import Screening.Proofs.Elements
import Screening.Proofs.Reading

/-!
# The books that a reader keeps

A reader counts the bytes it has gone and the records it has framed, and goes on after failures.
This file shows that the counts never part from the source: not where a marker is cut short, not
where a payload or a trailing marker is missing, not where the markers differ, and not where a
payload does not fit the type asked for.

* `Observation.framed` — a step framed a record, as can be told from its answer.
* `Booked bytes r` — the invariant: `r` stands in `bytes` where its position says.
* `Spans bytes before after record` — `record` is what lies in `bytes` between two readers.
* `bookkeeping` — the books are right after every step of every walk.
-/

set_option autoImplicit false

namespace Screening

namespace Reader

/-- A step framed a record: it answered one in some form, or failed only because the payload did
not fit the type asked for. -/
def Observation.framed (seen : Observation) : Bool :=
  match seen.result with
  | .ok .endOfStream => false
  | .ok _ => true
  | .error (.format (.malformedPayloadSize ..)) => true
  | .error _ => false

/-- A step came upon no record, and says how: the source had ended, it ended within the record, or
the markers of the record differ.  The record would have been the given one. -/
def Observation.Unframed (seen : Observation) (record : Nat) : Prop :=
  seen.result = .ok .endOfStream ∨
    (∃ expected available,
      seen.result = .error (.format (.truncatedRecord record expected available))) ∨
    ∃ leading trailing,
      seen.result = .error (.format (.recordSizeMismatch record leading trailing))

/-- A record is what lies in `bytes` between where one reader stands and where another does, and
is the last one that the other has counted. -/
structure Spans (bytes : List UInt8) (before after : Reader) (record : Record) : Prop where
  /-- It bears the number of records counted. -/
  index : record.index = after.recordsRead
  /-- It begins where the first reader stands. -/
  offset : record.offset = before.position
  /-- Its frame lies there. -/
  bytes : (bytes.drop record.offset).take (8 + record.payload.length) = frame record.payload
  /-- It declares the length of its payload. -/
  declared : record.declaredLength = record.payload.length
  /-- The other reader stands where it ends. -/
  position : after.position = record.offset + span record.payload.length

/-- A reader stands in `bytes` where its position says, and its source agrees. -/
structure Booked (bytes : List UInt8) (r : Reader) : Prop where
  /-- The source does not fail. -/
  steady : r.source.Steady
  /-- The source has handed out what the position counts. -/
  position : r.position = r.source.taken
  /-- The source holds the bytes that follow. -/
  pending : r.source.pending = bytes.drop r.position

theorem booked_ofSource {source : Source} (steady : source.Steady) (fresh : source.taken = 0) :
    Booked source.pending (ofSource source) :=
  ⟨steady, fresh.symm, rfl⟩

theorem Booked.moved {bytes : List UInt8} {r r' : Reader} {n k : Nat} (h : Booked bytes r)
    (moved : r.Moved n k r') : Booked bytes r' where
  steady := moved.source.steady h.steady
  position := by rw [moved.position, moved.source.taken, h.position]
  pending := by rw [moved.pending, h.pending, List.drop_drop, moved.position]

/-! ## One step -/

/-- Whatever a step makes of a record, it shows that there was one. -/
theorem framed_answer (step : Step) (found : Record) (recordsRead position : Nat) :
    Observation.framed ⟨(step.answer found).mapError .format, recordsRead, position⟩ = true := by
  have typed (type : Option ElementType) : Observation.framed
      ⟨(Answer.payload <$> found.decodeAs type : Except FormatError Answer).mapError .format,
        recordsRead, position⟩ = true := by
    cases h : found.decodeAs type with
    | ok payload => rfl
    | error cause =>
      obtain ⟨size, rfl⟩ := TypedPayload.ofBytes_error h
      rfl
  cases step with
  | record => rfl
  | elements type => exact typed (some type)
  | typed type => exact typed type
  | every => rfl

theorem unframed_broken {record : Nat} {bytes : List UInt8} {cause : FormatError}
    (h : framing record bytes = .broken cause) (recordsRead position : Nat) :
    let seen : Observation := ⟨.error (.format cause), recordsRead, position⟩
    seen.framed = false ∧ seen.Unframed record := by
  rcases cause_of_framing_broken h with ⟨expected, available, rfl⟩ | ⟨leading, trailing, rfl⟩
  · exact ⟨rfl, Or.inr (Or.inl ⟨expected, available, rfl⟩)⟩
  · exact ⟨rfl, Or.inr (Or.inr ⟨leading, trailing, rfl⟩)⟩

/-- A whole record is what the reader has gone over. -/
theorem spans_of_whole {bytes payload : List UInt8} {r r' : Reader} (h : Booked bytes r)
    (hf : framing (r.recordsRead + 1) r.source.pending = .whole payload)
    (moved : r.Moved (extent r.source.pending) 1 r') :
    Spans bytes r r' ⟨r.recordsRead + 1, r.position, payload⟩ := by
  obtain ⟨hlt, hframe⟩ := framing_eq_whole_iff.1 hf
  obtain ⟨rest, hrest⟩ := hframe
  rw [← hrest, extent_frame_append hlt] at moved
  refine ⟨moved.recordsRead.symm, rfl, ?_, ?_, moved.position⟩
  · have hsize : (frame payload).length = 8 + payload.length := by
      rw [length_frame, span, markerSize]
      omega
    show (bytes.drop r.position).take (8 + payload.length) = frame payload
    rw [← h.pending, ← hrest, List.take_left' hsize]
  · exact Record.declaredLength_eq ⟨_, _, payload⟩ hlt

/-- What is seen of a step, and where it leaves the reader, agree with the bytes: either it framed
the record that lies there and counted it, or it framed none and counted none. -/
def Accounted (bytes : List UInt8) (before : Reader) (step : Step) (seen : Observation)
    (after : Reader) : Prop :=
  (seen.framed = true ∧ after.recordsRead = before.recordsRead + 1 ∧
      ∃ record, Spans bytes before after record ∧
        seen.result = (step.answer record).mapError .format) ∨
    (seen.framed = false ∧ after.recordsRead = before.recordsRead ∧
      seen.Unframed (before.recordsRead + 1))

/-- **One step keeps the books.** -/
theorem observe_booked {bytes : List UInt8} {r : Reader} (h : Booked bytes r) (step : Step) :
    ∃ seen r', observe step r = (seen, r') ∧ Booked bytes r' ∧
      seen.recordsRead = r'.recordsRead ∧ seen.position = r'.position ∧
      Accounted bytes r step seen r' := by
  obtain ⟨r', hobserve, moved⟩ := observe_eq h.steady step
  cases hf : framing (r.recordsRead + 1) r.source.pending with
  | ended =>
    rw [hf] at hobserve moved
    exact ⟨_, r', hobserve, h.moved moved, rfl, rfl,
      Or.inr ⟨rfl, moved.recordsRead, Or.inl rfl⟩⟩
  | broken cause =>
    rw [hf] at hobserve moved
    obtain ⟨hno, hunframed⟩ := unframed_broken hf r'.recordsRead r'.position
    exact ⟨_, r', hobserve, h.moved moved, rfl, rfl,
      Or.inr ⟨hno, moved.recordsRead, hunframed⟩⟩
  | whole payload =>
    rw [hf] at hobserve moved
    exact ⟨_, r', hobserve, h.moved moved, rfl, rfl,
      Or.inl ⟨framed_answer step _ _ _, moved.recordsRead, _, spans_of_whole h hf moved, rfl⟩⟩

/-! ## Walks -/

/-- The books stay in order over a walk, and the records counted are the steps that framed one. -/
theorem run_booked {bytes : List UInt8} {r : Reader} (h : Booked bytes r) (steps : List Step) :
    Booked bytes (run steps r).2 ∧
      (run steps r).2.recordsRead = r.recordsRead + (run steps r).1.countP Observation.framed := by
  induction steps generalizing r with
  | nil => exact ⟨h, rfl⟩
  | cons step rest ih =>
    obtain ⟨seen, r', hobserve, booked, -, -, accounted⟩ := observe_booked h step
    obtain ⟨booked', hcount⟩ := ih booked
    simp only [run, hobserve]
    refine ⟨booked', ?_⟩
    rw [hcount, List.countP_cons]
    rcases accounted with ⟨hframed, hone, -⟩ | ⟨hframed, hnone, -⟩
    · rw [hframed, hone, if_pos rfl]
      omega
    · rw [hframed, hnone, if_neg Bool.false_ne_true]
      omega

/-- **The books of a reader never part from its source.**  After any walk, with whatever failures,
one more step is seen with the reader's own counts; the position is what the source has handed out;
the records read are the steps that framed one; and the step is accounted for in the bytes. -/
theorem bookkeeping {source : Source} (steady : source.Steady) (fresh : source.taken = 0)
    (done : List Step) (step : Step) :
    let before := (run done (ofSource source)).2
    ∃ seen after,
      run (done ++ [step]) (ofSource source) = ((run done (ofSource source)).1 ++ [seen], after) ∧
      seen.position = after.position ∧ seen.recordsRead = after.recordsRead ∧
      after.position = after.source.taken ∧
      after.recordsRead =
        ((run done (ofSource source)).1 ++ [seen]).countP Observation.framed ∧
      Accounted source.pending before step seen after := by
  intro before
  have hstart := booked_ofSource steady fresh
  obtain ⟨seen, after, hobserve, booked, hrecords, hposition, accounted⟩ :=
    observe_booked (run_booked hstart done).1 step
  have hrun : run (done ++ [step]) (ofSource source) =
      ((run done (ofSource source)).1 ++ [seen], after) := by
    rw [run_append]
    simp only [run, hobserve]
  refine ⟨seen, after, hrun, hposition, hrecords, booked.position, ?_, accounted⟩
  have hcount := (run_booked hstart (done ++ [step])).2
  rw [hrun] at hcount
  rw [hcount]
  exact Nat.zero_add _

/-- Five bytes in a frame, then a record that is cut short; three bytes at a time at most, and
interrupted within the first record and at its end. -/
def cutShort : Source :=
  ⟨frame [1, 2, 3, 4, 5] ++ marker 9 ++ [7], 0, (some 3 : Option Nat), [0, 6, 6, 13], none⟩

theorem bookkeeping_cutShort :
    cutShort.Steady ∧ cutShort.taken = 0 ∧
      ∃ seen after, run [.elements .int32, .every] (ofSource cutShort) =
          ((run [.elements .int32] (ofSource cutShort)).1 ++ [seen], after) ∧
        after.position = after.source.taken ∧
        Accounted cutShort.pending (run [.elements .int32] (ofSource cutShort)).2 .every seen
          after := by
  have steady : cutShort.Steady := ⟨fun _ => show some 3 ≠ some 0 by decide, rfl⟩
  obtain ⟨seen, after, hrun, -, -, htaken, -, accounted⟩ :=
    bookkeeping steady rfl [.elements .int32] .every
  exact ⟨steady, rfl, seen, after, hrun, htaken, accounted⟩

end Reader

end Screening
