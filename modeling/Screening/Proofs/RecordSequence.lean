import Screening.Proofs.Reading

/-!
# The records of a stream are its frames

Reading records one after the other takes a stream apart into the frames that it consists of, and
in no other way.

* `answers n r` — what `n` readings of a record answer.
* `answers_frames` — frames are read back as their payloads, in order, and then the end.
* `frames_of_answers` — records up to the end of a stream are all there is in it.
* `records_are_frames` — both, from the start of a source.
-/

set_option autoImplicit false

namespace Screening

namespace Reader

/-- What the next `n` readings of a record answer. -/
def answers (n : Nat) (r : Reader) : List (Except Error Answer) :=
  (run (List.replicate n .record) r).1.map Observation.result

theorem answers_succ {r r' : Reader} {seen : Observation} (h : observe .record r = (seen, r'))
    (n : Nat) : answers (n + 1) r = seen.result :: answers n r' := by
  simp only [answers, List.replicate_succ, run, h, List.map_cons]

/-- The bytes that some payloads take together with their markers. -/
def spanOf : List (List UInt8) → Nat
  | [] => 0
  | payload :: rest => span payload.length + spanOf rest

/-! ## From frames to records -/

variable {r : Reader}

theorem observe_record_nil (hs : r.source.Steady) (h : r.source.pending = []) :
    ∃ seen r', observe .record r = (seen, r') ∧ seen.result = .ok .endOfStream ∧
      r'.source.Steady ∧ r'.source.pending = [] := by
  obtain ⟨r', hobserve, moved⟩ := observe_eq hs .record
  refine ⟨_, r', hobserve, ?_, moved.source.steady hs, ?_⟩
  · rw [h]
    rfl
  · rw [moved.pending, h, List.drop_nil]

theorem observe_record_frame (hs : r.source.Steady) {payload rest : List UInt8}
    (hp : payload.length < UInt32.size) (h : r.source.pending = frame payload ++ rest) :
    ∃ seen r', observe .record r = (seen, r') ∧
      seen.result = .ok (.record ⟨r.recordsRead + 1, r.position, payload⟩) ∧
      r'.source.Steady ∧ r'.source.pending = rest ∧ r'.recordsRead = r.recordsRead + 1 ∧
      r'.position = r.position + span payload.length := by
  obtain ⟨r', hobserve, moved⟩ := observe_eq hs .record
  rw [h, extent_frame_append hp, framing_frame_append hp] at moved
  refine ⟨_, r', hobserve, ?_, moved.source.steady hs, ?_, moved.recordsRead, moved.position⟩
  · rw [h, framing_frame_append hp]
    rfl
  · rw [moved.pending, h, ← length_frame, List.drop_left]

/-- Frames are read back in order, and after the last of them every reading finds the end. -/
theorem answers_frames {payloads : List (List UInt8)} (hs : r.source.Steady)
    (hp : ∀ payload ∈ payloads, payload.length < UInt32.size)
    (h : r.source.pending = payloads.flatMap frame) {n j : Nat} (hj : j < n) :
    (answers n r)[j]? = some (.ok (match payloads[j]? with
      | some payload =>
        .record ⟨r.recordsRead + 1 + j, r.position + spanOf (payloads.take j), payload⟩
      | none => .endOfStream)) := by
  induction n generalizing r payloads j with
  | zero => omega
  | succ n ih =>
    cases payloads with
    | nil =>
      obtain ⟨seen, r', hobserve, hseen, hs', hnil⟩ := observe_record_nil hs h
      rw [answers_succ hobserve, hseen]
      cases j with
      | zero => rfl
      | succ j =>
        rw [List.getElem?_cons_succ]
        exact ih hs' hp hnil (Nat.lt_of_succ_lt_succ hj)
    | cons payload rest =>
      obtain ⟨seen, r', hobserve, hseen, hs', hrest, hrecords, hposition⟩ :=
        observe_record_frame hs (hp payload (List.mem_cons_self ..)) h
      rw [answers_succ hobserve, hseen]
      cases j with
      | zero => rfl
      | succ j =>
        have hp' : ∀ other ∈ rest, other.length < UInt32.size := fun other hmem =>
          hp other (List.mem_cons_of_mem _ hmem)
        rw [List.getElem?_cons_succ, ih hs' hp' hrest (Nat.lt_of_succ_lt_succ hj),
          List.getElem?_cons_succ]
        have hindex : r'.recordsRead + 1 + j = r.recordsRead + 1 + (j + 1) := by omega
        have hoffset : r'.position + spanOf (rest.take j) =
            r.position + spanOf ((payload :: rest).take (j + 1)) := by
          rw [hposition, List.take_succ_cons, spanOf, Nat.add_assoc]
        rw [hindex, hoffset]

/-! ## From records to frames -/

theorem framing_ended_of_seen {f : Framing} {index offset : Nat}
    (h : (f.stepAnswer .record index offset).mapError Error.format = .ok .endOfStream) :
    f = .ended := by
  cases f with
  | ended => rfl
  | broken cause => cases h
  | whole payload => cases h

theorem framing_whole_of_seen {f : Framing} {index offset : Nat} {record : Record}
    (h : (f.stepAnswer .record index offset).mapError Error.format = .ok (.record record)) :
    f = .whole record.payload := by
  cases f with
  | ended => cases h
  | broken cause => cases h
  | whole payload => cases h; rfl

/-- If the readings of a record answer records and then the end, the frames of these records are
what was pending. -/
theorem frames_of_answers {found : List Record} (hs : r.source.Steady)
    (h : answers (found.length + 1) r =
      found.map (fun record => .ok (.record record)) ++ [.ok .endOfStream]) :
    (∀ record ∈ found, record.payload.length < UInt32.size) ∧
      r.source.pending = (found.map Record.payload).flatMap frame := by
  induction found generalizing r with
  | nil =>
    obtain ⟨r', hobserve, -⟩ := observe_eq hs .record
    rw [List.length_nil, answers_succ hobserve] at h
    have hf := framing_ended_of_seen (List.cons.inj h).1
    exact ⟨fun _ hmem => absurd hmem (List.not_mem_nil), framing_eq_ended_iff.1 hf⟩
  | cons record rest ih =>
    obtain ⟨r', hobserve, moved⟩ := observe_eq hs .record
    rw [List.length_cons, answers_succ hobserve] at h
    obtain ⟨hseen, hrest⟩ := List.cons.inj h
    obtain ⟨hlt, later, hframe⟩ := framing_eq_whole_iff.1 (framing_whole_of_seen hseen)
    have hpending : r'.source.pending = later := by
      rw [moved.pending, ← hframe, extent_frame_append hlt, ← length_frame, List.drop_left]
    obtain ⟨hall, hflat⟩ := ih (moved.source.steady hs) hrest
    refine ⟨List.forall_mem_cons.2 ⟨hlt, hall⟩, ?_⟩
    rw [← hframe, ← hpending, hflat, List.map_cons, List.flatMap_cons]

/-- **A stream is read as records exactly if it consists of frames.**  Where a source holds the
frames of some payloads, the `j`-th reading of a record answers the `j`-th payload with its number,
its offset and its length, and every reading past the last payload finds the end.  Conversely,
where readings answer records and then the end, the source held the frames of their payloads. -/
theorem records_are_frames {source : Source} (steady : source.Steady) :
    (∀ payloads : List (List UInt8), (∀ payload ∈ payloads, payload.length < UInt32.size) →
      source.pending = payloads.flatMap frame → ∀ n j, j < n →
        match payloads[j]? with
        | some payload => ∃ record : Record,
            (answers n (ofSource source))[j]? = some (.ok (.record record)) ∧
              record.index = j + 1 ∧ record.offset = spanOf (payloads.take j) ∧
              record.payload = payload ∧ record.declaredLength = payload.length
        | none => (answers n (ofSource source))[j]? = some (.ok .endOfStream)) ∧
    ∀ found : List Record,
      answers (found.length + 1) (ofSource source) =
        found.map (fun record => .ok (.record record)) ++ [.ok .endOfStream] →
      (∀ record ∈ found, record.payload.length < UInt32.size) ∧
        source.pending = (found.map Record.payload).flatMap frame := by
  refine ⟨fun payloads hp hpending n j hj => ?_, fun found h => frames_of_answers steady h⟩
  have hanswer := answers_frames (r := ofSource source) steady hp hpending hj
  cases hpayload : payloads[j]? with
  | none =>
    rw [hpayload] at hanswer
    exact hanswer
  | some payload =>
    rw [hpayload] at hanswer
    have hlt := hp payload (List.mem_of_getElem? hpayload)
    have hindex : 0 + 1 + j = j + 1 := by omega
    exact ⟨_, hanswer, hindex, Nat.zero_add _, rfl, Record.declaredLength_eq ⟨_, _, payload⟩ hlt⟩

/-- The frames of four bytes, of none and of four again, the middle one and its neighbours looking
much alike; two bytes at a time at most, with interruptions. -/
def lookalikes : Source :=
  ⟨[marker 0, [], marker 0].flatMap frame, 0, (some 2 : Option Nat), [0, 5, 5, 14], none⟩

theorem records_are_frames_lookalikes :
    lookalikes.Steady ∧
      (∃ record : Record,
        (answers 4 (ofSource lookalikes))[1]? = some (.ok (.record record)) ∧
          record.index = 2 ∧ record.offset = 12 ∧ record.payload = [] ∧
          record.declaredLength = 0) ∧
      (answers 4 (ofSource lookalikes))[3]? = some (.ok .endOfStream) := by
  have steady : lookalikes.Steady := ⟨fun _ => show some 2 ≠ some 0 by decide, rfl⟩
  have hread := (records_are_frames steady).1 [marker 0, [], marker 0] (by decide) rfl 4
  exact ⟨steady, hread 1 (by decide), hread 3 (by decide)⟩

end Reader

end Screening
