import Screening.Proofs.PayloadViews
import Screening.Proofs.SideBySide

/-!
# The type asked for has no say in the framing

A step of a walk reads a record and only then lays a type over it.  So two walks over one source,
which ask for different types all the way, go over the same records and stop at the same places; a
payload that does not fit the type of its step is read all the same.  The source may deliver as it
likes, interrupt, and refuse.

* `Reading.Ensures m r P` — what an operation gives from a reader, if it does not stop at a badly
  framed record or a refused read; put together by `Ensures.bind`.
* `Reader.Took`, `Reader.WentOver` — bytes that a reader took off its source, and a record that it
  went over.
* `Reader.ensures_readRecord` — a record that is read is gone over, whole.
* `Reader.Step.Answers` — what each kind of step answers of a record.
* `Reader.observe_alike` — two steps from the same reader leave the same reader, and have come upon
  the same (`Reader.ReadAlike`).
* `Reader.types_have_no_say` — so do two walks, step by step.
-/

set_option autoImplicit false

namespace Screening

/-! ## What an operation ensures -/

/-- Nothing can be read any more: a record is badly framed, or a read was refused. -/
def Error.stopsReading : Error → Bool
  | .format cause => cause.isFraming
  | .io _ => true
  | .directoryNotFound _ => false

/-- From a reader, an operation gives an answer and leaves a reader of which something holds, or it
stops. -/
structure Reading.Ensures {α : Type} (m : Reading α) (r : Reader) (P : α → Reader → Prop) :
    Prop where
  /-- What holds of an answer and of the reader after it. -/
  gives : ∀ {x r'}, m r = .ok x r' → P x r'
  /-- No other failure is possible. -/
  stops : ∀ {e r'}, m r = .error e r' → e.stopsReading = true

namespace Reading

variable {α β : Type} {r : Reader} {P Q : α → Reader → Prop} {R : β → Reader → Prop}

theorem ensures_pure {x : α} (h : P x r) : Ensures (pure x) r P :=
  ⟨by rintro _ _ ⟨⟩; exact h, nofun⟩

theorem ensures_throw {e : Error} (h : e.stopsReading = true) : Ensures (throw e) r P :=
  ⟨nofun, by rintro _ _ ⟨⟩; exact h⟩

/-- **One operation after the other.** -/
theorem Ensures.bind {m : Reading α} {f : α → Reading β} (hm : Ensures m r P)
    (hf : ∀ x r', P x r' → Ensures (f x) r' R) : Ensures (m >>= f) r R := by
  cases hrun : m r with
  | ok x r' =>
    have hnext := hf x r' (hm.gives hrun)
    exact ⟨fun h => hnext.gives ((bind_ok hrun).symm.trans h),
      fun h => hnext.stops ((bind_ok hrun).symm.trans h)⟩
  | error e r' =>
    have hfail := bind_error (f := f) hrun
    refine ⟨fun h => ?_, fun h => ?_⟩
    · rw [hfail] at h
      cases h
    · rw [hfail] at h
      cases h
      exact hm.stops hrun

end Reading

namespace Reader

open Reading

variable {r r' r'' : Reader}

/-! ## Bytes and markers -/

/-- The next bytes were taken off the source and counted. -/
structure Took (r : Reader) (bytes : List UInt8) (r' : Reader) : Prop where
  /-- They were at its front. -/
  front : bytes <+: r.source.pending
  /-- It has gone on by as many. -/
  moved : r.Moved bytes.length 0 r'

theorem Took.pending {bytes : List UInt8} (h : r.Took bytes r') :
    r.source.pending = bytes ++ r'.source.pending := by
  rw [h.moved.pending]
  exact (List.prefix_iff_eq_append.1 h.front).symm

theorem Took.trans {first second : List UInt8} (h : r.Took first r') (h' : r'.Took second r'') :
    r.Took (first ++ second) r'' where
  front := by
    rw [h.pending]
    exact (List.prefix_append_right_inj first).2 h'.front
  moved := by
    rw [List.length_append]
    exact h.moved.trans h'.moved

theorem ensures_take (want : Nat) :
    Ensures (take want) r fun bytes r' => bytes.length ≤ want ∧ r.Took bytes r' := by
  unfold Reader.take
  constructor
  · intro bytes r' h
    split at h
    · rename_i hfill
      cases h
      obtain ⟨hle, hfront, adv⟩ := Source.next_of_fill hfill
      exact ⟨hle, hfront, adv, rfl, rfl⟩
    · cases h
  · intro e r' h
    split at h
    · cases h
    · cases h
      rfl

theorem ensures_readMarker (record : Nat) :
    Ensures (readMarker record) r fun found r' =>
      ∀ n, found = some n → n < UInt32.size ∧ r.Took (marker n) r' := by
  refine (ensures_take markerSize).bind fun bytes r' ⟨hle, took⟩ => ?_
  by_cases hnil : bytes.isEmpty = true
  · rw [if_pos hnil]
    exact ensures_pure nofun
  rw [if_neg hnil]
  by_cases hshort : bytes.length < markerSize
  · rw [if_pos hshort]
    exact ensures_throw rfl
  · rw [if_neg hshort]
    refine ensures_pure ?_
    rintro _ ⟨⟩
    have hlen : bytes.length = markerSize := Nat.le_antisymm hle (Nat.le_of_not_lt hshort)
    have hback : marker (markerLength bytes) = bytes := by
      rw [marker, markerLength, ← hlen, LittleEndian.toBytes_toNat]
    exact ⟨markerLength_lt hlen, hback.symm ▸ took⟩

theorem ensures_readPayload (record length : Nat) :
    Ensures (readPayload record length) r fun payload r' =>
      payload.length = length ∧ r.Took payload r' := by
  refine (ensures_take length).bind fun payload r' ⟨hle, took⟩ => ?_
  by_cases hshort : payload.length < length
  · rw [if_pos hshort]
    exact ensures_throw rfl
  · rw [if_neg hshort]
    exact ensures_pure ⟨Nat.le_antisymm hle (Nat.le_of_not_lt hshort), took⟩

theorem ensures_readTrailingMarker (record leading : Nat) :
    Ensures (readTrailingMarker record leading) r fun _ r' => r.Took (marker leading) r' := by
  refine (ensures_readMarker record).bind fun found r' took => ?_
  cases found with
  | none => exact ensures_throw rfl
  | some trailing =>
    dsimp only
    rw [checkMarkers]
    by_cases hsame : leading = trailing
    · rw [if_pos hsame]
      exact ensures_pure (hsame ▸ (took trailing rfl).2)
    · rw [if_neg hsame]
      exact ensures_throw rfl

theorem ensures_readBody (record length : Nat) :
    Ensures (readBody record length) r fun payload r' =>
      payload.length = length ∧ r.Took (payload ++ marker length) r' :=
  (ensures_readPayload record length).bind fun _ _ ⟨hlen, took⟩ =>
    (ensures_readTrailingMarker record length).bind fun _ _ took' =>
      ensures_pure ⟨hlen, took.trans took'⟩

/-! ## Records -/

/-- A reader went over a record: it lay whole at the front of the source, the reader stands right
behind it and has counted it, and the record bears its own number and offset. -/
structure WentOver (r : Reader) (found : Record) (r' : Reader) : Prop where
  /-- A marker can announce the payload. -/
  length_lt : found.payload.length < UInt32.size
  /-- The frame of the record is what the source has handed out. -/
  pending : r.source.pending = frame found.payload ++ r'.source.pending
  /-- As many bytes are gone from the source. -/
  taken : r'.source.taken = r.source.taken + span found.payload.length
  /-- The record begins where the reader stood. -/
  offset : found.offset = r.position
  /-- The reader stands where it ends. -/
  position : r'.position = r.position + span found.payload.length
  /-- It bears the number of records counted. -/
  index : found.index = r'.recordsRead
  /-- It is the one counted last. -/
  recordsRead : r'.recordsRead = r.recordsRead + 1

/-- **A record that is read is gone over**, whatever the source does; otherwise reading stops or
finds the end. -/
theorem ensures_readRecord (r : Reader) :
    Ensures readRecord r fun found r' => ∀ record, found = some record → r.WentOver record r' := by
  have hstart : Ensures (get : Reading Reader) r fun start r' => start = r ∧ r' = r :=
    ⟨by rintro _ _ ⟨⟩; exact ⟨rfl, rfl⟩, nofun⟩
  refine hstart.bind ?_
  rintro _ _ ⟨rfl, rfl⟩
  refine (ensures_readMarker _).bind fun leading r₁ hleading => ?_
  cases leading with
  | none => exact ⟨by rintro _ _ ⟨⟩; exact nofun, nofun⟩
  | some length =>
    obtain ⟨hlt, took₁⟩ := hleading length rfl
    refine (ensures_readBody _ length).bind fun payload r₂ ⟨hlen, took₂⟩ => ?_
    have took := took₁.trans took₂
    rw [← List.append_assoc, ← hlen] at took
    refine ⟨?_, nofun⟩
    rintro _ _ ⟨⟩ record ⟨⟩
    have moved := took.moved
    have hsize : (frame payload).length = span payload.length := length_frame payload
    rw [frame] at hsize
    rw [hsize] at moved
    exact ⟨hlen.symm ▸ hlt, took.pending, moved.source.taken, rfl, moved.position, rfl, rfl⟩

end Reader

/-! ## What is made of a record -/

/-- The bytes that a payload was read from. -/
def TypedPayload.bytes : TypedPayload → List UInt8
  | raw bytes => bytes
  | int32 elements => encodeElements elements
  | float64 elements => encodeElements elements
  | complex128 elements => encodeElements elements

namespace Reader

/-- What is answered of a record under a type: its payload as elements of the type, from which the
bytes can be told, or, if it does not hold whole elements, a refusal that names the record. -/
def AnswersUnder (type : ElementType) (found : Record) (answer : Except Error Answer) : Prop :=
  (type.size ∣ found.payload.length ∧ ∃ payload : TypedPayload, answer = .ok (.payload payload) ∧
      payload.elementType? = some type ∧ payload.bytes = found.payload) ∨
    (¬ type.size ∣ found.payload.length ∧
      answer = .error (.format (.malformedPayloadSize found.index found.payload.length type.size)))

/-- What a step answers of a record, each kind of step in its own way. -/
def Step.Answers (found : Record) (answer : Except Error Answer) : Step → Prop
  | .record => answer = .ok (.record found)
  | .elements type => AnswersUnder type found answer
  | .typed (some type) => AnswersUnder type found answer
  | .typed none => answer = .ok (.payload (.raw found.payload))
  | .every => answer = .ok (.everyWay found)

theorem answersUnder_decoded {α : Type} [Element α] {wrap : List α → TypedPayload}
    (hbytes : ∀ elements, (wrap elements).bytes = encodeElements elements)
    (htype : ∀ elements, (wrap elements).elementType? = some (Element.elementType α))
    (found : Record) :
    AnswersUnder (Element.elementType α) found
      ((Answer.payload <$> wrap <$> decodeElements α found.index found.payload :
        Except FormatError Answer).mapError .format) := by
  have views := lossless α
  by_cases hdvd : Element.size α ∣ found.payload.length
  · obtain ⟨elements, hdecode, -, hback⟩ := views.whole found.index found.payload hdvd
    rw [hdecode]
    exact .inl ⟨hdvd, wrap elements, rfl, htype elements, (hbytes elements).trans hback⟩
  · rw [views.broken found.index found.payload hdvd]
    exact .inr ⟨hdvd, rfl⟩

theorem answersUnder_decodeAs (found : Record) (type : ElementType) :
    AnswersUnder type found
      ((Answer.payload <$> found.decodeAs (some type) : Except FormatError Answer).mapError
        .format) := by
  cases type with
  | int32 => exact answersUnder_decoded (α := Int32) (fun _ => rfl) (fun _ => rfl) found
  | float64 => exact answersUnder_decoded (α := Binary64) (fun _ => rfl) (fun _ => rfl) found
  | complex128 => exact answersUnder_decoded (α := Complex128) (fun _ => rfl) (fun _ => rfl) found

theorem answers_answer (found : Record) (step : Step) :
    step.Answers found ((step.answer found).mapError .format) := by
  cases step with
  | record => rfl
  | elements type => exact answersUnder_decodeAs found type
  | typed type =>
    cases type with
    | none => rfl
    | some type => exact answersUnder_decodeAs found type
  | every => rfl

/-- What is made of a record under a type looks neither like the end of the source nor like an
obstacle to reading. -/
theorem AnswersUnder.of_record {type : ElementType} {found : Record}
    {answer : Except Error Answer} (h : AnswersUnder type found answer) :
    answer ≠ .ok .endOfStream ∧
      ∀ cause : Error, cause.stopsReading = true → answer ≠ .error cause := by
  rcases h with ⟨-, payload, rfl, -⟩ | ⟨-, rfl⟩
  · exact ⟨nofun, fun _ _ => nofun⟩
  · refine ⟨nofun, ?_⟩
    rintro _ hcause ⟨⟩
    cases hcause

theorem Step.Answers.of_record {step : Step} {found : Record} {answer : Except Error Answer}
    (h : step.Answers found answer) :
    answer ≠ .ok .endOfStream ∧
      ∀ cause : Error, cause.stopsReading = true → answer ≠ .error cause := by
  have given {other : Answer} (hanswer : answer = .ok other) (hother : other ≠ .endOfStream) :
      answer ≠ .ok .endOfStream ∧
        ∀ cause : Error, cause.stopsReading = true → answer ≠ .error cause := by
    rw [hanswer]
    exact ⟨fun hends => hother (Except.ok.inj hends), fun _ _ => nofun⟩
  cases step with
  | record => exact given h nofun
  | every => exact given h nofun
  | elements type => exact AnswersUnder.of_record h
  | typed type =>
    cases type with
    | none => exact given h nofun
    | some type => exact AnswersUnder.of_record h

/-! ## One step -/

/-- What a step answers where the reading of a record gives this. -/
def Step.see (step : Step) : Except Error (Option Record) → Except Error Answer
  | .ok none => .ok .endOfStream
  | .ok (some found) => (step.answer found).mapError .format
  | .error cause => .error cause

/-- **A step is the reading of a record**, and then an answer to what that gave. -/
theorem observe_eq_see (step : Step) (r : Reader) :
    observe step r = (⟨step.see (readRecord.outcome r).1, (readRecord.outcome r).2.recordsRead,
      (readRecord.outcome r).2.position⟩, (readRecord.outcome r).2) := by
  have hrun : step.run.outcome r =
      (step.see (readRecord.outcome r).1, (readRecord.outcome r).2) := by
    rw [stepRun_eq]
    cases hread : readRecord.outcome r with
    | mk o r' =>
    cases o with
    | error cause => exact Reading.outcome_bind_error hread
    | ok found =>
      rw [Reading.outcome_bind_ok hread]
      cases found with
      | none => rfl
      | some found =>
        rw [Step.finish, Step.see]
        cases step.answer found <;> rfl
  rw [Comparison.observe_eq_outcome, hrun]

/-- Two steps, each in its own walk, came upon the same: the end of the source, the same obstacle
to reading, or one record, of which each gives its own answer. -/
structure ReadAlike (before after : Reader) (step step' : Step) (seen seen' : Observation) :
    Prop where
  /-- The first is seen with the counts of the reader after it. -/
  counts : seen.recordsRead = after.recordsRead ∧ seen.position = after.position
  /-- So is the second. -/
  counts' : seen'.recordsRead = after.recordsRead ∧ seen'.position = after.position
  /-- Both find the end, or neither does. -/
  ended : seen.result = .ok .endOfStream ↔ seen'.result = .ok .endOfStream
  /-- Both stop for the same cause, or neither does. -/
  stopped : ∀ cause : Error, cause.stopsReading = true →
    (seen.result = .error cause ↔ seen'.result = .error cause)
  /-- Otherwise both have gone over one record and answer it each in its own way. -/
  answered : seen.result ≠ .ok .endOfStream →
    (∀ cause : Error, cause.stopsReading = true → seen.result ≠ .error cause) →
    ∃ found, before.WentOver found after ∧ step.Answers found seen.result ∧
      step'.Answers found seen'.result

/-- **Two steps from one reader leave one reader**, and have come upon the same. -/
theorem observe_alike (r : Reader) (step step' : Step) :
    (observe step r).2 = (observe step' r).2 ∧
      ReadAlike r (observe step r).2 step step' (observe step r).1 (observe step' r).1 := by
  rw [observe_eq_see, observe_eq_see]
  cases hread : readRecord.outcome r with
  | mk o r' =>
  refine ⟨rfl, ⟨rfl, rfl⟩, ⟨rfl, rfl⟩, ?_, ?_, ?_⟩
  all_goals dsimp only
  · rcases o with cause | _ | found
    · exact ⟨nofun, nofun⟩
    · exact Iff.rfl
    · exact iff_of_false (answers_answer found step).of_record.1
        (answers_answer found step').of_record.1
  · intro cause hcause
    rcases o with _ | _ | found
    · exact Iff.rfl
    · exact ⟨nofun, nofun⟩
    · exact iff_of_false ((answers_answer found step).of_record.2 cause hcause)
        ((answers_answer found step').of_record.2 cause hcause)
  · intro hends hstops
    rcases o with cause | _ | found
    · have hstop := (ensures_readRecord r).stops (Reading.eq_error_of_outcome hread)
      exact absurd rfl (hstops cause hstop)
    · exact absurd rfl hends
    · exact ⟨found, (ensures_readRecord r).gives (Reading.eq_ok_of_outcome hread) found rfl,
        answers_answer found step, answers_answer found step'⟩

/-! ## Walks -/

/-- A walk sees at each of its steps what the step sees from where the steps before it lead. -/
theorem run_of_getElem? {steps : List Step} {j : Nat} {step : Step} (h : steps[j]? = some step)
    (r : Reader) :
    (run steps r).1[j]? = some (observe step (run (steps.take j) r).2).1 ∧
      (run (steps.take (j + 1)) r).2 = (observe step (run (steps.take j) r).2).2 := by
  induction j generalizing steps r with
  | zero =>
    obtain ⟨rest, rfl⟩ : ∃ rest, steps = step :: rest := by
      cases steps with
      | nil => cases h
      | cons first rest =>
        cases h
        exact ⟨rest, rfl⟩
    exact ⟨rfl, rfl⟩
  | succ j ih =>
    cases steps with
    | nil => cases h
    | cons first rest =>
      rw [List.getElem?_cons_succ] at h
      exact ih h (observe first r).2

/-- **Walks of as many steps end alike**, whatever types their steps ask for. -/
theorem run_alike {steps steps' : List Step} (h : steps.length = steps'.length) (r : Reader) :
    (run steps r).2 = (run steps' r).2 := by
  induction steps generalizing steps' r with
  | nil =>
    rw [List.eq_nil_of_length_eq_zero h.symm]
  | cons step rest ih =>
    cases steps' with
    | nil => cases h
    | cons step' rest' =>
      show (run rest (observe step r).2).2 = (run rest' (observe step' r).2).2
      rw [(observe_alike r step step').1]
      exact ih (Nat.succ.inj h) _

/-- **The type asked for has no say in the framing.**  Of two walks over one source that make as
many steps, whatever these ask for and whatever the source does, each step starts from the same
reader in both and leaves the same reader in both: the counts, the position and what is left of the
source agree.  Both steps find the end or neither does; both stop for the same cause or neither
does; and otherwise both have gone over one record, to which each gives its own answer. -/
theorem types_have_no_say (source : Source) {steps steps' : List Step}
    (h : steps.length = steps'.length) (j : Nat) (hj : j < steps.length) :
    ∃ before after step step' seen seen',
      (run (steps.take j) (ofSource source)).2 = before ∧
      (run (steps'.take j) (ofSource source)).2 = before ∧
      (run (steps.take (j + 1)) (ofSource source)).2 = after ∧
      (run (steps'.take (j + 1)) (ofSource source)).2 = after ∧
      steps[j]? = some step ∧ (run steps (ofSource source)).1[j]? = some seen ∧
      steps'[j]? = some step' ∧ (run steps' (ofSource source)).1[j]? = some seen' ∧
      ReadAlike before after step step' seen seen' := by
  have htake (n : Nat) : (run (steps'.take n) (ofSource source)).2 =
      (run (steps.take n) (ofSource source)).2 := by
    refine run_alike ?_ _
    rw [List.length_take, List.length_take, h]
  have hstep : steps[j]? = some steps[j] := List.getElem?_eq_getElem hj
  have hj' : j < steps'.length := h ▸ hj
  have hstep' : steps'[j]? = some steps'[j] := List.getElem?_eq_getElem hj'
  obtain ⟨hseen, hafter⟩ := run_of_getElem? hstep (ofSource source)
  obtain ⟨hseen', -⟩ := run_of_getElem? hstep' (ofSource source)
  rw [htake j] at hseen'
  obtain ⟨-, alike⟩ :=
    observe_alike (run (steps.take j) (ofSource source)).2 steps[j] steps'[j]
  exact ⟨_, _, _, _, _, _, rfl, htake j, hafter, (htake (j + 1)).trans hafter, hstep, hseen, hstep',
    hseen', alike⟩

/-- Five bytes in a frame, eight in another, and a record of which the source refuses the payload;
three bytes at a time at most, and interrupted within the first record and at its end. -/
def refusedLast : Source :=
  ⟨frame [1, 2, 3, 4, 5] ++ frame (marker 7 ++ marker 8) ++ frame [9], 0, (some 3 : Option Nat),
    [0, 6, 6, 13], some (33, .other "injected failure")⟩

theorem types_have_no_say_refusedLast :
    let steps : List Step := [.elements .float64, .typed (some .complex128), .record]
    let steps' : List Step := [.record, .elements .float64, .every]
    steps.length = steps'.length ∧ 0 < steps.length ∧
      ∃ after seen seen',
        (run (steps.take 1) (ofSource refusedLast)).2 = after ∧
        (run (steps'.take 1) (ofSource refusedLast)).2 = after ∧
        (run steps (ofSource refusedLast)).1[0]? = some seen ∧
        (run steps' (ofSource refusedLast)).1[0]? = some seen' ∧
        ReadAlike (ofSource refusedLast) after (.elements .float64) .record seen seen' := by
  intro steps steps'
  have hsame : steps.length = steps'.length := rfl
  obtain ⟨before, after, step, step', seen, seen', hbefore, -, hafter, hafter', hstep, hseen,
    hstep', hseen', alike⟩ := types_have_no_say refusedLast hsame 0 (by decide)
  cases hbefore
  cases hstep
  cases hstep'
  exact ⟨rfl, by decide, after, seen, seen', hafter, hafter', hseen, hseen', alike⟩

end Reader

end Screening
