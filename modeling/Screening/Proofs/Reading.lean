import Screening.Reader
import Screening.Proofs.Delivery
import Screening.Proofs.Framing

/-!
# What a reader makes of a source

On a steady source every operation of a reader comes down to `framing`: its answer is read off the
bytes that are pending, and the reader ends up behind the bytes that had to be looked at.

An operation is described by an equation `m r = Reading.ofFormat x r'`: from `r` it leads to `r'`,
and its answer or failure is `x`.  `Reading.bind_ok` and `Reading.bind_error` put two of them
together.

* `Reader.Moved` — how far a reader has gone, in bytes and in records.
* `Reader.GoesOver m r outcome` — `m` goes over the next record and gives what `outcome` makes of it.
* `Reader.readRecord_goesOver` — reading a record is framing what is pending.
* `Reader.stepRun_goesOver` — and so is every step of a walk.
* `Reader.stepRun_eq` — what a step makes of a record has no part in the reading of it.
-/

set_option autoImplicit false

namespace Screening

/-! ## Putting operations together -/

namespace Reading

variable {α β : Type}

/-- Of two operations the second starts where the first ended. -/
theorem bind_ok {m : Reading α} {f : α → Reading β} {r r' : Reader} {x : α}
    (h : m r = .ok x r') : (m >>= f) r = f x r' := by
  show EStateM.bind m f r = f x r'
  rw [EStateM.bind, h]

/-- After a failure nothing else happens. -/
theorem bind_error {m : Reading α} {f : α → Reading β} {r r' : Reader} {cause : Error}
    (h : m r = .error cause r') : (m >>= f) r = .error cause r' := by
  show EStateM.bind m f r = .error cause r'
  rw [EStateM.bind, h]

/-- A rule of the format is applied to the outcome of what came before. -/
theorem bind_ofFormat {m : Reading α} {check : α → Except FormatError β} {r r' : Reader}
    {outcome : Except FormatError α} (h : m r = ofFormat outcome r') :
    (m >>= fun x => ofFormat (check x)) r = ofFormat (outcome >>= check) r' := by
  cases outcome with
  | ok x => exact bind_ok h
  | error cause => exact bind_error h

/-- What is made of an answer is made of the outcome. -/
theorem map_ofFormat {m : Reading α} {f : α → β} {r r' : Reader} {outcome : Except FormatError α}
    (h : m r = ofFormat outcome r') : (f <$> m) r = ofFormat (f <$> outcome) r' := by
  rw [map_eq_pure_bind]
  cases outcome with
  | ok x => exact bind_ok h
  | error cause => exact bind_error h

end Reading

namespace Framing

/-- What a reader answers that finds this where it stands. -/
def answer (index offset : Nat) : Framing → Except FormatError (Option Record)
  | ended => .ok none
  | broken cause => .error cause
  | whole payload => .ok (some ⟨index, offset, payload⟩)

/-- What a reader answers that makes something of the record. -/
def answerWith {α : Type} (make : Record → Except FormatError α) (index offset : Nat) :
    Framing → Except FormatError (Option α)
  | ended => .ok none
  | broken cause => .error cause
  | whole payload => some <$> make ⟨index, offset, payload⟩

end Framing

/-- What a step makes of the record that it read. -/
def Reader.Step.answer (step : Reader.Step) (found : Record) : Except FormatError Reader.Answer :=
  match step with
  | .record => .ok (.record found)
  | .elements type => .payload <$> found.decodeAs (some type)
  | .typed type => .payload <$> found.decodeAs type
  | .every => .ok (.everyWay found)

/-- What a step answers when the reader finds this where it stands. -/
def Framing.stepAnswer (step : Reader.Step) (index offset : Nat) :
    Framing → Except FormatError Reader.Answer
  | ended => .ok .endOfStream
  | broken cause => .error cause
  | whole payload => step.answer ⟨index, offset, payload⟩

namespace Reader

open Reading

/-- The reader has gone on by `bytes` bytes, all of them counted, and by `records` records. -/
structure Moved (r : Reader) (bytes records : Nat) (r' : Reader) : Prop where
  /-- The source has handed them out. -/
  source : r.source.Advanced bytes r'.source
  /-- The position counts the bytes. -/
  position : r'.position = r.position + bytes
  /-- The records are counted. -/
  recordsRead : r'.recordsRead = r.recordsRead + records

theorem Moved.trans {r r' r'' : Reader} {m n k l : Nat} (h : r.Moved m k r')
    (h' : r'.Moved n l r'') : r.Moved (m + n) (k + l) r'' where
  source := h.source.trans h'.source
  position := by rw [h'.position, h.position, Nat.add_assoc]
  recordsRead := by rw [h'.recordsRead, h.recordsRead, Nat.add_assoc]

theorem Moved.pending {r r' : Reader} {n k : Nat} (h : r.Moved n k r') :
    r'.source.pending = r.source.pending.drop n := h.source.pending

/-- From `r` an operation goes over the next record, and its outcome is what is made of the framing
that is found there. -/
def GoesOver {α : Type} (m : Reading α) (r : Reader) (outcome : Framing → Except FormatError α) :
    Prop :=
  ∃ r', m r = ofFormat (outcome (framing (r.recordsRead + 1) r.source.pending)) r' ∧
    r.Moved (extent r.source.pending) (framing (r.recordsRead + 1) r.source.pending).count r'

/-- Adding a note moves nothing. -/
theorem note_eq (event : Event) (r : Reader) : ∃ r', note event r = .ok () r' ∧ r.Moved 0 0 r' :=
  ⟨{ r with journal := r.journal.push event }, rfl, Source.Advanced.refl _, rfl, rfl⟩

/-- A record is counted. -/
theorem countRecord_eq (r : Reader) :
    ∃ r', countRecord (r.recordsRead + 1) r = .ok () r' ∧ r.Moved 0 1 r' :=
  ⟨{ r with recordsRead := r.recordsRead + 1 }, rfl, Source.Advanced.refl _, rfl, rfl⟩

/-! ## Bytes and markers -/

variable {r : Reader}

theorem take_eq (hs : r.source.Steady) (want : Nat) :
    ∃ r', take want r = .ok (r.source.pending.take want) r' ∧
      r.Moved (min want r.source.pending.length) 0 r' := by
  obtain ⟨s', hfill, adv⟩ := Source.fill_of_steady hs want
  refine ⟨{ r with source := s', position := r.position + min want r.source.pending.length }, ?_,
    adv, rfl, rfl⟩
  rw [← List.length_take, take, hfill]

theorem readMarker_eq_none (hs : r.source.Steady) (record : Nat) (h : r.source.pending = []) :
    ∃ r', readMarker record r = .ok none r' ∧ r.Moved 0 0 r' := by
  obtain ⟨r', htake, moved⟩ := take_eq hs markerSize
  rw [h] at htake moved
  exact ⟨r', by rw [readMarker, bind_ok htake]; rfl, moved⟩

theorem readMarker_eq_truncated (hs : r.source.Steady) (record : Nat) (h : r.source.pending ≠ [])
    (hshort : r.source.pending.length < markerSize) :
    ∃ r', readMarker record r =
        .error (.format (.truncatedRecord record markerSize r.source.pending.length)) r' ∧
      r.Moved r.source.pending.length 0 r' := by
  obtain ⟨r', htake, moved⟩ := take_eq hs markerSize
  rw [List.take_of_length_le (Nat.le_of_lt hshort)] at htake
  rw [Nat.min_eq_right (Nat.le_of_lt hshort)] at moved
  refine ⟨r', ?_, moved⟩
  rw [readMarker, bind_ok htake, if_neg (by simpa using h), if_pos hshort]
  rfl

theorem readMarker_eq_some (hs : r.source.Steady) (record : Nat)
    (h : markerSize ≤ r.source.pending.length) :
    ∃ r', readMarker record r = .ok (some (announced r.source.pending)) r' ∧
      r.Moved markerSize 0 r' := by
  obtain ⟨r', htake, moved⟩ := take_eq hs markerSize
  have hlen : (r.source.pending.take markerSize).length = markerSize := by
    rw [List.length_take, Nat.min_eq_left h]
  rw [Nat.min_eq_left h] at moved
  refine ⟨r', ?_, moved⟩
  have hne : (r.source.pending.take markerSize).isEmpty = false := by
    rw [List.isEmpty_eq_false_iff, ← List.length_pos_iff, hlen]
    decide
  rw [readMarker, bind_ok htake, hne, if_neg Bool.false_ne_true, if_neg (by rw [hlen]; omega)]
  rfl

theorem readPayload_eq_truncated (hs : r.source.Steady) (record : Nat) {length : Nat}
    (h : r.source.pending.length < length) :
    ∃ r', readPayload record length r =
        .error (.format (.truncatedRecord record length r.source.pending.length)) r' ∧
      r.Moved r.source.pending.length 0 r' := by
  obtain ⟨r', htake, moved⟩ := take_eq hs length
  rw [List.take_of_length_le (Nat.le_of_lt h)] at htake
  rw [Nat.min_eq_right (Nat.le_of_lt h)] at moved
  refine ⟨r', ?_, moved⟩
  rw [readPayload, bind_ok htake, if_pos h]
  rfl

theorem readPayload_eq_ok (hs : r.source.Steady) (record : Nat) {length : Nat}
    (h : length ≤ r.source.pending.length) :
    ∃ r', readPayload record length r = .ok (r.source.pending.take length) r' ∧
      r.Moved length 0 r' := by
  obtain ⟨r', htake, moved⟩ := take_eq hs length
  rw [Nat.min_eq_left h] at moved
  refine ⟨r', ?_, moved⟩
  rw [readPayload, bind_ok htake, if_neg (by rw [List.length_take]; omega)]
  rfl

theorem readTrailingMarker_eq_truncated (hs : r.source.Steady) (record leading : Nat)
    (h : r.source.pending.length < markerSize) :
    ∃ r', readTrailingMarker record leading r =
        .error (.format (.truncatedRecord record markerSize r.source.pending.length)) r' ∧
      r.Moved r.source.pending.length 0 r' := by
  by_cases hnil : r.source.pending = []
  · obtain ⟨r', hmarker, moved⟩ := readMarker_eq_none hs record hnil
    rw [hnil]
    refine ⟨r', ?_, moved⟩
    rw [readTrailingMarker, bind_ok hmarker]
    rfl
  · obtain ⟨r', hmarker, moved⟩ := readMarker_eq_truncated hs record hnil h
    refine ⟨r', ?_, moved⟩
    rw [readTrailingMarker, bind_error hmarker]

theorem readTrailingMarker_eq (hs : r.source.Steady) (record leading : Nat)
    (h : markerSize ≤ r.source.pending.length) :
    ∃ r', readTrailingMarker record leading r =
        ofFormat (checkMarkers record leading (announced r.source.pending)) r' ∧
      r.Moved markerSize 0 r' := by
  obtain ⟨r', hmarker, moved⟩ := readMarker_eq_some hs record h
  refine ⟨r', ?_, moved⟩
  rw [readTrailingMarker, bind_ok hmarker]

/-! ## Records -/

theorem readBody_eq (hs : r.source.Steady) (record length : Nat) :
    ∃ r', readBody record length r = ofFormat (framingBody record length r.source.pending) r' ∧
      r.Moved (min r.source.pending.length (length + markerSize)) 0 r' := by
  by_cases hbody : r.source.pending.length < length
  · obtain ⟨r₁, hpayload, moved⟩ := readPayload_eq_truncated hs record hbody
    rw [readBody, bind_error hpayload, framingBody, if_pos hbody, Nat.min_eq_left (by omega)]
    exact ⟨r₁, rfl, moved⟩
  obtain ⟨r₁, hpayload, moved₁⟩ := readPayload_eq_ok hs record (Nat.le_of_not_lt hbody)
  have hs₁ := moved₁.source.steady hs
  have hlen := moved₁.source.length_pending
  rw [readBody, bind_ok hpayload, framingBody, if_neg hbody, ← moved₁.pending]
  by_cases htail : r₁.source.pending.length < markerSize
  · obtain ⟨r₂, htrailing, moved₂⟩ := readTrailingMarker_eq_truncated hs₁ record length htail
    have hcount : min r.source.pending.length (length + markerSize) =
        length + r₁.source.pending.length := by omega
    rw [bind_error htrailing, if_pos htail, hcount]
    exact ⟨r₂, rfl, moved₁.trans moved₂⟩
  obtain ⟨r₂, htrailing, moved₂⟩ :=
    readTrailingMarker_eq hs₁ record length (Nat.le_of_not_lt htail)
  rw [if_neg htail, Nat.min_eq_right (by omega)]
  refine ⟨r₂, ?_, moved₁.trans moved₂⟩
  by_cases hsame : announced r₁.source.pending = length
  · rw [checkMarkers, if_pos hsame.symm] at htrailing
    rw [bind_ok htrailing, if_pos hsame]
    rfl
  · rw [checkMarkers, if_neg (Ne.symm hsame)] at htrailing
    rw [bind_error htrailing, if_neg hsame]
    rfl

/-- **Reading a record is framing what is pending.** -/
theorem readRecord_goesOver (hs : r.source.Steady) :
    GoesOver readRecord r (Framing.answer (r.recordsRead + 1) r.position) := by
  unfold GoesOver
  have hstart : (get : Reading Reader) r = .ok r r := rfl
  rw [readRecord, bind_ok hstart]
  by_cases hnil : r.source.pending = []
  · obtain ⟨r₁, hmarker, moved⟩ := readMarker_eq_none hs (r.recordsRead + 1) hnil
    obtain ⟨r₂, hnote, moved'⟩ := note_eq (.endOfStream r.recordsRead) r₁
    rw [bind_ok hmarker]
    dsimp only
    rw [bind_ok hnote, hnil]
    exact ⟨r₂, rfl, moved.trans moved'⟩
  by_cases hshort : r.source.pending.length < markerSize
  · obtain ⟨r₁, hmarker, moved⟩ := readMarker_eq_truncated hs (r.recordsRead + 1) hnil hshort
    have he : extent r.source.pending = r.source.pending.length :=
      Nat.min_eq_left (by rw [span]; omega)
    rw [bind_error hmarker, framing, if_neg hnil, if_pos hshort, he]
    exact ⟨r₁, rfl, moved⟩
  obtain ⟨r₁, hmarker, moved₁⟩ :=
    readMarker_eq_some hs (r.recordsRead + 1) (Nat.le_of_not_lt hshort)
  obtain ⟨r₂, hbody, moved₂⟩ := readBody_eq (moved₁.source.steady hs) (r.recordsRead + 1)
    (announced r.source.pending)
  have hlen := moved₁.source.length_pending
  have he : extent r.source.pending =
      markerSize + min r₁.source.pending.length (announced r.source.pending + markerSize) := by
    rw [extent, span]
    omega
  have moved := moved₁.trans moved₂
  rw [moved₁.pending] at hbody
  rw [bind_ok hmarker, framing, if_neg hnil, if_neg hshort, he]
  dsimp only
  cases hframed : framingBody (r.recordsRead + 1) (announced r.source.pending)
      (r.source.pending.drop markerSize) with
  | error cause =>
    rw [hframed] at hbody
    rw [bind_error hbody]
    exact ⟨r₂, rfl, moved⟩
  | ok payload =>
    rw [hframed] at hbody
    obtain ⟨r₃, hnote, moved₃⟩ :=
      note_eq (.recordRead (r.recordsRead + 1) (announced r.source.pending) r.position) r₂
    obtain ⟨r₄, hcount, moved₄⟩ := countRecord_eq r₃
    have hindex : r₃.recordsRead = r.recordsRead := moved₃.recordsRead.trans moved.recordsRead
    rw [hindex] at hcount
    rw [bind_ok hbody, bind_ok hnote, bind_ok hcount]
    exact ⟨r₄, rfl, (moved.trans moved₃).trans moved₄⟩

/-- Rules of the format that are applied to the answer are applied to what was made of the
framing. -/
theorem GoesOver.bind {α β : Type} {m : Reading α} {f : α → Reading β}
    {outcome : Framing → Except FormatError α} {outcome' : Framing → Except FormatError β}
    (rule : α → Except FormatError β) (h : GoesOver m r outcome)
    (hf : ∀ x, f x = ofFormat (rule x)) (heq : ∀ f, outcome' f = outcome f >>= rule) :
    GoesOver (m >>= f) r outcome' := by
  obtain ⟨r', hm, moved⟩ := h
  refine ⟨r', ?_, moved⟩
  rw [funext hf, bind_ofFormat hm, heq]

theorem GoesOver.map {α β : Type} {m : Reading α} {wrap : α → β}
    {outcome : Framing → Except FormatError α} {outcome' : Framing → Except FormatError β}
    (h : GoesOver m r outcome) (heq : ∀ f, outcome' f = wrap <$> outcome f) :
    GoesOver (wrap <$> m) r outcome' := by
  obtain ⟨r', hm, moved⟩ := h
  refine ⟨r', ?_, moved⟩
  rw [map_ofFormat hm, heq]

/-- What is made of the record is made of the payload. -/
theorem readWith_goesOver {α : Type} (make : Record → Except FormatError α)
    (hs : r.source.Steady) :
    GoesOver (readWith make) r (Framing.answerWith make (r.recordsRead + 1) r.position) := by
  refine GoesOver.bind (fun found => found.elim (.ok none) fun record => some <$> make record)
    (readRecord_goesOver hs) (fun found => ?_) fun f => ?_
  · cases found with
    | none => rfl
    | some record =>
      dsimp only [Option.elim]
      cases make record <;> rfl
  · cases f <;> rfl

/-! ## Steps and walks -/

theorem stepAnswer_eq_answer {wrap : Record → Answer} {step : Step}
    (h : ∀ found, step.answer found = .ok (wrap found)) (index offset : Nat) (f : Framing) :
    f.stepAnswer step index offset = Answer.ofOption wrap <$> f.answer index offset := by
  cases f with
  | ended => rfl
  | broken cause => rfl
  | whole payload => exact h _

theorem stepAnswer_eq_answerWith {α : Type} {make : Record → Except FormatError α}
    {wrap : α → Answer} {step : Step} (h : ∀ found, step.answer found = wrap <$> make found)
    (index offset : Nat) (f : Framing) :
    f.stepAnswer step index offset =
      Answer.ofOption wrap <$> f.answerWith make index offset := by
  cases f with
  | ended => rfl
  | broken cause => rfl
  | whole payload =>
    rw [Framing.answerWith, Framing.stepAnswer, h]
    cases make ⟨index, offset, payload⟩ <;> rfl

/-- **Every step is framing what is pending**, whatever it makes of the record. -/
theorem stepRun_goesOver (hs : r.source.Steady) (step : Step) :
    GoesOver step.run r (Framing.stepAnswer step (r.recordsRead + 1) r.position) := by
  cases step with
  | record => exact (readRecord_goesOver hs).map (stepAnswer_eq_answer (fun _ => rfl) _ _)
  | every => exact (readRecord_goesOver hs).map (stepAnswer_eq_answer (fun _ => rfl) _ _)
  | typed type => exact (readWith_goesOver _ hs).map (stepAnswer_eq_answerWith (fun _ => rfl) _ _)
  | elements type =>
    cases type
    all_goals
      refine (readWith_goesOver _ hs).map (stepAnswer_eq_answerWith (fun found => ?_) _ _)
      exact (comp_map ..).symm

/-- What is seen of a step is its answer, with the counters as it left them. -/
theorem observe_eq (hs : r.source.Steady) (step : Step) :
    ∃ r', observe step r = (⟨((framing (r.recordsRead + 1) r.source.pending).stepAnswer step
        (r.recordsRead + 1) r.position).mapError .format, r'.recordsRead, r'.position⟩, r') ∧
      r.Moved (extent r.source.pending) (framing (r.recordsRead + 1) r.source.pending).count r' := by
  obtain ⟨r', hrun, moved⟩ := stepRun_goesOver hs step
  refine ⟨r', ?_, moved⟩
  rw [observe, hrun]
  cases (framing (r.recordsRead + 1) r.source.pending).stepAnswer step (r.recordsRead + 1)
    r.position <;> rfl

/-- What a step does with what has been found where the reader stands. -/
def Step.finish (step : Step) : Option Record → Reading Answer
  | none => pure .endOfStream
  | some found => ofFormat (step.answer found)

theorem map_readWith {α : Type} {make : Record → Except FormatError α} {wrap : α → Answer}
    {step : Step} (h : ∀ found, step.answer found = wrap <$> make found) :
    Answer.ofOption wrap <$> readWith make = readRecord >>= step.finish := by
  rw [readWith, map_eq_pure_bind, bind_assoc]
  congr 1
  funext found
  cases found with
  | none => rfl
  | some record =>
    dsimp only [Step.finish]
    rw [h]
    cases make record <;> rfl

/-- **The type asked for has its say last**: every step reads a record, and then makes something of
it without reading on. -/
theorem stepRun_eq (step : Step) : step.run = readRecord >>= step.finish := by
  cases step with
  | record =>
    rw [Step.run, map_eq_pure_bind]
    congr 1
    funext found
    cases found <;> rfl
  | every =>
    rw [Step.run, map_eq_pure_bind]
    congr 1
    funext found
    cases found <;> rfl
  | typed type => exact map_readWith fun _ => rfl
  | elements type =>
    cases type
    all_goals exact map_readWith fun found => (comp_map ..).symm

theorem run_append (first second : List Step) (r : Reader) :
    run (first ++ second) r =
      ((run first r).1 ++ (run second (run first r).2).1, (run second (run first r).2).2) := by
  induction first generalizing r with
  | nil => rfl
  | cons step rest ih =>
    simp only [List.cons_append, run]
    rw [ih]

end Reader

end Screening
