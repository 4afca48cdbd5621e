import Screening.Contents.Decode
import Screening.Probe
import Screening.Proofs.Elements
import Screening.Proofs.Reading

/-!
# Two runs side by side

What a reader makes of a source is compared with what it makes of another one: the same bytes
delivered otherwise, the bytes that come before a refusal, a beginning of the bytes.  All of these
comparisons go the same way.  The two runs stay side by side until the second source has ended; from
there on the first run may refuse, or go on ahead on its own, and the second one fails for want of
bytes.  Only `Reader.take` ever asks a source for anything, so a comparison has to be checked for
`Source.fill` alone.

* `Comparison` — what holds of two sources as long as they keep together, and what becomes of the
  first where the second has ended.
* `ComesOfEnd Ends outcome` — an outcome that comes of the end of a source.
* `Comparison.Respects m Ends` — what a comparison makes of an operation: the two runs give the same
  and stay side by side, or they part.
* `Comparison.Respects.bind` — the step: what is put together from operations that respect a
  comparison respects it.
* `respects_readRecord`, `respects_stepRun`, `respects_read` — so do all operations of a reader, up
  to the steps of a walk and the reading of a file.
-/

set_option autoImplicit false

namespace Screening

/-! ## Outcomes -/

/-- The failures that come of the end of a source: a record is not there, or not all of it. -/
def Error.ranOut : Error → Bool
  | .format (.missing _) => true
  | .format (.truncatedRecord ..) => true
  | _ => false

/-- An outcome comes of the end of a source, where `Ends` tells of which answers that is so. -/
def ComesOfEnd {α : Type} (Ends : α → Prop) : Except Error α → Prop
  | .ok x => Ends x
  | .error e => e.ranOut = true

/-- No answer comes of the end of a source. -/
def Never {α : Type} : α → Prop := fun _ => False

/-- A rule of the format that never blames the end of a source. -/
def Blameless {α : Type} (check : Except FormatError α) : Prop :=
  ∀ cause, check = .error cause → (Error.format cause).ranOut = false

namespace Reading

variable {α β : Type} {m : Reading α} {f : α → Reading β} {r r' : Reader}

theorem outcome_bind_ok {x : α} (h : m.outcome r = (.ok x, r')) :
    (m >>= f).outcome r = (f x).outcome r' := by
  rw [outcome] at h
  split at h
  · rename_i y s hm
    cases h
    rw [outcome, bind_ok hm, outcome]
  · cases h

theorem outcome_bind_error {e : Error} (h : m.outcome r = (.error e, r')) :
    (m >>= f).outcome r = (.error e, r') := by
  rw [outcome] at h
  split at h
  · cases h
  · rename_i cause s hm
    cases h
    rw [outcome, bind_error hm]

end Reading

/-! ## Comparisons -/

/-- A way to compare two sources that are read side by side. -/
structure Comparison where
  /-- Both sources have handed out the same. -/
  Together : Source → Source → Prop
  /-- The first source has handed out more than the second one had. -/
  Ahead : Source → Prop
  /-- The first source has refused a read where the second one ended. -/
  Refused : IoError → Source → Prop
  /-- The second source has ended. -/
  Spent : Source → Prop
  /-- The first source may end as well. -/
  MayEnd : Prop
  /-- Bytes are handed out by both sources, or the second one ends. -/
  fill_together : ∀ {s t : Source} (want : Nat), Together s t →
    (∃ bytes s' t', s.fill want = (.ok bytes, s') ∧ t.fill want = (.ok bytes, t') ∧
      Together s' t' ∧ (bytes.length < want → MayEnd)) ∨
    ∃ bytes t', t.fill want = (.ok bytes, t') ∧ bytes.length < want ∧ Spent t' ∧
      ((∃ more s', s.fill want = (.ok more, s') ∧ Ahead s') ∨
        ∃ cause s', s.fill want = (.error cause, s') ∧ Refused cause s')
  /-- A source that is ahead stays ahead, and does not refuse. -/
  fill_ahead : ∀ {s : Source} (want : Nat), Ahead s →
    ∃ bytes s', s.fill want = (.ok bytes, s') ∧ Ahead s'
  /-- Only a source that does not refuse gets ahead. -/
  mayEnd_of_ahead : ∀ {s : Source}, Ahead s → MayEnd

namespace Comparison

variable (C : Comparison)

/-- Two readers of sources that are together have counted the same. -/
structure Beside (r r' : Reader) : Prop where
  /-- The sources have handed out the same. -/
  source : C.Together r.source r'.source
  /-- As many records are counted. -/
  recordsRead : r.recordsRead = r'.recordsRead
  /-- As many bytes are counted. -/
  position : r.position = r'.position

/-- What is known of the first run where the second source has ended: it was refused a read, or its
source is ahead. -/
def Away {α : Type} : Except Error α × Reader → Prop
  | (.error (.io cause), r) => C.Refused cause r.source
  | (_, r) => C.Ahead r.source

/-- An operation respects a comparison.  Started from readers that are side by side, it gives the
same and leaves them side by side, or the second run has come to the end of its source and the first
one is away. -/
structure Respects {α : Type} (m : Reading α) (Ends : α → Prop) : Prop where
  /-- From readers that are side by side. -/
  beside : ∀ {r r' : Reader}, C.Beside r r' →
    (∃ o s s', m.outcome r = (o, s) ∧ m.outcome r' = (o, s') ∧ C.Beside s s' ∧
      (ComesOfEnd Ends o → C.MayEnd)) ∨
    ∃ o s', m.outcome r' = (o, s') ∧ ComesOfEnd Ends o ∧ C.Spent s'.source ∧
      C.Away (m.outcome r)
  /-- From a reader that is ahead. -/
  ahead : ∀ {r : Reader}, C.Ahead r.source → C.Away (m.outcome r)

variable {C} {α β : Type}

/-! ## What is put together from operations -/

theorem respects_pure {Ends : α → Prop} (x : α) (h : Ends x → C.MayEnd) :
    C.Respects (pure x) Ends where
  beside hb := Or.inl ⟨.ok x, _, _, rfl, rfl, hb, h⟩
  ahead ha := ha

theorem respects_throw {Ends : α → Prop} (cause : FormatError)
    (h : (Error.format cause).ranOut = true → C.MayEnd) :
    C.Respects (throw (.format cause) : Reading α) Ends where
  beside hb := Or.inl ⟨.error (.format cause), _, _, rfl, rfl, hb, h⟩
  ahead ha := ha

/-- A rule of the format that blames no end, about an answer that is not one either. -/
theorem respects_ofFormat {Ends : α → Prop} {check : Except FormatError α} (h : Blameless check)
    (hends : ∀ x, Ends x → C.MayEnd) : C.Respects (Reading.ofFormat check) Ends := by
  cases check with
  | ok x => exact respects_pure x (hends x)
  | error cause =>
    refine respects_throw cause fun hout => ?_
    rw [h cause rfl] at hout
    cases hout

/-- What leaves the source alone and counts by the counts. -/
theorem respects_modify {Ends : Unit → Prop} {f : Reader → Reader}
    (hsource : ∀ r, (f r).source = r.source)
    (hrecords : ∀ r r', r.recordsRead = r'.recordsRead → (f r).recordsRead = (f r').recordsRead)
    (hposition : ∀ r, (f r).position = r.position) (hends : Ends () → C.MayEnd) :
    C.Respects (modify f) Ends where
  beside {r r'} hb := by
    refine Or.inl ⟨.ok (), f r, f r', rfl, rfl, ⟨?_, hrecords _ _ hb.recordsRead, ?_⟩, hends⟩
    · rw [hsource, hsource]
      exact hb.source
    · rw [hposition, hposition]
      exact hb.position
  ahead {r} ha := by
    show C.Ahead (f r).source
    rw [hsource]
    exact ha

theorem respects_note {Ends : Unit → Prop} (event : Event) (hends : Ends () → C.MayEnd) :
    C.Respects (Reader.note event) Ends :=
  respects_modify (fun _ => rfl) (fun _ _ h => h) (fun _ => rfl) hends

theorem respects_countRecord {Ends : Unit → Prop} (index : Nat) (hends : Ends () → C.MayEnd) :
    C.Respects (Reader.countRecord index) Ends :=
  respects_modify (fun _ => rfl) (fun _ _ _ => rfl) (fun _ => rfl) hends

/-- What looks at the counts of the reader only. -/
theorem respects_get {Ends : α → Prop} {f : Reader → Reading α}
    (hf : ∀ r r', r.recordsRead = r'.recordsRead → r.position = r'.position → f r = f r')
    (h : ∀ r, C.Respects (f r) Ends) : C.Respects (get >>= f) Ends where
  beside {r r'} hb := by
    have hsame : (get >>= f).outcome r' = (f r).outcome r' := by
      rw [hf r r' hb.recordsRead hb.position]
      rfl
    rw [hsame]
    exact (h r).beside hb
  ahead {r} ha := (h r).ahead ha

/-- An operation that is away stays away, whatever follows it. -/
theorem Away.bind {m : Reading α} {f : α → Reading β} {r : Reader} {Ends : β → Prop}
    (h : C.Away (m.outcome r)) (hf : C.MayEnd → ∀ x, C.Respects (f x) Ends) :
    C.Away ((m >>= f).outcome r) := by
  cases hm : m.outcome r with
  | mk o s =>
  rw [hm] at h
  cases o with
  | ok x =>
    have hahead : C.Ahead s.source := h
    rw [Reading.outcome_bind_ok hm]
    exact (hf (C.mayEnd_of_ahead hahead) x).ahead hahead
  | error e =>
    rw [Reading.outcome_bind_error hm]
    cases e <;> exact h

/-- **One operation after the other.**  Where the first one answers something that comes of the end
of the second source, the other must not read on, and its outcome has to come of the end too. -/
theorem Respects.bind {m : Reading α} {f : α → Reading β} {Ends : α → Prop} {Ends' : β → Prop}
    (hm : C.Respects m Ends) (hf : ∀ x, (Ends x → C.MayEnd) → C.Respects (f x) Ends')
    (hend : ∀ x, Ends x → ∀ r, ∃ o r', (f x).outcome r = (o, r') ∧ ComesOfEnd Ends' o ∧
      r'.source = r.source) : C.Respects (m >>= f) Ends' where
  beside hb := by
    rcases hm.beside hb with ⟨o, s, s', hs, hs', hb', hmay⟩ | ⟨o, s', hs', hends, hspent, haway⟩
    · cases o with
      | ok x =>
        rw [Reading.outcome_bind_ok hs, Reading.outcome_bind_ok hs']
        exact (hf x hmay).beside hb'
      | error e =>
        rw [Reading.outcome_bind_error hs, Reading.outcome_bind_error hs']
        exact Or.inl ⟨.error e, s, s', rfl, rfl, hb', hmay⟩
    · have haway' := haway.bind fun hmay x => hf x fun _ => hmay
      cases o with
      | ok x =>
        obtain ⟨o', s'', hs'', hends', hsource⟩ := hend x hends s'
        refine Or.inr ⟨o', s'', (Reading.outcome_bind_ok hs').trans hs'', hends', ?_, haway'⟩
        rw [hsource]
        exact hspent
      | error e =>
        exact Or.inr ⟨.error e, s', Reading.outcome_bind_error hs', hends, hspent, haway'⟩
  ahead ha := (hm.ahead ha).bind fun hmay x => hf x fun _ => hmay

/-- One operation after another that answers only what has been read in full. -/
theorem Respects.bind_full {m : Reading α} {f : α → Reading β} {Ends : β → Prop}
    (hm : C.Respects m Never) (hf : ∀ x, C.Respects (f x) Ends) : C.Respects (m >>= f) Ends :=
  hm.bind (fun x _ => hf x) fun _ h => h.elim

theorem Respects.map {m : Reading α} {g : α → β} {Ends : α → Prop} {Ends' : β → Prop}
    (hm : C.Respects m Ends) (h : ∀ x, Ends' (g x) ↔ Ends x) : C.Respects (g <$> m) Ends' := by
  rw [map_eq_pure_bind]
  refine hm.bind (fun x hmay => respects_pure _ fun hends => hmay ((h x).1 hends)) ?_
  exact fun x hends r => ⟨.ok (g x), r, rfl, (h x).2 hends, rfl⟩

/-! ## Bytes and markers -/

theorem respects_take (want : Nat) : C.Respects (Reader.take want) (·.length < want) where
  beside {r r'} hb := by
    rcases C.fill_together want hb.source with
      ⟨bytes, s, t, hs, ht, htogether, hmay⟩ | ⟨bytes, t, ht, hshort, hspent, haway⟩
    · refine Or.inl ⟨.ok bytes, { r with source := s, position := r.position + bytes.length },
        { r' with source := t, position := r'.position + bytes.length }, ?_, ?_,
        ⟨htogether, hb.recordsRead, ?_⟩, hmay⟩
      · rw [Reading.outcome, Reader.take, hs]
      · rw [Reading.outcome, Reader.take, ht]
      · show r.position + _ = r'.position + _
        rw [hb.position]
    · refine Or.inr ⟨.ok bytes, { r' with source := t, position := r'.position + bytes.length },
        ?_, hshort, hspent, ?_⟩
      · rw [Reading.outcome, Reader.take, ht]
      · rcases haway with ⟨more, s, hs, hahead⟩ | ⟨cause, s, hs, hrefused⟩
        · rw [Reading.outcome, Reader.take, hs]
          exact hahead
        · rw [Reading.outcome, Reader.take, hs]
          exact hrefused
  ahead {r} ha := by
    obtain ⟨bytes, s, hs, hahead⟩ := C.fill_ahead want ha
    rw [Reading.outcome, Reader.take, hs]
    exact hahead

theorem respects_readMarker (record : Nat) : C.Respects (Reader.readMarker record) (· = none) := by
  refine (respects_take markerSize).bind (fun bytes hmay => ?_) fun bytes hshort r => ?_
  · by_cases hnil : bytes.isEmpty = true
    · rw [if_pos hnil]
      rw [List.isEmpty_iff] at hnil
      exact respects_pure none fun _ => hmay (by rw [hnil]; decide)
    rw [if_neg hnil]
    by_cases hshort : bytes.length < markerSize
    · rw [if_pos hshort]
      exact respects_throw _ fun _ => hmay hshort
    · rw [if_neg hshort]
      exact respects_pure _ nofun
  · by_cases hnil : bytes.isEmpty = true
    · rw [if_pos hnil]
      exact ⟨.ok none, r, rfl, rfl, rfl⟩
    · rw [if_neg hnil, if_pos hshort]
      exact ⟨_, r, rfl, rfl, rfl⟩

theorem respects_readPayload (record length : Nat) :
    C.Respects (Reader.readPayload record length) Never := by
  refine (respects_take length).bind (fun payload hmay => ?_) fun payload hshort r => ?_
  · by_cases hshort : payload.length < length
    · rw [if_pos hshort]
      exact respects_throw _ fun _ => hmay hshort
    · rw [if_neg hshort]
      exact respects_pure _ nofun
  · rw [if_pos hshort]
    exact ⟨_, r, rfl, rfl, rfl⟩

theorem blameless_checkMarkers (record leading trailing : Nat) :
    Blameless (checkMarkers record leading trailing) := by
  intro cause h
  rw [checkMarkers] at h
  split at h
  · cases h
  · cases h
    rfl

theorem respects_readTrailingMarker (record leading : Nat) :
    C.Respects (Reader.readTrailingMarker record leading) Never := by
  refine (respects_readMarker record).bind (fun found hmay => ?_) fun found hnone r => ?_
  · cases found with
    | none => exact respects_throw _ fun _ => hmay rfl
    | some trailing =>
      exact respects_ofFormat (blameless_checkMarkers record leading trailing) nofun
  · rw [hnone]
    exact ⟨_, r, rfl, rfl, rfl⟩

theorem respects_readBody (record length : Nat) :
    C.Respects (Reader.readBody record length) Never :=
  (respects_readPayload record length).bind_full fun payload =>
    (respects_readTrailingMarker record length).bind_full fun _ => respects_pure payload nofun

/-! ## Records -/

/-- **Reading a record respects every comparison.** -/
theorem respects_readRecord : C.Respects Reader.readRecord (· = none) := by
  refine respects_get (fun r r' hrecords hposition => ?_) fun start => ?_
  · simp only [hrecords, hposition]
  refine (respects_readMarker _).bind (fun found hmay => ?_) fun found hnone r => ?_
  · cases found with
    | none =>
      have hend : C.MayEnd := hmay rfl
      exact Respects.bind_full (respects_note _ nofun) fun _ => respects_pure none fun _ => hend
    | some length =>
      refine (respects_readBody _ length).bind_full fun payload => ?_
      refine Respects.bind_full (respects_note _ nofun) fun _ => ?_
      refine Respects.bind_full (respects_countRecord _ nofun) fun _ => ?_
      exact respects_pure _ nofun
  · rw [hnone]
    exact ⟨.ok none, { r with journal := _ }, rfl, rfl, rfl⟩

theorem respects_readWith {make : Record → Except FormatError α}
    (hmake : ∀ record, Blameless (make record)) :
    C.Respects (Reader.readWith make) (· = none) := by
  refine respects_readRecord.bind (fun found hmay => ?_) fun found hnone r => ?_
  · cases found with
    | none => exact respects_pure none fun _ => hmay rfl
    | some record =>
      exact Respects.map (respects_ofFormat (hmake record) nofun : C.Respects _ Never)
        fun x => ⟨nofun, nofun⟩
  · rw [hnone]
    exact ⟨.ok none, r, rfl, rfl, rfl⟩

/-! ## Steps -/

theorem blameless_decodeElements [Element α] (record : Nat) (payload : List UInt8) :
    Blameless (decodeElements α record payload) := by
  intro cause h
  rw [decodeElements_eq] at h
  split at h
  · cases h
  · cases h
    rfl

theorem blameless_answer (step : Reader.Step) (found : Record) : Blameless (step.answer found) := by
  have typed (type : Option ElementType) :
      Blameless (Reader.Answer.payload <$> found.decodeAs type : Except FormatError _) := by
    intro cause h
    cases hpayload : found.decodeAs type with
    | ok payload =>
      rw [hpayload] at h
      cases h
    | error other =>
      rw [hpayload] at h
      cases h
      obtain ⟨size, rfl⟩ := TypedPayload.ofBytes_error hpayload
      rfl
  cases step with
  | record => exact fun cause h => nomatch h
  | elements type => exact typed (some type)
  | typed type => exact typed type
  | every => exact fun cause h => nomatch h

/-- What is made of a record never looks like the end of the stream. -/
theorem answer_ne_endOfStream (step : Reader.Step) (found : Record) :
    step.answer found ≠ .ok .endOfStream := by
  have typed (payload : Except FormatError TypedPayload) :
      Reader.Answer.payload <$> payload ≠ .ok .endOfStream := by
    cases payload <;> exact nofun
  cases step with
  | record => exact nofun
  | elements type => exact typed _
  | typed type => exact typed _
  | every => exact nofun

/-- **Every step of a walk respects every comparison.** -/
theorem respects_stepRun (step : Reader.Step) : C.Respects step.run (· = .endOfStream) := by
  rw [Reader.stepRun_eq]
  refine respects_readRecord.bind (fun found hmay => ?_) fun found hnone r => ?_
  · cases found with
    | none => exact respects_pure _ fun _ => hmay rfl
    | some found =>
      dsimp only [Reader.Step.finish]
      cases hanswer : step.answer found with
      | ok answer =>
        refine respects_pure answer fun hends => ?_
        exact absurd (hends ▸ hanswer) (answer_ne_endOfStream step found)
      | error cause =>
        refine respects_throw cause fun hout => ?_
        rw [blameless_answer step found cause hanswer] at hout
        cases hout
  · rw [hnone]
    exact ⟨.ok .endOfStream, r, rfl, rfl, rfl⟩

/-- The runs of a step from two readers, as they are seen. -/
theorem observe_eq_outcome (step : Reader.Step) (r : Reader) :
    Reader.observe step r = (⟨(step.run.outcome r).1, (step.run.outcome r).2.recordsRead,
      (step.run.outcome r).2.position⟩, (step.run.outcome r).2) := by
  rw [Reader.observe, Reading.outcome]
  cases step.run r <;> rfl

/-! ## Probes -/

/-- A probe may end early without having failed, so it says nothing where that would matter. -/
theorem respects_probeUpTo (hmay : C.MayEnd) (previewSize limit : Nat) :
    C.Respects (Reader.probeUpTo previewSize limit) fun _ => True := by
  induction limit with
  | zero => exact respects_pure [] fun _ => hmay
  | succ limit ih =>
    refine respects_readRecord.bind (fun found _ => ?_) fun found hnone r => ?_
    · cases found with
      | none => exact respects_pure [] fun _ => hmay
      | some record =>
        refine ih.bind (fun rest _ => respects_pure _ fun _ => hmay) fun rest _ r => ?_
        exact ⟨.ok _, r, rfl, trivial, rfl⟩
    · rw [hnone]
      exact ⟨.ok [], r, rfl, trivial, rfl⟩

/-! ## Files -/

open Contents

theorem respects_nextElements (α : Type) [Element α] (kind : RecordKind) :
    C.Respects (nextElements α kind) Never := by
  refine (respects_readWith fun record => blameless_decodeElements (α := α) record.index
    record.payload).bind (fun found hmay => ?_) fun found hnone r => ?_
  · cases found with
    | none => exact respects_throw _ fun _ => hmay rfl
    | some elements => exact respects_pure elements nofun
  · rw [hnone]
    exact ⟨.error (.format (.missing kind)), r, rfl, rfl, rfl⟩

theorem blameless_ofFields (fields : List Int32) : Blameless (Dimensions.ofFields fields) := by
  intro cause h
  unfold Dimensions.ofFields at h
  repeat' split at h
  all_goals cases h
  all_goals rfl

theorem blameless_ofValues (values : List Binary64) : Blameless (Header.ofValues values) := by
  intro cause h
  rw [Header.ofValues] at h
  split at h
  · cases h
  · cases h
    rfl

theorem blameless_reshape (kind : RecordKind) (data : List Complex128) (shape : Nat × Nat) :
    Blameless (reshape kind data shape) := by
  intro cause h
  rw [reshape, checkedShape] at h
  by_cases hshape : shape.1 * shape.2 < wordLimit
  · rw [if_pos hshape] at h
    cases hmatrix : Matrix.ofColumnMajor data.toArray shape.1 shape.2 with
    | ok matrix =>
      simp only [hmatrix] at h
      cases h
    | error rejected =>
      simp only [hmatrix] at h
      cases h
      rfl
  · rw [if_neg hshape] at h
    cases h
    rfl

theorem respects_readDimensions : C.Respects readDimensions Never :=
  (respects_nextElements Int32 .dimensions).bind_full fun fields =>
    respects_ofFormat (blameless_ofFields fields) nofun

theorem respects_readHeader : C.Respects readHeader Never := by
  refine (respects_nextElements Binary64 .header).bind_full fun values => ?_
  refine Respects.bind_full (respects_ofFormat (blameless_ofValues values) nofun) fun header => ?_
  exact Respects.bind_full (respects_note _ nofun) fun _ => respects_pure header nofun

theorem respects_readMatrix (kind : RecordKind) (shape : Nat × Nat) :
    C.Respects (readMatrix kind shape) Never := by
  refine (respects_nextElements Complex128 kind).bind_full fun data => ?_
  refine Respects.bind_full (respects_ofFormat (blameless_reshape kind data shape) nofun)
    fun matrix => ?_
  exact Respects.bind_full (respects_note _ nofun) fun _ => respects_pure matrix nofun

/-- **Reading a file respects every comparison.** -/
theorem respects_read (label : String) : C.Respects (Contents.read label) Never := by
  refine respects_readDimensions.bind_full fun dimensions => ?_
  refine Respects.bind_full (respects_note _ nofun) fun _ => ?_
  refine respects_readHeader.bind_full fun header => ?_
  refine (respects_readMatrix .wing _).bind_full fun wing => ?_
  refine (respects_readMatrix .cwing _).bind_full fun cwing => ?_
  refine (respects_readMatrix .response _).bind_full fun response => ?_
  exact respects_pure _ nofun

end Comparison

end Screening
