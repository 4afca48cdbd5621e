import Screening.Proofs.Bookkeeping
import Screening.Proofs.Locality

/-!
# A refusal is no end

A source that refuses every read from some offset on is read beside one that ends there.  Up to the
first step that finds the end, both walks look the same; that step and all later ones are refused,
and the counts stand still.  So a refusal is never taken for the end of a source, and the end is
never reported as a refusal.

* `Source.Refusing cause s` — every further read of `s` is refused.
* `Comparison.refusal` — the comparison of a source that refuses with one that ends.
* `run_refused` — a reader that is refused stays as it is.
* `run_beside_end` — the run lemma: by induction on the steps, in step until the second walk runs
  out and refused from there on.
* `refusal_is_no_end` — walks and decoding, from the start of a source.
-/

set_option autoImplicit false

namespace Screening

open Reading

/-! ## Sources that refuse from now on -/

namespace Source

/-- The source refuses every further read, for this cause. -/
structure Refusing (cause : IoError) (s : Source) : Prop where
  /-- Every read may get something that is not refused. -/
  chunk : ∀ place, s.chunk place ≠ some 0
  /-- The refusal begins where the source stands. -/
  fault : s.fault = some (s.taken, cause)

theorem Refusing.fill {cause : IoError} {s : Source} (h : s.Refusing cause) {want : Nat}
    (hw : 0 < want) : ∃ s', s.fill want = (.error cause, s') ∧ s'.Refusing cause := by
  obtain ⟨s', hs, adv⟩ := fill_of_fault h.chunk h.fault (Nat.le_refl _)
    (show s.taken < s.taken + min want (s.pending.length + 1) by omega)
  rw [Nat.sub_self] at adv
  refine ⟨s', hs, adv.chunk ▸ h.chunk, ?_⟩
  rw [adv.fault, h.fault, adv.taken, Nat.add_zero]

end Source

/-! ## The comparison -/

namespace Comparison

variable {s t : Source} {offset : Nat} {cause : IoError}

/-- A source that refuses from an offset on, beside one that ends there. -/
def BesideEnd (offset : Nat) (cause : IoError) (s t : Source) : Prop :=
  s.CutAt offset t ∧ s.fault = some (offset, cause)

theorem fill_besideEnd (want : Nat) (h : BesideEnd offset cause s t) :
    (∃ bytes s' t', s.fill want = (.ok bytes, s') ∧ t.fill want = (.ok bytes, t') ∧
      BesideEnd offset cause s' t' ∧ (bytes.length < want → False)) ∨
    ∃ bytes t', t.fill want = (.ok bytes, t') ∧ bytes.length < want ∧ True ∧
      ((∃ more s', s.fill want = (.ok more, s') ∧ False) ∨
        ∃ other s', s.fill want = (.error other, s') ∧ other = cause ∧ s'.Refusing cause) := by
  obtain ⟨hcut, hfault⟩ := h
  have hle := hcut.taken_le
  have htotal := hcut.le_total
  by_cases hw : want ≤ offset - s.taken
  · have clear : s.Clear want := by
      intro offset' cause' hf
      rw [hfault] at hf
      cases hf
      omega
    obtain ⟨s', t', hs, ht, adv, hcut'⟩ := hcut.fill_same clear (by omega)
    refine Or.inl ⟨_, s', t', hs, ht, ⟨hcut', adv.fault.trans hfault⟩, fun hshort => ?_⟩
    rw [List.length_take] at hshort
    omega
  · obtain ⟨t', ht, hshort, -⟩ := hcut.fill_short (Nat.lt_of_not_le hw)
    obtain ⟨s', hs, adv⟩ := Source.fill_of_fault hcut.chunk hfault hle
      (show offset < s.taken + min want (s.pending.length + 1) by omega)
    have htaken : s'.taken = offset := by
      rw [adv.taken]
      omega
    refine Or.inr ⟨_, t', ht, hshort, trivial, Or.inr ⟨cause, s', hs, rfl, ?_, ?_⟩⟩
    · exact adv.chunk ▸ hcut.chunk
    · rw [adv.fault, hfault, htaken]

/-- A source that refuses, beside one that ends: it neither ends nor gets ahead. -/
def refusal (offset : Nat) (cause : IoError) : Comparison where
  Together := BesideEnd offset cause
  Ahead _ := False
  Refused other s := other = cause ∧ s.Refusing cause
  Spent _ := True
  MayEnd := False
  fill_together := fill_besideEnd
  fill_ahead _ h := h.elim
  mayEnd_of_ahead h := h

theorem refused_of_away {α : Type} {run : Except Error α × Reader}
    (h : (refusal offset cause).Away run) :
    run.1 = .error (.io cause) ∧ run.2.source.Refusing cause := by
  obtain ⟨o, r⟩ := run
  cases o with
  | ok x => exact h.elim
  | error e =>
    cases e with
    | io other =>
      obtain ⟨rfl, hrefusing⟩ := h
      exact ⟨rfl, hrefusing⟩
    | format other => exact h.elim
    | directoryNotFound path => exact h.elim

end Comparison

/-! ## Counting stops

Records are counted last, so an operation that fails while it reads a record has not counted it. -/

/-- An operation that counts no record. -/
def Reading.KeepsRecords {α : Type} (m : Reading α) : Prop :=
  ∀ r, (m.outcome r).2.recordsRead = r.recordsRead

namespace Reading

variable {α β : Type}

theorem KeepsRecords.bind {m : Reading α} {f : α → Reading β} (hm : m.KeepsRecords)
    (hf : ∀ x, (f x).KeepsRecords) : (m >>= f).KeepsRecords := by
  intro r
  have hrecords := hm r
  cases h : m.outcome r with
  | mk o s =>
  rw [h] at hrecords
  cases o with
  | ok x =>
    rw [outcome_bind_ok h]
    exact (hf x s).trans hrecords
  | error e =>
    rw [outcome_bind_error h]
    exact hrecords

theorem keepsRecords_ofFormat (check : Except FormatError α) : (ofFormat check).KeepsRecords := by
  intro r
  cases check <;> rfl

end Reading

namespace Reader

theorem keepsRecords_take (want : Nat) : (take want).KeepsRecords := by
  intro r
  rw [Reading.outcome, take]
  cases hfill : r.source.fill want with
  | mk o s => cases o <;> rfl

theorem keepsRecords_readMarker (record : Nat) : (readMarker record).KeepsRecords := by
  refine (keepsRecords_take markerSize).bind fun bytes r => ?_
  by_cases hnil : bytes.isEmpty = true
  · rw [if_pos hnil]
    rfl
  rw [if_neg hnil]
  by_cases hshort : bytes.length < markerSize
  · rw [if_pos hshort]
    rfl
  · rw [if_neg hshort]
    rfl

theorem keepsRecords_readPayload (record length : Nat) :
    (readPayload record length).KeepsRecords := by
  refine (keepsRecords_take length).bind fun payload r => ?_
  by_cases hshort : payload.length < length
  · rw [if_pos hshort]
    rfl
  · rw [if_neg hshort]
    rfl

theorem keepsRecords_readTrailingMarker (record leading : Nat) :
    (readTrailingMarker record leading).KeepsRecords := by
  refine (keepsRecords_readMarker record).bind fun found => ?_
  cases found with
  | none => exact fun _ => rfl
  | some trailing => exact keepsRecords_ofFormat _

theorem keepsRecords_readBody (record length : Nat) : (readBody record length).KeepsRecords :=
  (keepsRecords_readPayload record length).bind fun _ =>
    (keepsRecords_readTrailingMarker record length).bind fun _ _ => rfl

/-- A record that is not read is not counted. -/
theorem recordsRead_of_readRecord_error {r r' : Reader} {e : Error}
    (h : readRecord.outcome r = (.error e, r')) : r'.recordsRead = r.recordsRead := by
  have hstart : (get : Reading Reader).outcome r = (.ok r, r) := rfl
  rw [readRecord, outcome_bind_ok hstart] at h
  have hmarker := keepsRecords_readMarker (r.recordsRead + 1) r
  cases hfound : (readMarker (r.recordsRead + 1)).outcome r with
  | mk o s =>
  rw [hfound] at hmarker
  cases o with
  | error e =>
    rw [outcome_bind_error hfound] at h
    cases h
    exact hmarker
  | ok found =>
    rw [outcome_bind_ok hfound] at h
    cases found with
    | none => cases h
    | some length =>
      have hbody := keepsRecords_readBody (r.recordsRead + 1) length s
      cases hpayload : (readBody (r.recordsRead + 1) length).outcome s with
      | mk o' s' =>
      rw [hpayload] at hbody
      cases o' with
      | error e =>
        rw [outcome_bind_error hpayload] at h
        cases h
        exact hbody.trans hmarker
      | ok payload =>
        rw [outcome_bind_ok hpayload] at h
        cases h

/-- A step that is refused has not counted a record. -/
theorem recordsRead_of_stepRun_refused {r r' : Reader} {cause : IoError} {step : Step}
    (h : step.run.outcome r = (.error (.io cause), r')) : r'.recordsRead = r.recordsRead := by
  rw [stepRun_eq] at h
  cases hread : readRecord.outcome r with
  | mk o s =>
  cases o with
  | error e =>
    rw [outcome_bind_error hread] at h
    cases h
    exact recordsRead_of_readRecord_error hread
  | ok found =>
    rw [outcome_bind_ok hread] at h
    cases found with
    | none => cases h
    | some found =>
      rw [Step.finish] at h
      cases hanswer : step.answer found with
      | ok answer =>
        rw [hanswer] at h
        cases h
      | error other =>
        rw [hanswer] at h
        cases h

/-! ## Readers that are refused -/

variable {r : Reader} {cause : IoError}

theorem readRecord_refused (h : r.source.Refusing cause) :
    ∃ r', readRecord.outcome r = (.error (.io cause), r') ∧ r'.source.Refusing cause ∧
      r'.recordsRead = r.recordsRead ∧ r'.position = r.position := by
  obtain ⟨s, hs, hrefusing⟩ := h.fill (show 0 < markerSize by decide)
  have hstart : (get : Reading Reader).outcome r = (.ok r, r) := rfl
  have htake : (take markerSize).outcome r = (.error (.io cause), { r with source := s }) := by
    rw [Reading.outcome, take, hs]
  refine ⟨{ r with source := s }, ?_, hrefusing, rfl, rfl⟩
  rw [readRecord, outcome_bind_ok hstart]
  exact outcome_bind_error (outcome_bind_error htake)

theorem observe_refused (h : r.source.Refusing cause) (step : Step) :
    ∃ r', observe step r = (⟨.error (.io cause), r.recordsRead, r.position⟩, r') ∧
      r'.source.Refusing cause ∧ r'.recordsRead = r.recordsRead ∧ r'.position = r.position := by
  obtain ⟨r', hread, hrefusing, hrecords, hposition⟩ := readRecord_refused h
  refine ⟨r', ?_, hrefusing, hrecords, hposition⟩
  rw [Comparison.observe_eq_outcome, stepRun_eq, outcome_bind_error hread]
  dsimp only
  rw [hrecords, hposition]

/-- **A reader that is refused stays as it is**, whatever it is asked for. -/
theorem run_refused (h : r.source.Refusing cause) (steps : List Step) :
    ∀ seen ∈ (run steps r).1, seen = ⟨.error (.io cause), r.recordsRead, r.position⟩ := by
  induction steps generalizing r with
  | nil => exact fun seen hmem => absurd hmem List.not_mem_nil
  | cons step rest ih =>
    obtain ⟨r', hobserve, hrefusing, hrecords, hposition⟩ := observe_refused h step
    have hlater := ih hrefusing
    rw [hrecords, hposition] at hlater
    simp only [run, hobserve]
    exact List.forall_mem_cons.2 ⟨rfl, hlater⟩

/-! ## Walks -/

/-- A step found the end of its source: where a record would have begun, or within the record. -/
def Observation.ranOut (seen : Observation) : Bool :=
  match seen.result with
  | .ok .endOfStream => true
  | .error (.format (.truncatedRecord ..)) => true
  | _ => false

theorem comesOfEnd_of_ranOut {seen : Observation} (h : seen.ranOut = true) :
    ComesOfEnd (· = .endOfStream) seen.result := by
  obtain ⟨result, recordsRead, position⟩ := seen
  simp only [Observation.ranOut] at h
  split at h
  · rfl
  · rfl
  · cases h

/-- A step never answers that a record is missing, so its other outcomes are no end. -/
theorem ranOut_of_comesOfEnd (hs : r.source.Steady) {step : Step}
    (h : ComesOfEnd (· = .endOfStream) (step.run.outcome r).1) :
    (observe step r).1.ranOut = true := by
  obtain ⟨r', hobserve, -⟩ := observe_eq hs step
  have hresult : (step.run.outcome r).1 = (observe step r).1.result := by
    rw [Comparison.observe_eq_outcome]
  rw [hresult] at h
  rw [hobserve] at h ⊢
  cases hf : framing (r.recordsRead + 1) r.source.pending with
  | ended => rfl
  | broken cause =>
    rw [hf] at h
    rcases cause_of_framing_broken hf with ⟨expected, available, rfl⟩ | ⟨leading, trailing, rfl⟩
    · rfl
    · cases h
  | whole payload =>
    rw [hf] at h
    dsimp only [Framing.stepAnswer] at h
    cases hanswer : step.answer ⟨r.recordsRead + 1, r.position, payload⟩ with
    | ok answer =>
      rw [hanswer] at h
      have hends : answer = .endOfStream := h
      exact absurd (hends ▸ hanswer) (Comparison.answer_ne_endOfStream step _)
    | error cause =>
      rw [hanswer] at h
      have hout : (Error.format cause).ranOut = true := h
      rw [Comparison.blameless_answer step _ cause hanswer] at hout
      cases hout

/-- **Two walks, one refused where the other ends.**  They look the same up to the first step of the
other one that runs out; that step and all later ones are refused, and the counts stand still. -/
theorem run_beside_end {offset : Nat} {r' : Reader}
    (h : (Comparison.refusal offset cause).Beside r r') (steps : List Step) :
    let same := ((run steps r').1.takeWhile fun seen => !seen.ranOut).length
    (run steps r).1.take same = (run steps r').1.take same ∧
      ∀ seen ∈ (run steps r).1.drop same, seen.result = .error (.io cause) ∧
        seen.recordsRead = (run (steps.take same) r).2.recordsRead ∧
        ((run steps r).1.drop same).head?.map Observation.position = some seen.position := by
  induction steps generalizing r r' with
  | nil => exact ⟨rfl, fun seen hmem => absurd hmem List.not_mem_nil⟩
  | cons step rest ih =>
    rcases (Comparison.respects_stepRun step).beside h with
      ⟨o, s, s', hs, hs', hb, hnever⟩ | ⟨o, s', hs', hends, -, haway⟩
    · -- In step: what is answered is no end, and the walks go on side by side.
      have hobserve : observe step r = (⟨o, s.recordsRead, s.position⟩, s) := by
        rw [Comparison.observe_eq_outcome, hs]
      have hobserve' : observe step r' = (⟨o, s.recordsRead, s.position⟩, s') := by
        rw [Comparison.observe_eq_outcome, hs', hb.recordsRead, hb.position]
      have hgoes : Observation.ranOut ⟨o, s.recordsRead, s.position⟩ = false :=
        Bool.eq_false_iff.2 fun hout => hnever (comesOfEnd_of_ranOut hout)
      obtain ⟨hsame, hlater⟩ := ih hb
      simp only [run, hobserve, hobserve', List.takeWhile_cons, hgoes, Bool.not_false, if_true,
        List.length_cons, List.take_succ_cons, List.drop_succ_cons]
      exact ⟨congrArg _ hsame, hlater⟩
    · -- The other walk runs out; this one is refused, and stays so.
      have hout : (observe step r').1.ranOut = true :=
        ranOut_of_comesOfEnd h.source.1.steady (by rw [hs']; exact hends)
      obtain ⟨hrefused, hrefusing⟩ := Comparison.refused_of_away haway
      cases hs : step.run.outcome r with
      | mk o' s =>
      rw [hs] at hrefused hrefusing
      obtain rfl : o' = .error (.io cause) := hrefused
      have hrecords := recordsRead_of_stepRun_refused hs
      have hlater := run_refused hrefusing rest
      have hobserve : observe step r = (⟨.error (.io cause), s.recordsRead, s.position⟩, s) := by
        rw [Comparison.observe_eq_outcome, hs]
      simp only [run, hobserve, List.takeWhile_cons, hout, Bool.not_true, Bool.false_eq_true,
        if_false, List.length_nil, List.take_zero, List.drop_zero, List.head?_cons, Option.map_some]
      refine ⟨trivial, List.forall_mem_cons.2 ⟨⟨rfl, hrecords, rfl⟩, fun seen hmem => ?_⟩⟩
      rw [hlater seen hmem]
      exact ⟨rfl, hrecords, rfl⟩

end Reader

/-! ## From the start of a source -/

open Comparison

/-- **A refusal is never taken for an end, nor an end for a refusal.**  A source that refuses every
read from an offset on is compared with one that holds the bytes before it.  Both walks look the
same up to the first step of the other one that finds the end of the stream or a record cut short;
that step and all later ones give the refusal, no more records are counted, and the position stays
where that step left it.  Decoding gives the refusal exactly where decoding of the bytes before it
gives a record that is missing or cut short, and otherwise gives the same. -/
theorem refusal_is_no_end {source cut : Source} {offset : Nat} {cause : IoError}
    (chunk : ∀ place, source.chunk place ≠ some 0) (fault : source.fault = some (offset, cause))
    (fresh : source.taken = 0) (hle : offset ≤ source.pending.length) (steady : cut.Steady)
    (fresh' : cut.taken = 0) (hcut : cut.pending = source.pending.take offset) :
    (∀ steps : List Reader.Step,
      let refused := (Reader.run steps (.ofSource source)).1
      let ended := (Reader.run steps (.ofSource cut)).1
      let same := (ended.takeWhile fun seen => !seen.ranOut).length
      refused.take same = ended.take same ∧
        ∀ seen ∈ refused.drop same, seen.result = .error (.io cause) ∧
          seen.recordsRead = (Reader.run (steps.take same) (.ofSource source)).2.recordsRead ∧
          (refused.drop same).head?.map Reader.Observation.position = some seen.position) ∧
    ∀ label : String,
      ((decode source label).1 = .error (.io cause) ↔
        ∃ e, (decode cut label).1 = .error e ∧ e.ranOut = true) ∧
      ((∀ e, (decode cut label).1 = .error e → e.ranOut = false) →
        (decode source label).1 = (decode cut label).1) := by
  have hcutAt : source.CutAt offset cut :=
    Source.cutAt_of_take chunk fresh steady fresh' hle hcut
  have hb : (refusal offset cause).Beside (.ofSource source) (.ofSource cut) :=
    ⟨⟨hcutAt, fault⟩, rfl, rfl⟩
  refine ⟨fun steps => Reader.run_beside_end hb steps, fun label => ?_⟩
  rcases (respects_read label).beside hb with
    ⟨o, s, s', hs, hs', -, hnever⟩ | ⟨o, s', hs', hends, -, haway⟩
  · have hsource : (decode source label).1 = o := by rw [decode, hs]
    have hother : (decode cut label).1 = o := by rw [decode, hs']
    refine ⟨⟨fun hrefused => ?_, fun hended => ?_⟩, fun _ => hsource.trans hother.symm⟩
    · -- A source that is not refused has no refusal to give.
      have hio := hother.trans (hsource.symm.trans hrefused)
      obtain ⟨kind, cause', hformat, -⟩ := firstFault_of_decode steady hio
      cases hformat
    · obtain ⟨e, he, hout⟩ := hended
      obtain rfl := hother.symm.trans he
      exact (hnever hout).elim
  · have hother : (decode cut label).1 = o := by rw [decode, hs']
    obtain ⟨e, rfl, hout⟩ := exists_of_comesOfEnd hends
    refine ⟨⟨fun _ => ⟨e, hother, hout⟩, fun _ => (refused_of_away haway).1⟩, fun hverdict => ?_⟩
    rw [hverdict e hother] at hout
    cases hout

/-- A good record, then one whose payload is refused after three bytes of nine; four bytes at a time
at most. -/
def refusedWithin : Source :=
  ⟨frame [1, 2, 3, 4, 5] ++ marker 9 ++ [7, 7, 7, 7, 7, 7, 7, 7, 7] ++ marker 9, 0,
    (some 4 : Option Nat), [2, 13, 20], some (20, .other "injected failure")⟩

theorem refusal_is_no_end_refusedWithin :
    (∀ place, refusedWithin.chunk place ≠ some 0) ∧
      refusedWithin.fault = some (20, .other "injected failure") ∧ refusedWithin.taken = 0 ∧
      20 ≤ refusedWithin.pending.length ∧
      (∃ same, (Reader.run [.record, .every, .record] (.ofSource refusedWithin)).1.take same =
          (Reader.run [.record, .every, .record]
            (.ofSource (.ofBytes (refusedWithin.pending.take 20)))).1.take same ∧
        ∀ seen ∈ (Reader.run [.record, .every, .record] (.ofSource refusedWithin)).1.drop same,
          seen.result = .error (.io (.other "injected failure"))) ∧
      (decode refusedWithin "refused").1 = .error (.format (.malformedPayloadSize 1 5 4)) := by
  have chunk : ∀ place, refusedWithin.chunk place ≠ some 0 :=
    fun _ => show some 4 ≠ some 0 by decide
  have hle : 20 ≤ refusedWithin.pending.length := by decide
  have steady : (Source.ofBytes (refusedWithin.pending.take 20)).Steady :=
    Source.steady_ofBytes _
  have hfirst : FirstFault (refusedWithin.pending.take 20) .dimensions
      (.malformedPayloadSize 1 5 4) :=
    ⟨single, _, rfl, fun _ hmem => absurd hmem List.not_mem_nil, by decide⟩
  have hother := decode_of_firstFault steady "refused" hfirst
  obtain ⟨hwalk, hdecode⟩ := refusal_is_no_end chunk rfl rfl hle steady rfl rfl
  obtain ⟨hsame, hlater⟩ := hwalk [.record, .every, .record]
  refine ⟨chunk, rfl, rfl, hle, ⟨_, hsame, fun seen hmem => (hlater seen hmem).1⟩, ?_⟩
  refine ((hdecode "refused").2 fun e he => ?_).trans hother
  obtain rfl := Except.error.inj (hother.symm.trans he)
  rfl

end Screening
