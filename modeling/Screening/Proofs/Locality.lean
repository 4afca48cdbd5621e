import Screening.Proofs.Acceptance
import Screening.Proofs.SideBySide

/-!
# What is read depends on the bytes that were taken

A reader sees the bytes that it takes, and nothing else: not how they were handed out, and not what
comes after them.  Both follow from one comparison.  A source is read beside another one that holds
the same bytes up to some offset and no more; the two runs part only where the first takes a byte
from beyond the offset, and there the second fails for want of bytes.

* `Source.CutAt offset s t` — `t` holds the bytes of `s` up to an offset.
* `Comparison.cut` — the comparison of a source with its beginning.
* `delivery_unseen` — cut where it ends, a source gives what it gave: the manner of delivery plays
  no part.
* `verdict_local` — cut behind the bytes that decoding took, it still gives the same; cut before
  their end, it gives a record that is missing or truncated.
-/

set_option autoImplicit false

namespace Screening

/-! ## A source and its beginning -/

namespace Source

/-- The second source holds what the first one does, up to an offset, and is steady.  The first one
hands out something at every read that it neither interrupts nor refuses. -/
structure CutAt (offset : Nat) (s t : Source) : Prop where
  /-- Every read of the first source may get something. -/
  chunk : ∀ place, s.chunk place ≠ some 0
  /-- The second source does not fail. -/
  steady : t.Steady
  /-- Both have handed out as much. -/
  taken : t.taken = s.taken
  /-- What the second one holds is a beginning of what the first one holds. -/
  pending : t.pending = s.pending.take (offset - s.taken)
  /-- The offset lies ahead. -/
  taken_le : s.taken ≤ offset
  /-- There are bytes up to the offset. -/
  le_total : offset ≤ s.taken + s.pending.length

variable {s t : Source} {offset want : Nat}

theorem CutAt.length_pending (h : s.CutAt offset t) : t.pending.length = offset - s.taken := by
  have := h.le_total
  rw [h.pending, List.length_take]
  omega

/-- A demand that does not go beyond the offset is met alike. -/
theorem CutAt.fill_same (h : s.CutAt offset t) (clear : s.Clear want)
    (hw : min want s.pending.length ≤ offset - s.taken) :
    ∃ s' t', s.fill want = (.ok (s.pending.take want), s') ∧
      t.fill want = (.ok (s.pending.take want), t') ∧
      s.Advanced (min want s.pending.length) s' ∧ s'.CutAt offset t' := by
  obtain ⟨s', hs, advs⟩ := fill_of_clear h.chunk clear
  obtain ⟨t', ht, advt⟩ := fill_of_steady h.steady want
  have hlen := h.length_pending
  have htotal := h.le_total
  have hsame : t.pending.take want = s.pending.take want := by
    rw [h.pending, List.take_take, List.take_eq_take_iff]
    omega
  have hcount : min want t.pending.length = min want s.pending.length := by omega
  rw [hsame] at ht
  rw [hcount] at advt
  have htaken := advs.taken
  have hrest := advs.length_pending
  refine ⟨s', t', hs, ht, advs, ?_⟩
  exact
    { chunk := advs.chunk ▸ h.chunk
      steady := advt.steady h.steady
      taken := by rw [advt.taken, advs.taken, h.taken]
      pending := by
        rw [advt.pending, h.pending, List.drop_take, advs.pending, htaken, Nat.sub_add_eq]
      taken_le := by
        have := h.taken_le
        omega
      le_total := by omega }

/-- A demand that goes beyond the offset finds the second source at its end. -/
theorem CutAt.fill_short (h : s.CutAt offset t) (hw : offset - s.taken < want) :
    ∃ t', t.fill want = (.ok t.pending, t') ∧ t.pending.length < want ∧ t'.taken = offset := by
  obtain ⟨t', ht, adv⟩ := fill_of_steady h.steady want
  have hlen := h.length_pending
  have htaken := adv.taken
  have hle := h.taken_le
  rw [List.take_of_length_le (by omega)] at ht
  refine ⟨t', ht, by omega, ?_⟩
  rw [htaken, h.taken]
  omega

/-- From its start, a source is cut at an offset by any steady one with its first bytes. -/
theorem cutAt_of_take (chunk : ∀ place, s.chunk place ≠ some 0) (fresh : s.taken = 0)
    (steady' : t.Steady) (fresh' : t.taken = 0) (hle : offset ≤ s.pending.length)
    (hpending : t.pending = s.pending.take offset) : s.CutAt offset t where
  chunk := chunk
  steady := steady'
  taken := by rw [fresh, fresh']
  pending := by rw [hpending, fresh, Nat.sub_zero]
  taken_le := by rw [fresh]; exact Nat.zero_le _
  le_total := by rw [fresh, Nat.zero_add]; exact hle

/-- The beginning that is handed out in one go. -/
theorem cutAt_ofBytes_take (steady : s.Steady) (fresh : s.taken = 0)
    (hle : offset ≤ s.pending.length) : s.CutAt offset (ofBytes (s.pending.take offset)) :=
  cutAt_of_take steady.chunk fresh (steady_ofBytes _) rfl hle rfl

end Source

/-! ## The comparison -/

namespace Comparison

variable {s t : Source} {offset total : Nat}

/-- A source that does not refuse, of a known number of bytes in all, beside its beginning. -/
def BesideBeginning (offset total : Nat) (s t : Source) : Prop :=
  s.CutAt offset t ∧ s.fault = none ∧ s.taken + s.pending.length = total

/-- A source that has handed out bytes beyond an offset. -/
def Beyond (offset total : Nat) (s : Source) : Prop :=
  s.Steady ∧ offset < s.taken ∧ s.taken + s.pending.length = total

theorem fill_besideBeginning (want : Nat) (h : BesideBeginning offset total s t) :
    (∃ bytes s' t', s.fill want = (.ok bytes, s') ∧ t.fill want = (.ok bytes, t') ∧
      BesideBeginning offset total s' t' ∧ (bytes.length < want → True)) ∨
    ∃ bytes t', t.fill want = (.ok bytes, t') ∧ bytes.length < want ∧ t'.taken = offset ∧
      ((∃ more s', s.fill want = (.ok more, s') ∧ Beyond offset total s') ∨
        ∃ cause s', s.fill want = (.error cause, s') ∧ False) := by
  obtain ⟨hcut, hfault, htotal⟩ := h
  have steady : s.Steady := ⟨hcut.chunk, hfault⟩
  by_cases hw : min want s.pending.length ≤ offset - s.taken
  · obtain ⟨s', t', hs, ht, adv, hcut'⟩ := hcut.fill_same (steady.clear want) hw
    exact Or.inl ⟨_, s', t', hs, ht, ⟨hcut', adv.fault.trans hfault, adv.total.trans htotal⟩,
      fun _ => trivial⟩
  · obtain ⟨t', ht, hshort, hspent⟩ :=
      hcut.fill_short (show offset - s.taken < want by omega)
    obtain ⟨s', hs, adv⟩ := Source.fill_of_steady steady want
    have hle := hcut.taken_le
    refine Or.inr ⟨_, t', ht, hshort, hspent, Or.inl ⟨_, s', hs, adv.steady steady, ?_,
      adv.total.trans htotal⟩⟩
    rw [adv.taken]
    omega

theorem fill_beyond (want : Nat) (h : Beyond offset total s) :
    ∃ bytes s', s.fill want = (.ok bytes, s') ∧ Beyond offset total s' := by
  obtain ⟨steady, hlt, htotal⟩ := h
  obtain ⟨s', hs, adv⟩ := Source.fill_of_steady steady want
  refine ⟨_, s', hs, adv.steady steady, ?_, adv.total.trans htotal⟩
  rw [adv.taken]
  omega

/-- A source beside its beginning. -/
def cut (offset total : Nat) : Comparison where
  Together := BesideBeginning offset total
  Ahead := Beyond offset total
  Refused _ _ := False
  Spent t := t.taken = offset
  MayEnd := True
  fill_together := fill_besideBeginning
  fill_ahead := fill_beyond
  mayEnd_of_ahead _ := trivial

theorem beside_cut {source beginning : Source} (steady : source.Steady) (fresh : source.taken = 0)
    (hcut : source.CutAt offset beginning) :
    (cut offset source.pending.length).Beside (.ofSource source) (.ofSource beginning) :=
  ⟨⟨hcut, steady.fault, by rw [Reader.ofSource, fresh, Nat.zero_add]⟩, rfl, rfl⟩

variable {α : Type} {r r' : Reader}

theorem ahead_of_away_cut {run : Except Error α × Reader} (h : (cut offset total).Away run) :
    Beyond offset total run.2.source := by
  obtain ⟨o, r⟩ := run
  cases o with
  | ok x => exact h
  | error e =>
    cases e with
    | io cause => exact h.elim
    | format cause => exact h
    | directoryNotFound path => exact h

/-- Where the beginning is all there is, the runs do not part. -/
theorem same_of_whole {m : Reading α} {Ends : α → Prop} (hm : (cut total total).Respects m Ends)
    (hb : (cut total total).Beside r r') : ∃ o s s', m.outcome r = (o, s) ∧
      m.outcome r' = (o, s') ∧ (cut total total).Beside s s' := by
  rcases hm.beside hb with ⟨o, s, s', hs, hs', hb', -⟩ | ⟨o, s', -, -, -, haway⟩
  · exact ⟨o, s, s', hs, hs', hb'⟩
  · obtain ⟨-, hlt, htotal⟩ := ahead_of_away_cut haway
    omega

theorem run_same_of_whole (hb : (cut total total).Beside r r') (steps : List Reader.Step) :
    (Reader.run steps r).1 = (Reader.run steps r').1 := by
  induction steps generalizing r r' with
  | nil => rfl
  | cons step rest ih =>
    obtain ⟨o, s, s', hs, hs', hb'⟩ := same_of_whole (respects_stepRun step) hb
    simp only [Reader.run, observe_eq_outcome, hs, hs']
    rw [ih hb', hb'.recordsRead, hb'.position]

theorem outcome_probe (limit : Option Nat) (previewSize : Nat) (r : Reader) :
    (Reader.probe limit previewSize).outcome r =
      (Reader.probeUpTo previewSize (limit.getD r.recordBound)).outcome r := rfl

/-- As many records at most are probed, since as many bytes are pending. -/
theorem recordBound_eq_of_whole (hb : (cut total total).Beside r r') :
    r.recordBound = r'.recordBound := by
  obtain ⟨hcut, -, htotal⟩ := hb.source
  have hlen := hcut.length_pending
  rw [Reader.recordBound, Reader.recordBound]
  omega

end Comparison

open Comparison

/-! ## The manner of delivery -/

/-- **How a source hands out its bytes is not seen.**  In pieces of any size and with any
interruptions it gives, step by step of every walk, the same answers and the same counts as in one
go; it is decoded to the same with as many bytes taken; and a probe reports the same. -/
theorem delivery_unseen {source : Source} (steady : source.Steady) (fresh : source.taken = 0) :
    let whole := Source.ofBytes source.pending
    (∀ steps, (Reader.run steps (.ofSource source)).1 = (Reader.run steps (.ofSource whole)).1) ∧
    (∀ label, (decode source label).1 = (decode whole label).1 ∧
      (decode source label).2.source.taken = (decode whole label).2.source.taken) ∧
    ∀ limit previewSize,
      (probeRecords source limit previewSize).1 = (probeRecords whole limit previewSize).1 := by
  intro whole
  have hcut : source.CutAt source.pending.length whole :=
    Source.cutAt_of_take steady.chunk fresh (Source.steady_ofBytes _) rfl (Nat.le_refl _)
      List.take_length.symm
  have hb := beside_cut steady fresh hcut
  refine ⟨run_same_of_whole hb, fun label => ?_, fun limit previewSize => ?_⟩
  · obtain ⟨o, s, s', hs, hs', hb'⟩ := same_of_whole (respects_read label) hb
    rw [decode, decode, hs, hs']
    exact ⟨rfl, hb'.source.1.taken.symm⟩
  · obtain ⟨o, s, s', hs, hs', -⟩ := same_of_whole (respects_probeUpTo trivial previewSize _) hb
    rw [probeRecords, probeRecords, outcome_probe, outcome_probe, ← recordBound_eq_of_whole hb,
      hs, hs']

/-- Three bytes at a time at most, interrupted in a marker, in a payload and past the end. -/
def pieces : Source :=
  ⟨frame [1, 2, 3, 4, 5] ++ marker 9 ++ [7], 0, (some 3 : Option Nat), [0, 6, 6, 13, 18, 40], none⟩

theorem delivery_unseen_pieces :
    pieces.Steady ∧ pieces.taken = 0 ∧
      (Reader.run [.elements .int32, .every, .record] (.ofSource pieces)).1 =
        (Reader.run [.elements .int32, .every, .record] (.ofSource (.ofBytes pieces.pending))).1 ∧
      (decode pieces "pieces").1 = (decode (.ofBytes pieces.pending) "pieces").1 ∧
      (probeRecords pieces none 8).1 = (probeRecords (.ofBytes pieces.pending) none 8).1 := by
  have steady : pieces.Steady := ⟨fun _ => show some 3 ≠ some 0 by decide, rfl⟩
  obtain ⟨hrun, hdecode, hprobe⟩ := delivery_unseen steady rfl
  exact ⟨steady, rfl, hrun _, (hdecode "pieces").1, hprobe none 8⟩

/-! ## The bytes that were taken -/

theorem exists_of_comesOfEnd {α : Type} {o : Except Error α} (h : ComesOfEnd Never o) :
    ∃ e, o = .error e ∧ e.ranOut = true := by
  cases o with
  | ok x => exact h.elim
  | error e => exact ⟨e, rfl, h⟩

/-- **A stream and its beginning** are decoded to the same, from bytes that lie in the beginning, or
the beginning runs out where decoding of the stream goes on. -/
theorem decode_cut {source beginning : Source} {offset : Nat} (steady : source.Steady)
    (fresh : source.taken = 0) (hcut : source.CutAt offset beginning) (label : String) :
    ((decode source label).1 = (decode beginning label).1 ∧
      (decode source label).2.source.taken = (decode beginning label).2.source.taken ∧
      (decode source label).2.source.taken ≤ offset) ∨
    ((∃ e, (decode beginning label).1 = .error e ∧ e.ranOut = true) ∧
      (decode beginning label).2.source.taken = offset ∧
      offset < (decode source label).2.source.taken) := by
  rcases (respects_read label).beside (beside_cut steady fresh hcut) with
    ⟨o, s, s', hs, hs', hb, -⟩ | ⟨o, s', hs', hends, hspent, haway⟩
  · rw [decode, decode, hs, hs']
    exact Or.inl ⟨rfl, hb.source.1.taken.symm, hb.source.1.taken_le⟩
  · obtain ⟨-, hlt, -⟩ := ahead_of_away_cut haway
    rw [decode, decode, hs']
    exact Or.inr ⟨exists_of_comesOfEnd hends, hspent, hlt⟩

theorem taken_le_length {source : Source} (steady : source.Steady) (fresh : source.taken = 0)
    (label : String) : (decode source label).2.source.taken ≤ source.pending.length := by
  have hcut : source.CutAt source.pending.length source :=
    Source.cutAt_of_take steady.chunk fresh steady fresh (Nat.le_refl _) List.take_length.symm
  rcases decode_cut steady fresh hcut label with ⟨-, -, hle⟩ | ⟨-, heq, hlt⟩
  · exact hle
  · omega

/-- Cut behind the bytes that decoding took, a stream is decoded to the same, with as many bytes
taken. -/
theorem decode_take_taken {source : Source} (steady : source.Steady) (fresh : source.taken = 0)
    (label : String) :
    let taken := (decode source label).2.source.taken
    let beginning := Source.ofBytes (source.pending.take taken)
    (decode source label).1 = (decode beginning label).1 ∧
      taken = (decode beginning label).2.source.taken := by
  intro taken beginning
  have hcut : source.CutAt taken beginning :=
    Source.cutAt_ofBytes_take steady fresh (taken_le_length steady fresh label)
  rcases decode_cut steady fresh hcut label with ⟨hsame, htaken, -⟩ | ⟨-, -, hlt⟩
  · exact ⟨hsame, htaken⟩
  · exact absurd hlt (Nat.lt_irrefl _)

/-- **The verdict rests on the bytes that were taken, and on every one of them.**  Unless decoding
ran out of bytes, it gives the same for every stream that begins with the bytes it took, and takes
them again; and cut anywhere before their end, the stream gives a record that is missing or
truncated, with all of its bytes taken. -/
theorem verdict_local {source : Source} (steady : source.Steady) (fresh : source.taken = 0)
    (label : String) :
    let taken := (decode source label).2.source.taken
    taken ≤ source.pending.length ∧
    ((∀ e, (decode source label).1 = .error e → e.ranOut = false) →
      ∀ other : Source, other.Steady → other.taken = 0 →
        source.pending.take taken <+: other.pending →
          (decode other label).1 = (decode source label).1 ∧
            (decode other label).2.source.taken = taken) ∧
    ∀ k < taken, ∀ cut : Source, cut.Steady → cut.taken = 0 →
      cut.pending = source.pending.take k →
        (∃ e, (decode cut label).1 = .error e ∧ e.ranOut = true) ∧
          (decode cut label).2.source.taken = k := by
  intro taken
  have hle := taken_le_length steady fresh label
  refine ⟨hle, fun hverdict other steady' fresh' hfront => ?_,
    fun k hk cut steady' fresh' hcut => ?_⟩
  · obtain ⟨hsame, htaken⟩ := decode_take_taken steady fresh label
    have hlen : (source.pending.take taken).length = taken := by
      rw [List.length_take, Nat.min_eq_left hle]
    have hcut : other.CutAt taken (.ofBytes (source.pending.take taken)) := by
      refine Source.cutAt_of_take steady'.chunk fresh' (Source.steady_ofBytes _) rfl ?_ ?_
      · have := hfront.length_le
        omega
      · have := List.prefix_iff_eq_take.1 hfront
        rwa [hlen] at this
    rcases decode_cut steady' fresh' hcut label with ⟨hsame', htaken', -⟩ | ⟨⟨e, he, hout⟩, -, -⟩
    · exact ⟨hsame'.trans hsame.symm, htaken'.trans htaken.symm⟩
    · have := hverdict e (hsame.trans he)
      rw [hout] at this
      cases this
  · have hlt : k < source.pending.length := Nat.lt_of_lt_of_le hk hle
    have hcutAt : source.CutAt k cut :=
      Source.cutAt_of_take steady.chunk fresh steady' fresh' (Nat.le_of_lt hlt) hcut
    rcases decode_cut steady fresh hcutAt label with ⟨-, -, hle'⟩ | ⟨hout, htaken, -⟩
    · exact absurd hk (Nat.not_lt.2 hle')
    · exact ⟨hout, htaken⟩

theorem verdict_local_single :
    singleSource.Steady ∧ singleSource.taken = 0 ∧
      ∃ c, (decode singleSource "single").1 = .ok c ∧
        (decode singleSource "single").2.source.taken = 304 ∧
        (decode (.ofBytes (single.bytes RecordKind.sequence ++ [9])) "single").1 = .ok c ∧
        (decode (.ofBytes (single.bytes RecordKind.sequence ++ [9])) "single").2.source.taken =
          304 ∧
        (∃ e, (decode (.ofBytes (singleSource.pending.take 10)) "single").1 = .error e ∧
          e.ranOut = true) ∧
        (decode (.ofBytes (singleSource.pending.take 10)) "single").2.source.taken = 10 := by
  have steady : singleSource.Steady := ⟨fun _ => show some 5 ≠ some 0 by decide, rfl⟩
  have hlen : (single.bytes RecordKind.sequence).length = 304 := by decide +kernel
  obtain ⟨c, r, hdecode, htaken⟩ :=
    decode_of_isFile steady "single" single_isFile (List.prefix_append _ _)
  have htaken' : (decode singleSource "single").2.source.taken = 304 := by
    rw [hdecode, htaken, hlen]
    rfl
  have hok : (decode singleSource "single").1 = .ok c := by rw [hdecode]
  obtain ⟨-, hsame, hshort⟩ := verdict_local steady rfl "single"
  rw [htaken'] at hsame hshort
  have hfront : singleSource.pending.take 304 <+: single.bytes RecordKind.sequence ++ [9] := by
    have htake : singleSource.pending.take 304 = single.bytes RecordKind.sequence :=
      List.take_left' hlen
    rw [htake]
    exact List.prefix_append _ _
  obtain ⟨hother, hotherTaken⟩ := hsame (fun e he => by rw [hok] at he; cases he)
    (.ofBytes (single.bytes RecordKind.sequence ++ [9])) (Source.steady_ofBytes _) rfl hfront
  obtain ⟨hout, hcutTaken⟩ := hshort 10 (by decide) (.ofBytes (singleSource.pending.take 10))
    (Source.steady_ofBytes _) rfl rfl
  exact ⟨steady, rfl, c, hok, htaken', hother.trans hok, hotherTaken, hout, hcutTaken⟩

end Screening
