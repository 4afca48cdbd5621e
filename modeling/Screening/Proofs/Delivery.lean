import Screening.Source

/-!
# Delivery does not matter

A source may hand out its bytes in pieces and interrupt as often as it likes.  This file shows that
nothing of that reaches whoever asks through `Source.fill`: what comes is the next bytes, as many as
were wanted or as many as there are.

* `Source.Steady` — the source never refuses, and never hands out nothing before its end.
* `Source.Advanced s n s'` — `s'` is `s` after its next `n` bytes, whatever became of the
  interruptions.
* `Source.fill_of_clear` — a demand is met as long as no refusal lies on the way;
  `Source.fill_of_steady` is the case of a source that has none.
* `Source.next_of_fill` — whatever comes of a demand are the next bytes.
* `Source.fill_of_fault` — a demand that a refusal lies within is refused.
-/

set_option autoImplicit false

namespace Screening

namespace Source

/-- A source that never refuses a read and hands out something at every read until it ends.  How
much it hands out at a time and how often it interrupts are left open. -/
structure Steady (s : Source) : Prop where
  /-- Every read may get something. -/
  chunk : ∀ offset, s.chunk offset ≠ some 0
  /-- No read is refused. -/
  fault : s.fault = none

/-- The next `n` bytes have been handed out; the manner of delivery is the same, up to
interruptions that are over. -/
structure Advanced (s : Source) (n : Nat) (s' : Source) : Prop where
  /-- There were that many bytes. -/
  le : n ≤ s.pending.length
  /-- They are no longer pending. -/
  pending : s'.pending = s.pending.drop n
  /-- They are counted. -/
  taken : s'.taken = s.taken + n
  /-- The pace is kept. -/
  chunk : s'.chunk = s.chunk
  /-- The refusal is kept. -/
  fault : s'.fault = s.fault

/-- No refusal comes before `want` bytes have been handed out, or the source has ended. -/
def Clear (s : Source) (want : Nat) : Prop :=
  ∀ offset cause, s.fault = some (offset, cause) →
    s.taken + min want (s.pending.length + 1) ≤ offset

/-! ## Advancing -/

theorem Advanced.refl (s : Source) : s.Advanced 0 s :=
  ⟨Nat.zero_le _, rfl, rfl, rfl, rfl⟩

theorem Advanced.trans {s s' s'' : Source} {m n : Nat} (h : s.Advanced m s')
    (h' : s'.Advanced n s'') : s.Advanced (m + n) s'' where
  le := by
    have hle := h'.le
    rw [h.pending, List.length_drop] at hle
    have := h.le
    omega
  pending := by rw [h'.pending, h.pending, List.drop_drop]
  taken := by rw [h'.taken, h.taken, Nat.add_assoc]
  chunk := h'.chunk.trans h.chunk
  fault := h'.fault.trans h.fault

theorem Advanced.steady {s s' : Source} {n : Nat} (h : s.Advanced n s') (hs : s.Steady) :
    s'.Steady :=
  ⟨h.chunk ▸ hs.chunk, h.fault.trans hs.fault⟩

theorem steady_ofBytes (bytes : List UInt8) : (ofBytes bytes).Steady :=
  ⟨fun _ => nofun, rfl⟩

theorem Advanced.length_pending {s s' : Source} {n : Nat} (h : s.Advanced n s') :
    s'.pending.length = s.pending.length - n := by
  rw [h.pending, List.length_drop]

theorem Steady.clear {s : Source} (h : s.Steady) (want : Nat) : s.Clear want := by
  intro offset cause hf
  rw [h.fault] at hf
  cases hf

/-- What was clear stays clear for the rest of the demand. -/
theorem Clear.advance {s s' : Source} {want n : Nat} (h : s.Clear want) (hs : s.Advanced n s')
    (hn : n ≤ want) : s'.Clear (want - n) := by
  intro offset cause hf
  have hle := h offset cause (hs.fault ▸ hf)
  have := hs.le
  rw [hs.taken, hs.length_pending]
  omega

/-! ## One request -/

theorem le_foldl_min {stops : List Nat} {taken start n : Nat} (hn : n ≤ start)
    (h : ∀ stop ∈ stops, n ≤ stop - taken) :
    n ≤ stops.foldl (fun n stop => Nat.min n (stop - taken)) start := by
  induction stops generalizing start with
  | nil => exact hn
  | cons stop rest ih =>
    refine ih (Nat.le_min.2 ⟨hn, h stop (List.mem_cons_self ..)⟩) fun other hmem => ?_
    exact h other (List.mem_cons_of_mem _ hmem)

/-- A request that asks for something may get something. -/
theorem reach_pos {s : Source} {want : Nat} (hc : ∀ offset, s.chunk offset ≠ some 0)
    (hw : 0 < want) : 0 < s.reach want := by
  refine le_foldl_min ?_ fun stop hmem => ?_
  · refine Nat.le_min.2 ⟨hw, ?_⟩
    cases h : s.chunk s.taken with
    | none => exact hw
    | some bound => exact Nat.pos_of_ne_zero fun (h0 : bound = 0) => hc _ (h0 ▸ h)
  · have := (List.mem_filter.1 hmem).2
    simp only [decide_eq_true_eq] at this
    omega

theorem faultHere_eq_none_of_clear {s : Source} {want : Nat} (h : s.Clear want) (hw : 0 < want) :
    s.faultHere = none := by
  rw [faultHere]
  split
  · rename_i offset cause hf
    have := h offset cause hf
    rw [if_neg (by omega)]
  · rfl

/-- An interruption leaves everything as it was, itself apart. -/
theorem advanced_of_read_interrupted {s s' : Source} {want : Nat}
    (h : s.read want = (.interrupted, s')) : s.Advanced 0 s' := by
  unfold read at h
  split at h
  · cases h
    exact ⟨Nat.zero_le _, rfl, rfl, rfl, rfl⟩
  · split at h <;> simp at h

theorem faultHere_of_read_refused {s s' : Source} {want : Nat} {cause : IoError}
    (h : s.read want = (.refused cause, s')) : s.faultHere = some cause := by
  unfold read at h
  split at h
  · simp at h
  · split at h
    · rename_i hf
      cases h
      exact hf
    · simp at h

/-- What a request gets are the next bytes. -/
theorem next_of_read_bytes {s s' : Source} {want : Nat} {bytes : List UInt8}
    (h : s.read want = (.bytes bytes, s')) :
    bytes = s.pending.take bytes.length ∧ s.Advanced bytes.length s' := by
  unfold read at h
  split at h
  · simp at h
  · split at h
    · simp at h
    · cases h
      have hlen : (s.pending.take (s.reach want)).length = min (s.reach want) s.pending.length :=
        List.length_take
      refine ⟨?_, ⟨?_, rfl, rfl, rfl, rfl⟩⟩
      · rw [hlen, ← List.take_eq_take_min]
      · rw [hlen]
        exact Nat.min_le_right _ _

/-- A request that gets the next bytes gets none of them only where the source has ended. -/
theorem advanced_of_read_bytes {s s' : Source} {want : Nat} {bytes : List UInt8}
    (hc : ∀ offset, s.chunk offset ≠ some 0) (hw : 0 < want) (h : s.read want = (.bytes bytes, s')) :
    bytes = s.pending.take bytes.length ∧ s.Advanced bytes.length s' ∧
      (bytes = [] → s.pending = []) := by
  obtain ⟨hbytes, adv⟩ := next_of_read_bytes h
  refine ⟨hbytes, adv, fun hnil => ?_⟩
  unfold read at h
  split at h
  · simp at h
  · split at h
    · simp at h
    · cases h
      have hpos := reach_pos hc hw
      rw [List.take_eq_nil_iff] at hnil
      exact hnil.resolve_left (Nat.ne_of_gt hpos)

/-! ## A demand -/

/-- **A demand is met**: where no refusal lies on the way, the next `want` bytes come, or all that
are left. -/
theorem fill_of_clear {s : Source} {want : Nat} (hc : ∀ offset, s.chunk offset ≠ some 0)
    (h : s.Clear want) : ∃ s', s.fill want = (.ok (s.pending.take want), s') ∧
      s.Advanced (min want s.pending.length) s' := by
  -- The induction follows the requests; each of them leaves a smaller demand on a source that has
  -- advanced by what it got.
  fun_induction fill s want with
  | case1 s => exact ⟨s, rfl, by rw [Nat.zero_min]; exact Advanced.refl s⟩
  | case2 s want hw s₁ hr ih =>
    have adv := advanced_of_read_interrupted hr
    obtain ⟨s₂, hfill, adv'⟩ := ih (adv.chunk ▸ hc) (by simpa using h.advance adv (Nat.zero_le _))
    rw [adv.pending, List.drop_zero] at hfill adv'
    exact ⟨s₂, hfill, by simpa using adv.trans adv'⟩
  | case3 s want hw cause s₁ hr =>
    have hf := faultHere_of_read_refused hr
    rw [faultHere_eq_none_of_clear h (Nat.pos_of_ne_zero hw)] at hf
    cases hf
  | case4 s want hw s₁ hr =>
    obtain ⟨-, adv, hend⟩ := advanced_of_read_bytes hc (Nat.pos_of_ne_zero hw) hr
    rw [hend rfl]
    exact ⟨s₁, by rw [List.take_nil], by simpa using adv⟩
  | case5 s want hw byte bytes s₁ hr rest s₂ hrest ih =>
    obtain ⟨hbytes, adv, -⟩ := advanced_of_read_bytes hc (Nat.pos_of_ne_zero hw) hr
    have hle := (length_of_read_bytes hr).1
    obtain ⟨s₃, hfill, adv'⟩ := ih (adv.chunk ▸ hc) (h.advance adv hle)
    rw [hrest] at hfill
    cases hfill
    generalize byte :: bytes = got at *
    have hwant : want = got.length + (want - got.length) := by omega
    refine ⟨s₂, ?_, ?_⟩
    · have hsplit : s.pending.take want = got ++ s₁.pending.take (want - got.length) := by
        rw [hwant, List.take_add, ← hbytes, ← adv.pending, ← hwant]
      rw [hsplit]
    · have hcount : min want s.pending.length =
          got.length + min (want - got.length) s₁.pending.length := by
        have := adv.le
        rw [adv.length_pending]
        omega
      rw [hcount]
      exact adv.trans adv'
  | case6 s want hw byte bytes s₁ hr cause s₂ hrest ih =>
    obtain ⟨-, adv, -⟩ := advanced_of_read_bytes hc (Nat.pos_of_ne_zero hw) hr
    obtain ⟨s₃, hfill, -⟩ := ih (adv.chunk ▸ hc) (h.advance adv (length_of_read_bytes hr).1)
    rw [hrest] at hfill
    cases hfill

theorem fill_of_steady {s : Source} (h : s.Steady) (want : Nat) :
    ∃ s', s.fill want = (.ok (s.pending.take want), s') ∧
      s.Advanced (min want s.pending.length) s' :=
  fill_of_clear h.chunk (h.clear want)

/-- **What comes of a demand are the next bytes**, and they are gone from the source, whatever way
it has of delivering them. -/
theorem next_of_fill {s s' : Source} {want : Nat} {bytes : List UInt8}
    (h : s.fill want = (.ok bytes, s')) :
    bytes.length ≤ want ∧ bytes <+: s.pending ∧ s.Advanced bytes.length s' := by
  -- Along the requests again; here nothing is known but that the demand was met.
  fun_induction fill s want generalizing bytes s' with
  | case1 s =>
    cases h
    exact ⟨Nat.zero_le _, List.nil_prefix, Advanced.refl s⟩
  | case2 s want hw s₁ hr ih =>
    have adv := advanced_of_read_interrupted hr
    obtain ⟨hle, hfront, adv'⟩ := ih h
    rw [adv.pending, List.drop_zero] at hfront
    exact ⟨hle, hfront, by simpa using adv.trans adv'⟩
  | case3 s want hw cause s₁ hr => cases h
  | case4 s want hw s₁ hr =>
    cases h
    exact ⟨Nat.zero_le _, List.nil_prefix, (next_of_read_bytes hr).2⟩
  | case5 s want hw byte bytes s₁ hr rest s₂ hrest ih =>
    obtain ⟨hfirst, adv⟩ := next_of_read_bytes hr
    have hle := (length_of_read_bytes hr).1
    obtain ⟨hle', ⟨later, hlater⟩, adv'⟩ := ih hrest
    cases h
    generalize byte :: bytes = got at *
    have hsplit : got ++ s.pending.drop got.length = s.pending :=
      List.prefix_iff_eq_append.1 (List.prefix_iff_eq_take.2 hfirst)
    rw [adv.pending] at hlater
    rw [List.length_append]
    refine ⟨by omega, ⟨later, ?_⟩, adv.trans adv'⟩
    rw [List.append_assoc, hlater, hsplit]
  | case6 s want hw byte bytes s₁ hr cause s₂ hrest ih => cases h

/-! ## A demand that is refused

A source that refuses from some offset on hands out the bytes before that offset like any other, and
no request reaches past it.  So a demand that goes beyond the offset is always refused, and always
with the same bytes gone. -/

theorem Advanced.total {s s' : Source} {n : Nat} (h : s.Advanced n s') :
    s'.taken + s'.pending.length = s.taken + s.pending.length := by
  have := h.le
  rw [h.taken, h.length_pending]
  omega

theorem fault_of_faultHere {s : Source} {cause : IoError} (h : s.faultHere = some cause) :
    ∃ offset, s.fault = some (offset, cause) ∧ offset ≤ s.taken := by
  rw [faultHere] at h
  split at h
  · rename_i offset other hf
    split at h
    · cases h
      exact ⟨offset, hf, by assumption⟩
    · cases h
  · cases h

theorem foldl_min_le_of_mem {stops : List Nat} {taken start stop : Nat} (h : stop ∈ stops) :
    stops.foldl (fun n stop => Nat.min n (stop - taken)) start ≤ stop - taken := by
  induction stops generalizing start with
  | nil => cases h
  | cons other rest ih =>
    rw [List.foldl_cons]
    rcases List.mem_cons.1 h with rfl | hrest
    · exact Nat.le_trans (foldl_min_le _ _ _) (Nat.min_le_right _ _)
    · exact ih hrest

/-- No request reaches past the offset of a refusal. -/
theorem reach_le_fault {s : Source} {offset : Nat} {cause : IoError}
    (hf : s.fault = some (offset, cause)) (h : s.taken < offset) (want : Nat) :
    s.reach want ≤ offset - s.taken := by
  refine foldl_min_le_of_mem (List.mem_filter.2 ⟨?_, by simpa using h⟩)
  simp [stops, hf]

theorem eq_of_read_refused {s s' : Source} {want : Nat} {cause : IoError}
    (h : s.read want = (.refused cause, s')) : s' = s := by
  unfold read at h
  split at h
  · simp at h
  · split at h
    · cases h
      rfl
    · simp at h

/-- What a request gets lies before the offset of a refusal. -/
theorem taken_lt_fault_of_read_bytes {s s' : Source} {want offset : Nat} {bytes : List UInt8}
    {cause : IoError} (hf : s.fault = some (offset, cause))
    (h : s.read want = (.bytes bytes, s')) :
    s.taken < offset ∧ s.taken + bytes.length ≤ offset := by
  unfold read at h
  split at h
  · simp at h
  · split at h
    · simp at h
    · rename_i hnone
      cases h
      have hlt : s.taken < offset := by
        rw [faultHere, hf] at hnone
        dsimp only at hnone
        split at hnone
        · cases hnone
        · omega
      have := reach_le_fault hf hlt want
      rw [List.length_take]
      omega

/-- **A demand that a refusal lies within is refused**, and the bytes up to the refusal are gone. -/
theorem fill_of_fault {s : Source} {want offset : Nat} {cause : IoError}
    (hc : ∀ place, s.chunk place ≠ some 0) (hf : s.fault = some (offset, cause))
    (hle : s.taken ≤ offset) (hlt : offset < s.taken + min want (s.pending.length + 1)) :
    ∃ s', s.fill want = (.error cause, s') ∧ s.Advanced (offset - s.taken) s' := by
  -- As for a demand that is met: the offset keeps lying ahead and within the demand that is left.
  fun_induction fill s want with
  | case1 s => omega
  | case2 s want hw s₁ hr ih =>
    have adv := advanced_of_read_interrupted hr
    have hlen := adv.length_pending
    have htaken : s₁.taken = s.taken := adv.taken
    obtain ⟨s₂, hfill, adv'⟩ :=
      ih (adv.chunk ▸ hc) (adv.fault.trans hf) (by omega) (by omega)
    rw [htaken] at adv'
    exact ⟨s₂, hfill, by simpa using adv.trans adv'⟩
  | case3 s want hw cause' s₁ hr =>
    obtain ⟨offset', hf', hle'⟩ := fault_of_faultHere (faultHere_of_read_refused hr)
    rw [hf] at hf'
    cases hf'
    obtain rfl := eq_of_read_refused hr
    have hhere : offset - s₁.taken = 0 := by omega
    exact ⟨s₁, rfl, hhere ▸ Advanced.refl s₁⟩
  | case4 s want hw s₁ hr =>
    obtain ⟨-, -, hend⟩ := advanced_of_read_bytes hc (Nat.pos_of_ne_zero hw) hr
    have := (taken_lt_fault_of_read_bytes hf hr).1
    rw [hend rfl, List.length_nil] at hlt
    omega
  | case5 s want hw byte bytes s₁ hr rest s₂ hrest ih =>
    obtain ⟨-, adv, -⟩ := advanced_of_read_bytes hc (Nat.pos_of_ne_zero hw) hr
    have hbefore := (taken_lt_fault_of_read_bytes hf hr).2
    have htaken := adv.taken
    have hlen := adv.length_pending
    have hwithin := adv.le
    obtain ⟨s₃, hfill, -⟩ := ih (adv.chunk ▸ hc) (adv.fault.trans hf) (by omega) (by omega)
    rw [hrest] at hfill
    cases hfill
  | case6 s want hw byte bytes s₁ hr cause' s₂ hrest ih =>
    obtain ⟨-, adv, -⟩ := advanced_of_read_bytes hc (Nat.pos_of_ne_zero hw) hr
    have hbefore := (taken_lt_fault_of_read_bytes hf hr).2
    have htaken := adv.taken
    have hlen := adv.length_pending
    have hwithin := adv.le
    obtain ⟨s₃, hfill, adv'⟩ := ih (adv.chunk ▸ hc) (adv.fault.trans hf) (by omega) (by omega)
    rw [hrest] at hfill
    cases hfill
    have hsum : (byte :: bytes).length + (offset - s₁.taken) = offset - s.taken := by omega
    exact ⟨s₂, rfl, hsum ▸ adv.trans adv'⟩

end Source

end Screening
