import Screening.Error

/-!
# Sources of bytes

A source hands out its bytes as it likes: at its own `Pace`, with interruptions at some offsets, and
with a refusal at every read from some offset on.  `fill` is what a reader makes of that: it asks
until it has as many bytes as it wants, or until the source ends or refuses.

* `Pace` — how many bytes a source hands out at a time.
* `Source.read` — one request.
* `Source.fill` — requests until enough, the interrupted ones repeated.

A read never crosses an offset at which the source will interrupt or refuse, so that whatever
happens there happens exactly there.
-/

set_option autoImplicit false

namespace Screening

/-- The most bytes handed out at a time, if there is a bound, by the offset of the first of them. -/
def Pace := Nat → Option Nat

/-- The same bound everywhere. -/
instance : Coe (Option Nat) Pace := ⟨fun bound _ => bound⟩

/-- A source of bytes and its manner of delivery. -/
structure Source where
  /-- The bytes not handed out yet. -/
  pending : List UInt8
  /-- How many bytes have been handed out. -/
  taken : Nat
  /-- The most bytes handed out at a time. -/
  chunk : Pace
  /-- Offsets at which a read is interrupted, once for each mention. -/
  interrupts : List Nat
  /-- An offset from which every read is refused, and how. -/
  fault : Option (Nat × IoError)

/-- What one request to a source gives. -/
inductive Delivery where
  /-- The next bytes; none of them if the source has ended. -/
  | bytes (bytes : List UInt8)
  /-- Nothing yet: the request is to be repeated. -/
  | interrupted
  /-- A refusal. -/
  | refused (cause : IoError)
  deriving DecidableEq, Repr

namespace Source

/-- A source that hands out all that is asked for and never interrupts or refuses. -/
def ofBytes (bytes : List UInt8) : Source := ⟨bytes, 0, (none : Option Nat), [], none⟩

/-- A source that refuses every read. -/
def refusing (cause : IoError) : Source := ⟨[], 0, (none : Option Nat), [], some (0, cause)⟩

/-- The offsets at which the delivery pauses. -/
def stops (s : Source) : List Nat := s.interrupts ++ (s.fault.map Prod.fst).toList

/-- The most bytes that one request may get: those asked for, cut to the pace and to the next offset
at which the delivery pauses. -/
def reach (s : Source) (want : Nat) : Nat :=
  let ahead := s.stops.filter (s.taken < ·)
  ahead.foldl (fun n stop => Nat.min n (stop - s.taken)) (Nat.min want ((s.chunk s.taken).getD want))

/-- The refusal that the source answers with where it stands, if any. -/
def faultHere (s : Source) : Option IoError :=
  match s.fault with
  | some (offset, cause) => if offset ≤ s.taken then some cause else none
  | none => none

/-- The source after its next bytes have been handed out. -/
def advance (s : Source) (bytes : List UInt8) : Source :=
  { s with pending := s.pending.drop bytes.length, taken := s.taken + bytes.length }

/-- One request for up to `want` bytes. -/
def read (s : Source) (want : Nat) : Delivery × Source :=
  if s.taken ∈ s.interrupts then
    (.interrupted, { s with interrupts := s.interrupts.erase s.taken })
  else
    match s.faultHere with
    | some cause => (.refused cause, s)
    | none =>
      let bytes := s.pending.take (s.reach want)
      (.bytes bytes, s.advance bytes)

/-! ## What a request leaves -/

theorem foldl_min_le (stops : List Nat) (taken start : Nat) :
    stops.foldl (fun n stop => Nat.min n (stop - taken)) start ≤ start := by
  induction stops generalizing start with
  | nil => exact Nat.le_refl start
  | cons stop rest ih => exact Nat.le_trans (ih _) (Nat.min_le_left _ _)

theorem reach_le (s : Source) (want : Nat) : s.reach want ≤ want :=
  Nat.le_trans (foldl_min_le _ _ _) (Nat.min_le_left _ _)

/-- An interruption happens only once for each mention. -/
theorem interrupts_of_read_interrupted {s s' : Source} {want : Nat}
    (h : s.read want = (.interrupted, s')) : s'.interrupts.length < s.interrupts.length := by
  unfold read at h
  split at h
  · rename_i mem
    cases h
    have := List.length_pos_of_mem mem
    rw [List.length_erase_of_mem mem]
    omega
  · split at h <;> simp at h

/-- A request gives no more than was asked for and keeps the interruptions to come. -/
theorem length_of_read_bytes {s s' : Source} {want : Nat} {bytes : List UInt8}
    (h : s.read want = (.bytes bytes, s')) :
    bytes.length ≤ want ∧ s'.interrupts = s.interrupts := by
  unfold read at h
  split at h
  · simp at h
  · split at h
    · simp at h
    · cases h
      refine ⟨?_, rfl⟩
      rw [List.length_take]
      exact Nat.le_trans (Nat.min_le_left _ _) (s.reach_le want)

/-! ## Filling a demand -/

/-- Requests bytes until `want` of them have come, the source ends or a read is refused.  Bytes
that came before a refusal are lost. -/
def fill (s : Source) (want : Nat) : Except IoError (List UInt8) × Source :=
  if want = 0 then
    (.ok [], s)
  else
    match _h : s.read want with
    | (.interrupted, s') => fill s' want
    | (.refused cause, s') => (.error cause, s')
    | (.bytes [], s') => (.ok [], s')
    | (.bytes (byte :: bytes), s') =>
      match fill s' (want - (byte :: bytes).length) with
      | (.ok rest, s'') => (.ok (byte :: bytes ++ rest), s'')
      | (.error cause, s'') => (.error cause, s'')
termination_by s.interrupts.length + want
decreasing_by
  · have := interrupts_of_read_interrupted _h
    omega
  · have := length_of_read_bytes _h
    simp only [List.length_cons] at *
    rw [this.2]
    omega

end Source

end Screening
