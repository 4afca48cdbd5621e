import Screening.Frame

/-!
# What bytes turn out to be a record

`framing` says what lies at the front of some bytes where a record should begin: nothing, a whole
record, or something that is not a record and why.  It is the second side of every statement about
reading records, and knows nothing of sources and readers.

* `framing_eq_whole_iff` — a whole record is found exactly where a frame lies.
* `frame_append_inj` — frames are self-delimiting: what follows them plays no part.
* `extent` — how far one has to look to know.
-/

set_option autoImplicit false

namespace Screening

/-- What the bytes where a record should begin turn out to be. -/
inductive Framing where
  /-- There are none. -/
  | ended
  /-- They are not those of a record. -/
  | broken (cause : FormatError)
  /-- A record with this payload, and whatever follows it. -/
  | whole (payload : List UInt8)
  deriving DecidableEq

namespace Framing

/-- How many records were found. -/
def count : Framing → Nat
  | whole _ => 1
  | _ => 0

end Framing

/-- The length that the first marker of some bytes announces. -/
def announced (bytes : List UInt8) : Nat := markerLength (bytes.take markerSize)

/-- The payload at the front of what follows a leading marker, or why there is none: too few bytes
for the payload or for the trailing marker, or a marker that differs. -/
def framingBody (record length : Nat) (body : List UInt8) : Except FormatError (List UInt8) :=
  let tail := body.drop length
  if body.length < length then
    .error (.truncatedRecord record length body.length)
  else if tail.length < markerSize then
    .error (.truncatedRecord record markerSize tail.length)
  else if announced tail = length then
    .ok (body.take length)
  else
    .error (.recordSizeMismatch record length (announced tail))

/-- What some bytes turn out to be, tested from the front.  The number of the record only labels
the failure. -/
def framing (record : Nat) (bytes : List UInt8) : Framing :=
  if bytes = [] then
    .ended
  else if bytes.length < markerSize then
    .broken (.truncatedRecord record markerSize bytes.length)
  else
    match framingBody record (announced bytes) (bytes.drop markerSize) with
    | .ok payload => .whole payload
    | .error cause => .broken cause

/-- How many bytes a record takes that begins with the given ones, or how many there are if they
are fewer. -/
def extent (bytes : List UInt8) : Nat := min bytes.length (span (announced bytes))

/-! ## Frames among other bytes -/

theorem announced_lt {bytes : List UInt8} (h : markerSize ≤ bytes.length) :
    announced bytes < UInt32.size :=
  markerLength_lt (by rw [List.length_take, Nat.min_eq_left h])

theorem announced_marker_append {n : Nat} (h : n < UInt32.size) (rest : List UInt8) :
    announced (marker n ++ rest) = n := by
  rw [announced, List.take_left' (length_marker n), markerLength_marker h]

/-- The first marker of some bytes is the marker of the length that it announces. -/
theorem marker_announced {bytes : List UInt8} (h : markerSize ≤ bytes.length) :
    marker (announced bytes) = bytes.take markerSize := by
  have hlen : (bytes.take markerSize).length = markerSize := by
    rw [List.length_take, Nat.min_eq_left h]
  have := LittleEndian.toBytes_toNat (bytes.take markerSize)
  rwa [hlen] at this

theorem frame_append (payload rest : List UInt8) :
    frame payload ++ rest =
      marker payload.length ++ (payload ++ (marker payload.length ++ rest)) := by
  simp only [frame, List.append_assoc]

theorem framingBody_append {payload : List UInt8} (h : payload.length < UInt32.size)
    (record : Nat) (rest : List UInt8) :
    framingBody record payload.length (payload ++ (marker payload.length ++ rest)) =
      .ok payload := by
  simp only [framingBody, List.drop_left]
  rw [if_neg (by simp), if_neg (by simp), if_pos (announced_marker_append h rest), List.take_left]

/-- What is taken for a body is a payload with its marker, byte for byte. -/
theorem eq_of_framingBody {record length : Nat} {body payload : List UInt8}
    (h : framingBody record length body = .ok payload) :
    payload.length = length ∧
      body = payload ++ (marker length ++ body.drop (length + markerSize)) := by
  simp only [framingBody] at h
  repeat' split at h
  all_goals cases h
  · rename_i hbody htail hsame
    have htrail := marker_announced (Nat.le_of_not_lt htail)
    rw [hsame] at htrail
    refine ⟨by rw [List.length_take]; omega, ?_⟩
    rw [htrail, ← List.drop_drop, List.take_append_drop, List.take_append_drop]

/-- A frame is seen whatever follows it. -/
theorem framing_frame_append {payload : List UInt8} (h : payload.length < UInt32.size)
    (record : Nat) (rest : List UInt8) : framing record (frame payload ++ rest) = .whole payload := by
  have hlen : markerSize ≤ (frame payload ++ rest).length := by
    rw [List.length_append, length_frame, span]
    omega
  have hne : frame payload ++ rest ≠ [] := by
    rw [← List.length_pos_iff]
    exact Nat.lt_of_lt_of_le (by decide) hlen
  rw [framing, if_neg hne, if_neg (Nat.not_lt.2 hlen), frame_append, announced_marker_append h,
    List.drop_left' (length_marker _), framingBody_append h]

/-- Behind a whole payload everything hangs on what follows it: too few bytes for a marker, the same
marker again, or another one. -/
theorem framing_payload_append {payload : List UInt8} (h : payload.length < UInt32.size)
    (record : Nat) (tail : List UInt8) :
    framing record (marker payload.length ++ (payload ++ tail)) =
      if tail.length < markerSize then
        .broken (.truncatedRecord record markerSize tail.length)
      else if announced tail = payload.length then
        .whole payload
      else
        .broken (.recordSizeMismatch record payload.length (announced tail)) := by
  have hlen : markerSize ≤ (marker payload.length ++ (payload ++ tail)).length := by
    rw [List.length_append, length_marker]
    omega
  have hne : marker payload.length ++ (payload ++ tail) ≠ [] := by
    rw [← List.length_pos_iff]
    exact Nat.lt_of_lt_of_le (by decide) hlen
  rw [framing, if_neg hne, if_neg (Nat.not_lt.2 hlen), announced_marker_append h,
    List.drop_left' (length_marker _)]
  simp only [framingBody, List.drop_left, List.take_left]
  rw [if_neg (by simp)]
  by_cases htail : tail.length < markerSize
  · rw [if_pos htail, if_pos htail]
  by_cases hsame : announced tail = payload.length
  · rw [if_neg htail, if_neg htail, if_pos hsame, if_pos hsame]
  · rw [if_neg htail, if_neg htail, if_neg hsame, if_neg hsame]

/-- What is taken for a record is a frame, byte for byte. -/
theorem eq_of_framing_whole {record : Nat} {bytes payload : List UInt8}
    (h : framing record bytes = .whole payload) :
    payload.length < UInt32.size ∧ bytes = frame payload ++ bytes.drop (span payload.length) := by
  simp only [framing] at h
  repeat' split at h
  all_goals cases h
  · rename_i hmarker _ hbody
    have hlen := Nat.le_of_not_lt hmarker
    obtain ⟨hsize, heq⟩ := eq_of_framingBody hbody
    have hrest : bytes.drop (span payload.length) =
        (bytes.drop markerSize).drop (announced bytes + markerSize) := by
      rw [List.drop_drop, span, hsize]
      congr 1
      omega
    refine ⟨hsize ▸ announced_lt hlen, ?_⟩
    rw [frame_append, hrest, hsize, ← heq, marker_announced hlen, List.take_append_drop]

theorem framing_eq_whole_iff {record : Nat} {bytes payload : List UInt8} :
    framing record bytes = .whole payload ↔
      payload.length < UInt32.size ∧ frame payload <+: bytes := by
  constructor
  · intro h
    obtain ⟨hlt, heq⟩ := eq_of_framing_whole h
    exact ⟨hlt, _, heq.symm⟩
  · rintro ⟨hlt, rest, rfl⟩
    exact framing_frame_append hlt record rest

theorem framing_eq_ended_iff {record : Nat} {bytes : List UInt8} :
    framing record bytes = .ended ↔ bytes = [] := by
  constructor
  · intro h
    simp only [framing] at h
    repeat' split at h
    · assumption
    all_goals cases h
  · rintro rfl
    rfl

/-- Where no record lies, the bytes run out or the markers differ. -/
theorem cause_of_framing_broken {record : Nat} {bytes : List UInt8} {cause : FormatError}
    (h : framing record bytes = .broken cause) :
    (∃ expected available, cause = .truncatedRecord record expected available) ∨
      ∃ leading trailing, cause = .recordSizeMismatch record leading trailing := by
  simp only [framing, framingBody] at h
  repeat' split at h
  all_goals cases h
  · exact Or.inl ⟨_, _, rfl⟩
  · rename_i hbody
    repeat' split at hbody
    all_goals cases hbody
    · exact Or.inl ⟨_, _, rfl⟩
    · exact Or.inl ⟨_, _, rfl⟩
    · exact Or.inr ⟨_, _, rfl⟩

/-- Frames are self-delimiting. -/
theorem frame_append_inj {first second rest rest' : List UInt8} (hf : first.length < UInt32.size)
    (hs : second.length < UInt32.size) (h : frame first ++ rest = frame second ++ rest') :
    first = second ∧ rest = rest' := by
  have hw := framing_frame_append hf 0 rest
  rw [h, framing_frame_append hs 0 rest'] at hw
  cases hw
  exact ⟨rfl, List.append_cancel_left h⟩

theorem extent_frame_append {payload : List UInt8} (h : payload.length < UInt32.size)
    (rest : List UInt8) : extent (frame payload ++ rest) = span payload.length := by
  have hlen : announced (frame payload ++ rest) = payload.length := by
    rw [frame_append, announced_marker_append h]
  rw [extent, hlen, List.length_append, length_frame]
  omega

end Screening
