import Screening.Error
import Screening.LittleEndian

/-!
# Frames

A record lies in its file between two copies of its length.

* `marker n` — a length as four bytes, and `markerLength` back.
* `frame payload` — the bytes of a whole record.
* `span n` — how many bytes a record with a payload of `n` bytes takes (`length_frame`).
* `checkMarkers` — the two copies have to agree; nothing else in a file guards against damage.
-/

set_option autoImplicit false

namespace Screening

/-- Bytes of one marker. -/
def markerSize : Nat := 4

/-- A length as the bytes of a marker. -/
def marker (length : Nat) : List UInt8 := LittleEndian.toBytes markerSize length

/-- The length that the bytes of a marker spell. -/
def markerLength (bytes : List UInt8) : Nat := LittleEndian.toNat bytes

/-- The bytes of a record: its length, its payload, its length again. -/
def frame (payload : List UInt8) : List UInt8 :=
  marker payload.length ++ payload ++ marker payload.length

/-- Bytes that a record takes in its file. -/
def span (payloadLength : Nat) : Nat := payloadLength + 2 * markerSize

/-- Refuses a trailing marker that differs from the leading one. -/
def checkMarkers (record leading trailing : Nat) : Except FormatError Unit :=
  if leading = trailing then .ok () else .error (.recordSizeMismatch record leading trailing)

@[simp] theorem length_marker (n : Nat) : (marker n).length = markerSize :=
  LittleEndian.length_toBytes markerSize n

theorem markerLength_marker {n : Nat} (h : n < UInt32.size) : markerLength (marker n) = n :=
  LittleEndian.toNat_toBytes h

theorem markerLength_lt {bytes : List UInt8} (h : bytes.length = markerSize) :
    markerLength bytes < UInt32.size := by
  have := LittleEndian.toNat_lt bytes
  rw [h] at this
  exact this

@[simp] theorem length_frame (payload : List UInt8) :
    (frame payload).length = span payload.length := by
  simp only [frame, span, List.length_append, length_marker]
  omega

end Screening
