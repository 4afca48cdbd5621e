import Screening.Element

/-!
# The elements of a payload

* `decodeElements_eq` — a payload is read under a type exactly if the size of an element divides its
  length.
* `getElem?_elementsOf` — an element is read from its own bytes, at its own place.
* `TypedPayload.ofBytes_error` — the only thing that can go wrong with a type chosen at run time.
-/

set_option autoImplicit false

namespace Screening

variable {α : Type} [Element α]

theorem elementCount_eq (record length : Nat) {size : Nat} (h : 0 < size) :
    elementCount record length size =
      if length % size = 0 then .ok (length / size)
      else .error (.malformedPayloadSize record length size) := by
  rw [elementCount]
  by_cases hmod : length % size = 0
  · rw [if_neg (by omega), if_pos hmod]
  · rw [if_pos (Or.inr hmod), if_neg hmod]

theorem decodeElements_eq (record : Nat) (payload : List UInt8) :
    decodeElements α record payload =
      if payload.length % Element.size α = 0 then
        .ok (elementsOf α (payload.length / Element.size α) payload)
      else .error (.malformedPayloadSize record payload.length (Element.size α)) := by
  rw [decodeElements, elementCount_eq record payload.length (Element.size_pos α)]
  split <;> rfl

theorem getElem?_elementsOf (count : Nat) (bytes : List UInt8) (k : Nat) :
    (elementsOf α count bytes)[k]? =
      if k < count then
        some (Element.decode ((bytes.drop (k * Element.size α)).take (Element.size α)))
      else none := by
  induction count generalizing bytes k with
  | zero => rfl
  | succ count ih =>
    cases k with
    | zero => rw [Nat.zero_mul, List.drop_zero, if_pos (Nat.succ_pos count)]; rfl
    | succ k =>
      rw [elementsOf, List.getElem?_cons_succ, ih, List.drop_drop, Nat.succ_mul,
        Nat.add_comm (Element.size α)]
      simp only [Nat.add_lt_add_iff_right]

/-- The only thing that can be wrong with a payload is that it does not hold whole elements. -/
theorem TypedPayload.ofBytes_error {record : Nat} {payload : List UInt8}
    {type : Option ElementType} {cause : FormatError}
    (h : TypedPayload.ofBytes record payload type = .error cause) :
    ∃ size, cause = .malformedPayloadSize record payload.length size := by
  cases type with
  | none => cases h
  | some type =>
    cases type
    all_goals
      rw [ofBytes, decodeElements_eq] at h
      split at h
      · cases h
      · cases h
        exact ⟨_, rfl⟩

end Screening
