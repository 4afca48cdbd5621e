import Screening.ElementType

/-!
# The five records of a file

A file carries no schema.  What a record means follows from its position alone, and this module is
that knowledge: the order of the records, the element type of each, and the names they go by.
-/

set_option autoImplicit false

namespace Screening

/-- The role of a record, in the order of the records in a file. -/
inductive RecordKind where
  /-- The sizes of the basis sets. -/
  | dimensions
  /-- Eighteen values of metadata. -/
  | header
  /-- The wing matrix. -/
  | wing
  /-- The conjugate wing matrix. -/
  | cwing
  /-- The response matrix. -/
  | response
  deriving DecidableEq, Repr

namespace RecordKind

/-- The records in the order in which a file holds them. -/
def sequence : List RecordKind := [dimensions, header, wing, cwing, response]

/-- The position of a record in the file, counted from one. -/
def index : RecordKind → Nat
  | dimensions => 1
  | header => 2
  | wing => 3
  | cwing => 4
  | response => 5

/-- The role of the record at a position counted from one; past the fifth there is none. -/
def atIndex? : Nat → Option RecordKind
  | 0 => none
  | position + 1 => sequence[position]?

/-- The type laid over the payload. -/
def elementType : RecordKind → ElementType
  | dimensions => .int32
  | header => .float64
  | wing => .complex128
  | cwing => .complex128
  | response => .complex128

/-- The name used in logs and listings. -/
def name : RecordKind → String
  | dimensions => "dimensions"
  | header => "header"
  | wing => "WING"
  | cwing => "CWING"
  | response => "response"

theorem atIndex?_index (kind : RecordKind) : atIndex? kind.index = some kind := by
  cases kind <;> rfl

theorem atIndex?_eq_some_iff (position : Nat) (kind : RecordKind) :
    atIndex? position = some kind ↔ position = kind.index := by
  constructor
  · intro h
    match position with
    | 0 => simp [atIndex?] at h
    | 1 | 2 | 3 | 4 | 5 => cases h; rfl
    | n + 6 => simp [atIndex?, sequence] at h
  · rintro rfl
    exact atIndex?_index kind

end RecordKind

end Screening
