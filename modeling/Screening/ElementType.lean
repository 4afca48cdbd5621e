/-!
# The element types of a payload

A payload carries no type of its own; a reader lays one of these over its bytes.
-/

set_option autoImplicit false

namespace Screening

/-- The types a payload can be read under, all of them little-endian and tightly packed. -/
inductive ElementType where
  /-- Signed 32-bit integers. -/
  | int32
  /-- Double-precision numbers. -/
  | float64
  /-- Pairs of double-precision numbers, the real part first. -/
  | complex128
  deriving DecidableEq, Repr

namespace ElementType

/-- Every element type, the narrowest first. -/
def all : List ElementType := [int32, float64, complex128]

/-- Bytes of one element. -/
def size : ElementType → Nat
  | int32 => 4
  | float64 => 8
  | complex128 => 16

/-- The name shown to a reader. -/
def name : ElementType → String
  | int32 => "int32"
  | float64 => "float64"
  | complex128 => "complex128"

theorem size_pos (t : ElementType) : 0 < t.size := by cases t <;> decide

theorem mem_all (t : ElementType) : t ∈ all := by cases t <;> decide

end ElementType

end Screening
