/-!
# Hexadecimal text of bytes

Two lowercase digits a byte, in the order of the bytes.
-/

set_option autoImplicit false

namespace Screening.Hex

/-- The lowercase digit of a number below sixteen. -/
def digit (n : Nat) : Char := Nat.digitChar n

/-- The two digits of a byte, the high one first. -/
def ofByte (byte : UInt8) : List Char := [digit (byte.toNat / 16), digit (byte.toNat % 16)]

/-- The digits of a run of bytes. -/
def ofBytes (bytes : List UInt8) : String := String.ofList (bytes.flatMap ofByte)

/-- The digits of the first `count` bytes of a run. -/
def preview (bytes : List UInt8) (count : Nat) : String := ofBytes (bytes.take count)

/-- Each byte takes two characters. -/
@[simp] theorem length_ofBytes (bytes : List UInt8) :
    (ofBytes bytes).length = 2 * bytes.length := by
  rw [ofBytes, String.length_ofList]
  induction bytes with
  | nil => rfl
  | cons byte rest ih => simp only [List.flatMap_cons, List.length_append, ih, ofByte,
      List.length_cons, List.length_nil]; omega

end Screening.Hex
