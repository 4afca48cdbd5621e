import Screening.Decimal.Digits

/-!
# Values of JSON

A `Json` is what a JSON text says.  Numbers stay as they are written, since whether a number is an
integer or has a fraction is seen in its text only; and so do objects keep their members in order,
repeated ones included.

A string may be written with an unpaired surrogate and then denotes no text at all; such a string
is `none`.  It is part of a well-formed value as long as nobody asks for its text.
-/

set_option autoImplicit false

namespace Screening

/-- A number as it is written. -/
structure NumberLiteral where
  /-- It begins with a minus sign. -/
  negative : Bool
  /-- The digits before the point. -/
  whole : List Char
  /-- The digits after the point, if there is one. -/
  fraction : Option (List Char)
  /-- The exponent, if there is one: whether it is negative, and its digits. -/
  exponent : Option (Bool × List Char)
  deriving DecidableEq, Repr

/-- What a JSON text says. -/
inductive Json where
  /-- The null. -/
  | null
  /-- A truth value. -/
  | bool (value : Bool)
  /-- A number as it is written. -/
  | number (literal : NumberLiteral)
  /-- A string, and the text it denotes if it denotes one. -/
  | string (text : Option String)
  /-- A sequence of values. -/
  | array (items : List Json)
  /-- Named values in the order in which they are written. -/
  | object (members : List (Option String × Json))
  deriving Repr

namespace Json

/-- A whole number, written out. -/
def ofNat (n : Nat) : Json := .number ⟨false, Decimal.digits n, none, none⟩

/-- A signed whole number, written out. -/
def ofInt (n : Int) : Json := .number ⟨n < 0, Decimal.digits n.natAbs, none, none⟩

/-- A string with a text. -/
def ofText (text : String) : Json := .string (some text)

/-- An object with named values. -/
def ofFields (fields : List (String × Json)) : Json :=
  .object (fields.map fun field => (some field.1, field.2))

/-- A value that may be absent. -/
def ofOption {α : Type} (form : α → Json) : Option α → Json
  | some x => form x
  | none => .null

end Json

end Screening
