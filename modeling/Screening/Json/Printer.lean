import Screening.Json

/-!
# Writing JSON

* `Json.compact` — no blanks at all.
* `Json.pretty` — each item and member on its own line, two blanks deeper than what it is in; an
  empty array or object stays in one piece.

In strings the quotation mark, the backslash and the controls are escaped, the common ones of them
by a letter; everything else stands for itself.
-/

set_option autoImplicit false

namespace Screening.Json

/-! ## Strings and numbers -/

/-- A number below 2 ^ 16 as four lowercase digits. -/
def hex4 (n : Nat) : List Char :=
  [n / 4096 % 16, n / 256 % 16, n / 16 % 16, n % 16].map Nat.digitChar

/-- A character inside a string. -/
def escape (c : Char) : List Char :=
  if c = '"' then ['\\', '"']
  else if c = '\\' then ['\\', '\\']
  else if c = '\x08' then ['\\', 'b']
  else if c = '\t' then ['\\', 't']
  else if c = '\n' then ['\\', 'n']
  else if c = '\x0c' then ['\\', 'f']
  else if c = '\r' then ['\\', 'r']
  else if c.toNat < 0x20 then '\\' :: 'u' :: hex4 c.toNat
  else [c]

/-- A string in quotation marks.  One that denotes no text is written as a lone surrogate. -/
def stringText : Option String → List Char
  | some text => '"' :: text.toList.flatMap escape ++ ['"']
  | none => '"' :: '\\' :: 'u' :: hex4 0xd800 ++ ['"']

/-- The exponent of a number with its sign. -/
def exponentText : Bool × List Char → List Char
  | (negative, digits) => 'e' :: (if negative then '-' else '+') :: digits

/-- A number as it is written; an exponent always shows its sign. -/
def numberText (literal : NumberLiteral) : List Char :=
  (if literal.negative then ['-'] else []) ++ literal.whole ++
    (literal.fraction.map ('.' :: ·)).getD [] ++ (literal.exponent.map exponentText).getD []

/-! ## Values -/

/-- How the parts of a value are set apart. -/
structure Style where
  /-- What stands before an item at a depth, and before what closes the value it is in. -/
  lineBreak : Nat → List Char
  /-- What stands between a name and its value. -/
  colon : List Char

/-- Without any blanks. -/
def Style.compact : Style := ⟨fun _ => [], [':']⟩

/-- A line for each item, two blanks deeper than what it is in. -/
def Style.pretty : Style := ⟨fun depth => '\n' :: List.replicate (2 * depth) ' ', [':', ' ']⟩

mutual

/-- The text of a value at a depth. -/
def write (style : Style) (depth : Nat) : Json → List Char
  | .null => "null".toList
  | .bool true => "true".toList
  | .bool false => "false".toList
  | .number literal => numberText literal
  | .string text => stringText text
  | .array [] => ['[', ']']
  | .array (item :: items) =>
    '[' :: style.lineBreak (depth + 1) ++ write style (depth + 1) item ++
      writeItems style (depth + 1) items ++ style.lineBreak depth ++ [']']
  | .object [] => ['\x7b', '\x7d']
  | .object ((name, value) :: members) =>
    '\x7b' :: style.lineBreak (depth + 1) ++ stringText name ++ style.colon ++
      write style (depth + 1) value ++ writeMembers style (depth + 1) members ++
      style.lineBreak depth ++ ['\x7d']

/-- The further items of an array. -/
def writeItems (style : Style) (depth : Nat) : List Json → List Char
  | [] => []
  | item :: items =>
    ',' :: style.lineBreak depth ++ write style depth item ++ writeItems style depth items

/-- The further members of an object. -/
def writeMembers (style : Style) (depth : Nat) : List (Option String × Json) → List Char
  | [] => []
  | (name, value) :: members =>
    ',' :: style.lineBreak depth ++ stringText name ++ style.colon ++ write style depth value ++
      writeMembers style depth members

end

/-- The text of a value without blanks. -/
def compact (value : Json) : String := String.ofList (write .compact 0 value)

/-- The text of a value with a line for each item. -/
def pretty (value : Json) : String := String.ofList (write .pretty 0 value)

end Screening.Json
