import Screening.Json

/-!
# Reading JSON

`Json.parse` gives the value of a text, or nothing if the text is not one value between blanks.

The readers take characters off the front and give what is left.  Every value takes at least one
character, so that the length of the text bounds how deep and how far the readers can go; that
bound is the `Nat` they carry.
-/

set_option autoImplicit false

namespace Screening.Json

/-! ## Blanks and words -/

/-- The characters that may stand between any two parts of a text. -/
def isBlank (c : Char) : Bool := c == ' ' || c == '\n' || c == '\t' || c == '\r'

/-- The text from its first character that is not blank. -/
def skipBlanks (text : List Char) : List Char := text.dropWhile isBlank

/-- The text behind a word that it has to begin with. -/
def expect? : List Char → List Char → Option (List Char)
  | [], text => some text
  | c :: word, d :: text => if c = d then expect? word text else none
  | _ :: _, [] => none

/-! ## Numbers -/

/-- One digit or more. -/
def digits? (text : List Char) : Option (List Char × List Char) :=
  let run := text.takeWhile Char.isDigit
  if run.isEmpty then none else some (run, text.dropWhile Char.isDigit)

/-- The digits before the point: a zero stands alone. -/
def whole? (text : List Char) : Option (List Char × List Char) := do
  let (run, rest) ← digits? text
  if run.head? = some '0' ∧ 1 < run.length then none else some (run, rest)

/-- The digits after a point, if there is a point. -/
def fraction? : List Char → Option (Option (List Char) × List Char)
  | '.' :: text => do
    let (run, rest) ← digits? text
    return (some run, rest)
  | text => some (none, text)

/-- A sign that may be left out, and whether it is a minus. -/
def sign : List Char → Bool × List Char
  | '-' :: text => (true, text)
  | '+' :: text => (false, text)
  | text => (false, text)

/-- The digits of an exponent with their sign. -/
def exponentDigits? (text : List Char) : Option (Option (Bool × List Char) × List Char) := do
  let (negative, unsigned) := sign text
  let (run, rest) ← digits? unsigned
  return (some (negative, run), rest)

/-- An exponent, if there is one. -/
def exponent? : List Char → Option (Option (Bool × List Char) × List Char)
  | 'e' :: text => exponentDigits? text
  | 'E' :: text => exponentDigits? text
  | text => some (none, text)

/-- A number behind its minus sign, if it has one. -/
def unsigned? (negative : Bool) (text : List Char) : Option (NumberLiteral × List Char) := do
  let (whole, text) ← whole? text
  let (fraction, text) ← fraction? text
  let (exponent, text) ← exponent? text
  return (⟨negative, whole, fraction, exponent⟩, text)

/-- A number. -/
def number? : List Char → Option (NumberLiteral × List Char)
  | '-' :: text => unsigned? true text
  | text => unsigned? false text

/-! ## Strings -/

/-- The value of a hexadecimal digit of either case. -/
def hexValue? (c : Char) : Option Nat :=
  if c.isDigit then some (c.toNat - '0'.toNat)
  else if 'a' ≤ c ∧ c ≤ 'f' then some (c.toNat - 'a'.toNat + 10)
  else if 'A' ≤ c ∧ c ≤ 'F' then some (c.toNat - 'A'.toNat + 10)
  else none

/-- The number of four hexadecimal digits. -/
def hexUnit? (a b c d : Char) : Option Nat := do
  return ((← hexValue? a) * 16 + (← hexValue? b)) * 256 + ((← hexValue? c) * 16 + (← hexValue? d))

/-- The character of a letter behind a backslash. -/
def unescape? : Char → Option Char
  | '"' => some '"'
  | '\\' => some '\\'
  | '/' => some '/'
  | 'b' => some '\x08'
  | 'f' => some '\x0c'
  | 'n' => some '\n'
  | 'r' => some '\r'
  | 't' => some '\t'
  | _ => none

/-- A piece of a string: a character, or a number of sixteen bits that an escape spells. -/
inductive Piece where
  /-- A character that stands for itself or for which a letter stands. -/
  | char (c : Char)
  /-- A number that may be a character or one half of one. -/
  | unit (n : Nat)
  deriving DecidableEq, Repr

/-- The pieces of a string up to the quotation mark that ends it. -/
def pieces? : List Char → Option (List Piece × List Char)
  | [] => none
  | '"' :: text => some ([], text)
  | '\\' :: 'u' :: a :: b :: c :: d :: text => do
    let n ← hexUnit? a b c d
    let (pieces, rest) ← pieces? text
    return (.unit n :: pieces, rest)
  | '\\' :: letter :: text => do
    let c ← unescape? letter
    let (pieces, rest) ← pieces? text
    return (.char c :: pieces, rest)
  | c :: text =>
    if c = '\\' ∨ c.toNat < 0x20 then none
    else do
      let (pieces, rest) ← pieces? text
      return (.char c :: pieces, rest)

/-- The first half of a character beyond the sixteen-bit numbers. -/
def isHighSurrogate (n : Nat) : Bool := 0xd800 ≤ n && n < 0xdc00

/-- The second half of a character beyond the sixteen-bit numbers. -/
def isLowSurrogate (n : Nat) : Bool := 0xdc00 ≤ n && n < 0xe000

/-- The characters that pieces denote; an unpaired half denotes none. -/
def assemble? : List Piece → Option (List Char)
  | [] => some []
  | .char c :: rest => (c :: ·) <$> assemble? rest
  | .unit high :: .unit low :: rest =>
    if isHighSurrogate high then
      if isLowSurrogate low then
        (Char.ofNat (0x10000 + (high - 0xd800) * 0x400 + (low - 0xdc00)) :: ·) <$> assemble? rest
      else none
    else if isLowSurrogate high then none
    else (Char.ofNat high :: ·) <$> assemble? (.unit low :: rest)
  | .unit n :: rest =>
    if isHighSurrogate n || isLowSurrogate n then none
    else (Char.ofNat n :: ·) <$> assemble? rest

/-- A string behind its first quotation mark, and the text it denotes if it denotes one. -/
def string? (text : List Char) : Option (Option String × List Char) := do
  let (pieces, rest) ← pieces? text
  return ((assemble? pieces).map String.ofList, rest)

/-- The name of a member and the colon behind it. -/
def name? : List Char → Option (Option String × List Char)
  | '"' :: text => do
    let (name, rest) ← string? text
    let rest ← expect? [':'] (skipBlanks rest)
    return (name, rest)
  | _ => none

/-! ## Values -/

mutual

/-- A value at the front of a text that begins with no blank. -/
def value? : Nat → List Char → Option (Json × List Char)
  | 0, _ => none
  | bound + 1, text =>
    match text with
    | '"' :: rest => do
      let (text, rest) ← string? rest
      return (.string text, rest)
    | '[' :: rest =>
      match skipBlanks rest with
      | ']' :: rest => some (.array [], rest)
      | rest => do
        let (items, rest) ← items? bound rest
        return (.array items, rest)
    | '\x7b' :: rest =>
      match skipBlanks rest with
      | '\x7d' :: rest => some (.object [], rest)
      | rest => do
        let (members, rest) ← members? bound rest
        return (.object members, rest)
    | 'n' :: rest => do return (.null, ← expect? "ull".toList rest)
    | 't' :: rest => do return (.bool true, ← expect? "rue".toList rest)
    | 'f' :: rest => do return (.bool false, ← expect? "alse".toList rest)
    | text => do
      let (literal, rest) ← number? text
      return (.number literal, rest)

/-- The items of an array up to the bracket that closes it. -/
def items? : Nat → List Char → Option (List Json × List Char)
  | 0, _ => none
  | bound + 1, text => do
    let (item, rest) ← value? bound text
    match skipBlanks rest with
    | ',' :: rest => do
      let (items, rest) ← items? bound (skipBlanks rest)
      return (item :: items, rest)
    | ']' :: rest => return ([item], rest)
    | _ => none

/-- The members of an object up to the brace that closes it. -/
def members? : Nat → List Char → Option (List (Option String × Json) × List Char)
  | 0, _ => none
  | bound + 1, text => do
    let (name, rest) ← name? text
    let (value, rest) ← value? bound (skipBlanks rest)
    match skipBlanks rest with
    | ',' :: rest => do
      let (members, rest) ← members? bound (skipBlanks rest)
      return ((name, value) :: members, rest)
    | '\x7d' :: rest => return ([(name, value)], rest)
    | _ => none

end

/-- The value of a text, which has to be one value and blanks around it. -/
def parse (text : String) : Option Json := do
  let (value, rest) ← value? (2 * text.length + 1) (skipBlanks text.toList)
  if (skipBlanks rest).isEmpty then some value else none

end Screening.Json
