import Screening.Element
import Screening.Json.Number
import Screening.Json.Parser
import Screening.Json.Printer

/-!
# Values with a JSON form

`JsonForm` is the class of types that are written as JSON and read from it.  Reading fails in one
of two ways: the JSON is not of the expected form at all, or it is and says something that the
rules of the format refuse.

Structures are written as objects.  They are read from an object that has each field once and may
have others, or from an array of the values of the fields in order.  A fault is reported where the
text has it first, so the values of an object are checked in the order of its members
(`checkMembers`) before the structure is put together.
-/

set_option autoImplicit false

namespace Screening

/-- Why a JSON value is not the form of anything. -/
inductive ReadError where
  /-- The JSON is not of the expected form. -/
  | malformed
  /-- The JSON is of the expected form, but its content is refused. -/
  | refused (cause : FormatError)
  deriving DecidableEq, Repr

/-- Types that are written as JSON and read from it. -/
class JsonForm (α : Type) where
  /-- The form of a value. -/
  toJson : α → Json
  /-- The value of a form. -/
  ofJson : Json → Except ReadError α

namespace Json

/-- The value that a text is the form of. -/
def read (α : Type) [JsonForm α] (text : String) : Except ReadError α :=
  match parse text with
  | some value => JsonForm.ofJson value
  | none => .error .malformed

/-- Reports a refusal. -/
def orRefuse {α : Type} : Except FormatError α → Except ReadError α
  | .ok x => .ok x
  | .error cause => .error (.refused cause)

/-! ## Simple values -/

/-- The natural number below a bound that a value is. -/
def natBelow (bound : Nat) : Json → Except ReadError Nat
  | .number literal =>
    match literal.toInt? with
    | some n => if 0 ≤ n ∧ n < bound then .ok n.toNat else .error .malformed
    | none => .error .malformed
  | _ => .error .malformed

/-- A size or an index of 32 bits. -/
def nat32 : Json → Except ReadError Nat := natBelow UInt32.size

/-- A count of 64 bits. -/
def nat64 : Json → Except ReadError Nat := natBelow UInt64.size

/-- The signed integer of 32 bits that a value is. -/
def int32 : Json → Except ReadError Int32
  | .number literal =>
    match literal.toInt? with
    | some n =>
      if Int32.minValue.toInt ≤ n ∧ n ≤ Int32.maxValue.toInt then .ok (Int32.ofInt n)
      else .error .malformed
    | none => .error .malformed
  | _ => .error .malformed

/-- The double that a value is. -/
def binary64 : Json → Except ReadError Binary64
  | .number literal =>
    match literal.toBinary64? with
    | some x => .ok x
    | none => .error .malformed
  | _ => .error .malformed

/-- The text that a value is. -/
def text : Json → Except ReadError String
  | .string (some s) => .ok s
  | _ => .error .malformed

/-- The items of an array, each of one form. -/
def items {α : Type} (ofItem : Json → Except ReadError α) : Json → Except ReadError (List α)
  | .array values => values.mapM ofItem
  | _ => .error .malformed

/-- The two items of an array, each of one form. -/
def pair {α : Type} (ofItem : Json → Except ReadError α) (value : Json) :
    Except ReadError (α × α) := do
  match value with
  | .array (first :: rest) =>
    let x ← ofItem first
    match rest with
    | second :: more =>
      let y ← ofItem second
      if more.isEmpty then return (x, y) else throw .malformed
    | [] => throw .malformed
  | _ => throw .malformed

/-- Null, or a value of a form. -/
def option {α : Type} (ofValue : Json → Except ReadError α) : Json → Except ReadError (Option α)
  | .null => .ok none
  | value => some <$> ofValue value

/-! ## Structures -/

/-- A field of a structure. -/
structure Field where
  /-- Its name. -/
  name : String
  /-- What is wrong with a value for it, if anything. -/
  check : Json → Except ReadError Unit
  /-- It may be left out of an object and is null then. -/
  optional : Bool

/-- A field with values of a form. -/
def field {α : Type} (name : String) (ofValue : Json → Except ReadError α) : Field :=
  ⟨name, fun value => (fun _ => ()) <$> ofValue value, false⟩

/-- A field with values of a form that may be left out. -/
def optionalField {α : Type} (name : String) (ofValue : Json → Except ReadError α) : Field :=
  { field name (option ofValue) with optional := true }

/-- Checks the members of an object in order: every name a text, no field twice, and every value
fit for its field.  Members that are no fields are passed over. -/
def checkMembers (fields : List Field) :
    List String → List (Option String × Json) → Except ReadError Unit
  | _, [] => .ok ()
  | _, (none, _) :: _ => .error .malformed
  | seen, (some name, value) :: members => do
    match fields.find? (·.name == name) with
    | none => checkMembers fields seen members
    | some f =>
      if f.name ∈ seen then throw .malformed
      f.check value
      checkMembers fields (f.name :: seen) members

/-- Checks the items of an array that stands for a structure. -/
def checkItems : List Field → List Json → Except ReadError Unit
  | [], [] => .ok ()
  | f :: fields, value :: items => do
    f.check value
    checkItems fields items
  | _, _ => .error .malformed

/-- The value of a field that is left out, if it may be. -/
def missingValue (f : Field) : Except ReadError Json :=
  if f.optional then .ok .null else .error .malformed

/-- The values of the fields of a structure, in their order. -/
def fieldValues (fields : List Field) : Json → Except ReadError (List Json)
  | .object members => do
    checkMembers fields [] members
    fields.mapM fun f =>
      match members.lookup (some f.name) with
      | some value => .ok value
      | none => missingValue f
  | .array items => do
    checkItems fields items
    return items
  | _ => .error .malformed

end Json

/-! ## Forms of simple values -/

instance : JsonForm Int32 where
  toJson x := Json.ofInt x.toInt
  ofJson := Json.int32

instance : JsonForm Binary64 where
  toJson := Json.ofBinary64
  ofJson := Json.binary64

instance : JsonForm Complex128 where
  toJson z := .array [Json.ofBinary64 z.re, Json.ofBinary64 z.im]
  ofJson value := (fun parts => ⟨parts.1, parts.2⟩) <$> Json.pair Json.binary64 value

/-- The name of an element type in JSON. -/
def ElementType.jsonName : ElementType → String
  | .int32 => "I32"
  | .float64 => "F64"
  | .complex128 => "Complex128"

/-- The element type of a name in JSON. -/
def ElementType.ofJsonName (name : Option String) : Except ReadError ElementType :=
  match ElementType.all.find? (some ·.jsonName == name) with
  | some type => .ok type
  | none => .error .malformed

instance : JsonForm ElementType where
  toJson type := Json.ofText type.jsonName
  ofJson
    | .string name => ElementType.ofJsonName name
    | .object [(name, .null)] => ElementType.ofJsonName name
    | _ => .error .malformed

end Screening
