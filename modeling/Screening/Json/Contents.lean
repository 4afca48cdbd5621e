import Screening.Contents
import Screening.Json.Form

/-!
# JSON forms of a file's contents

What is read is checked in the same way as what is decoded: sizes have to be those of some record,
a matrix has to be filled exactly, and the matrices of a file have to fit its sizes.
-/

set_option autoImplicit false

namespace Screening

open Json

/-! ## Dimensions and header -/

/-- The fields of dimensions. -/
def Dimensions.jsonFields : List Field :=
  [field "ngvector" nat32, field "ngvector2" nat32, field "field_count" nat64]

instance : JsonForm Dimensions where
  toJson d := Json.ofFields
    [("ngvector", Json.ofNat d.ngvector), ("ngvector2", Json.ofNat d.ngvector2),
     ("field_count", Json.ofNat d.fieldCount)]
  ofJson value := do
    match ← fieldValues Dimensions.jsonFields value with
    | [ngvector, ngvector2, fieldCount] =>
      orRefuse (Dimensions.ofSizes (← nat32 ngvector) (← nat32 ngvector2) (← nat64 fieldCount))
    | _ => throw .malformed

/-- Exactly as many numbers as a header has. -/
def Header.ofJsonItems (value : Json) : Except ReadError Header := do
  let values ← items binary64 value
  match Header.ofValues values with
  | .ok header => return header
  | .error _ => throw .malformed

/-- The fields of a header. -/
def Header.jsonFields : List Field := [field "values" Header.ofJsonItems]

instance : JsonForm Header where
  toJson h := Json.ofFields [("values", .array (h.values.map Json.ofBinary64))]
  ofJson value := do
    match ← fieldValues Header.jsonFields value with
    | [values] => Header.ofJsonItems values
    | _ => throw .malformed

/-! ## Matrices -/

/-- The fields of a matrix. -/
def Matrix.jsonFields (α : Type) [JsonForm α] : List Field :=
  [field "nrows" nat64, field "ncols" nat64, field "data" (items (JsonForm.ofJson (α := α)))]

instance {α : Type} [JsonForm α] : JsonForm (Matrix α) where
  toJson m := Json.ofFields
    [("nrows", Json.ofNat m.nrows), ("ncols", Json.ofNat m.ncols),
     ("data", .array (m.toList.map JsonForm.toJson))]
  ofJson value := do
    match ← fieldValues (Matrix.jsonFields α) value with
    | [nrows, ncols, data] =>
      let elements ← items JsonForm.ofJson data
      orRefuse (Matrix.checked elements.toArray (← nat64 nrows) (← nat64 ncols))
    | _ => throw .malformed

/-! ## Contents -/

/-- A matrix of complex numbers from its form. -/
def ComplexMatrix.ofJson (value : Json) : Except ReadError ComplexMatrix := JsonForm.ofJson value

/-- Dimensions from their form. -/
def Dimensions.ofJson (value : Json) : Except ReadError Dimensions := JsonForm.ofJson value

/-- A header from its form. -/
def Header.ofJson (value : Json) : Except ReadError Header := JsonForm.ofJson value

/-- The fields of contents. -/
def Contents.jsonFields : List Field :=
  [field "source" text, field "dimensions" Dimensions.ofJson, field "header" Header.ofJson,
   field "wing" ComplexMatrix.ofJson, field "cwing" ComplexMatrix.ofJson,
   field "response" ComplexMatrix.ofJson]

instance : JsonForm Contents where
  toJson c := Json.ofFields
    [("source", Json.ofText c.source), ("dimensions", JsonForm.toJson c.dimensions),
     ("header", JsonForm.toJson c.header), ("wing", JsonForm.toJson c.wing),
     ("cwing", JsonForm.toJson c.cwing), ("response", JsonForm.toJson c.response)]
  ofJson value := do
    match ← fieldValues Contents.jsonFields value with
    | [source, dimensions, header, wing, cwing, response] =>
      let contents : Contents :=
        ⟨← text source, ← Dimensions.ofJson dimensions, ← Header.ofJson header,
          ← ComplexMatrix.ofJson wing, ← ComplexMatrix.ofJson cwing,
          ← ComplexMatrix.ofJson response⟩
      orRefuse contents.validate
      return contents
    | _ => throw .malformed

end Screening
