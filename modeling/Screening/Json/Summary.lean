import Screening.Json.Form
import Screening.Summary

/-!
# JSON forms of summaries and statistics

A summary is read as it stands; nothing ties its parts to each other.
-/

set_option autoImplicit false

namespace Screening

open Json

/-! ## Statistics -/

/-- The fields of the statistics of a part. -/
def PartStatistics.jsonFields : List Field :=
  [field "count" nat64, field "mean" binary64, field "std_dev" binary64, field "min" binary64,
   field "max" binary64]

instance : JsonForm PartStatistics where
  toJson s := Json.ofFields
    [("count", Json.ofNat s.count), ("mean", Json.ofBinary64 s.mean),
     ("std_dev", Json.ofBinary64 s.stdDev), ("min", Json.ofBinary64 s.min),
     ("max", Json.ofBinary64 s.max)]
  ofJson value := do
    match ← fieldValues PartStatistics.jsonFields value with
    | [count, mean, stdDev, min, max] =>
      return ⟨← nat64 count, ← binary64 mean, ← binary64 stdDev, ← binary64 min, ← binary64 max⟩
    | _ => throw .malformed

/-- Statistics of a part from their form. -/
def PartStatistics.ofJson (value : Json) : Except ReadError PartStatistics := JsonForm.ofJson value

/-- The fields of the statistics of a matrix. -/
def MatrixStatistics.jsonFields : List Field :=
  [optionalField "real" PartStatistics.ofJson, optionalField "imag" PartStatistics.ofJson]

instance : JsonForm MatrixStatistics where
  toJson s := Json.ofFields
    [("real", Json.ofOption JsonForm.toJson s.real), ("imag", Json.ofOption JsonForm.toJson s.imag)]
  ofJson value := do
    match ← fieldValues MatrixStatistics.jsonFields value with
    | [real, imag] =>
      return ⟨← option PartStatistics.ofJson real, ← option PartStatistics.ofJson imag⟩
    | _ => throw .malformed

/-- Statistics of a matrix from their form. -/
def MatrixStatistics.ofJson (value : Json) : Except ReadError MatrixStatistics :=
  JsonForm.ofJson value

/-! ## Summaries -/

/-- A shape as two numbers. -/
def shapeJson (shape : Nat × Nat) : Json := .array [Json.ofNat shape.1, Json.ofNat shape.2]

/-- The fields of a summary. -/
def Summary.jsonFields : List Field :=
  [field "source" text, optionalField "kpoint_index" nat32, field "ngvector" nat32,
   field "ngvector2" nat32, field "possible_frequency" binary64, field "header" (items binary64),
   field "wing_shape" (pair nat64), field "cwing_shape" (pair nat64),
   field "response_shape" (pair nat64), field "wing_stats" MatrixStatistics.ofJson,
   field "cwing_stats" MatrixStatistics.ofJson, field "response_stats" MatrixStatistics.ofJson]

instance : JsonForm Summary where
  toJson s := Json.ofFields
    [("source", Json.ofText s.source), ("kpoint_index", Json.ofOption Json.ofNat s.kpoint),
     ("ngvector", Json.ofNat s.ngvector), ("ngvector2", Json.ofNat s.ngvector2),
     ("possible_frequency", Json.ofBinary64 s.possibleFrequency),
     ("header", .array (s.header.map Json.ofBinary64)), ("wing_shape", shapeJson s.wingShape),
     ("cwing_shape", shapeJson s.cwingShape), ("response_shape", shapeJson s.responseShape),
     ("wing_stats", JsonForm.toJson s.wing), ("cwing_stats", JsonForm.toJson s.cwing),
     ("response_stats", JsonForm.toJson s.response)]
  ofJson value := do
    match ← fieldValues Summary.jsonFields value with
    | [source, kpoint, ngvector, ngvector2, possibleFrequency, header, wingShape, cwingShape,
        responseShape, wing, cwing, response] =>
      return {
        source := ← text source
        kpoint := ← option nat32 kpoint
        ngvector := ← nat32 ngvector
        ngvector2 := ← nat32 ngvector2
        possibleFrequency := ← binary64 possibleFrequency
        header := ← items binary64 header
        wingShape := ← pair nat64 wingShape
        cwingShape := ← pair nat64 cwingShape
        responseShape := ← pair nat64 responseShape
        wing := ← MatrixStatistics.ofJson wing
        cwing := ← MatrixStatistics.ofJson cwing
        response := ← MatrixStatistics.ofJson response }
    | _ => throw .malformed

end Screening
