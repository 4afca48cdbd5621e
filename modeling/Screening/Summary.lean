import Screening.Statistics

/-!
# Summaries of files

A summary is what a program is told of a file: its sizes, its header, the shapes of its matrices
and their statistics, but not their elements.
-/

set_option autoImplicit false

namespace Screening

/-- A compact description of a file. -/
structure Summary where
  /-- The label under which the file was read. -/
  source : String
  /-- The k-point that the name of the file carries. -/
  kpoint : Option Nat
  /-- The number of G-vectors. -/
  ngvector : Nat
  /-- The second size. -/
  ngvector2 : Nat
  /-- Slot zero of the header. -/
  possibleFrequency : Binary64
  /-- The whole header. -/
  header : List Binary64
  /-- The shape of the wing matrix. -/
  wingShape : Nat × Nat
  /-- The shape of the conjugate wing matrix. -/
  cwingShape : Nat × Nat
  /-- The shape of the response matrix. -/
  responseShape : Nat × Nat
  /-- The statistics of the wing matrix. -/
  wing : MatrixStatistics
  /-- The statistics of the conjugate wing matrix. -/
  cwing : MatrixStatistics
  /-- The statistics of the response matrix. -/
  response : MatrixStatistics
  deriving DecidableEq, Repr

/-- The summary of a file's contents. -/
def Summary.ofContents (c : Contents) (kpoint : Option Nat) : Summary where
  source := c.source
  kpoint := kpoint
  ngvector := c.dimensions.ngvector
  ngvector2 := c.dimensions.ngvector2
  possibleFrequency := c.header.possibleFrequency
  header := c.header.values
  wingShape := c.wing.shape
  cwingShape := c.cwing.shape
  responseShape := c.response.shape
  wing := MatrixStatistics.ofMatrix c.wing
  cwing := MatrixStatistics.ofMatrix c.cwing
  response := MatrixStatistics.ofMatrix c.response

end Screening
