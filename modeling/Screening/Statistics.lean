import Screening.Contents

/-!
# Statistics of matrices

Real and imaginary parts are looked at apart, and of each only the finite values count: a value
that is not finite drops nothing but itself.

* `PartStatistics.ofValues` — count, mean, deviation and range of the finite values, if there are
  any.
* `MatrixStatistics.ofMatrix` — the statistics of both parts.

Sums run in the order of the storage and may overflow to an infinity.  The deviation is that of the
whole population: its square is the mean of the squared differences from the mean.
-/

set_option autoImplicit false

namespace Screening

/-- Statistics of the finite values of one part. -/
structure PartStatistics where
  /-- How many values are finite. -/
  count : Nat
  /-- Their mean. -/
  mean : Binary64
  /-- Their deviation from the mean. -/
  stdDev : Binary64
  /-- The least of them. -/
  min : Binary64
  /-- The greatest of them. -/
  max : Binary64
  deriving DecidableEq, Repr

/-- The sum of numbers in the order given.  It starts from the negative zero, the one number that
leaves every other as it is. -/
def sumFrom (values : List Float) : Float := values.foldl (· + ·) Binary64.negZero.toFloat

namespace PartStatistics

/-- The statistics of values that are all finite, of which there are some. -/
def ofFinite (values : List Binary64) : PartStatistics :=
  let count := Float.ofNat values.length
  let numbers := values.map Binary64.toFloat
  let mean := sumFrom numbers / count
  let squares := numbers.map fun v => (v - mean) * (v - mean)
  { count := values.length
    mean := Binary64.ofFloat mean
    stdDev := Binary64.ofFloat (sumFrom squares / count).sqrt
    min := values.foldl Binary64.min Binary64.infinity
    max := values.foldl Binary64.max Binary64.negInfinity }

/-- The statistics of the finite values of a list; there are none if no value is finite. -/
def ofValues (values : List Binary64) : Option PartStatistics :=
  let finite := values.filter Binary64.isFinite
  if finite.isEmpty then none else some (ofFinite finite)

/-- Values that are not finite play no part. -/
theorem ofValues_filter (values : List Binary64) :
    ofValues (values.filter Binary64.isFinite) = ofValues values := by
  simp [ofValues]

/-- There are statistics exactly if some value is finite. -/
theorem ofValues_eq_none_iff (values : List Binary64) :
    ofValues values = none ↔ ∀ x ∈ values, x.isFinite = false := by
  simp [ofValues]

theorem count_of_ofValues {values : List Binary64} {stats : PartStatistics}
    (h : ofValues values = some stats) : stats.count = values.countP Binary64.isFinite := by
  unfold ofValues at h
  dsimp only at h
  split at h
  · cases h
  · cases h
    rw [List.countP_eq_length_filter]
    rfl

end PartStatistics

/-- Statistics of both parts of a matrix. -/
structure MatrixStatistics where
  /-- Statistics of the real parts. -/
  real : Option PartStatistics
  /-- Statistics of the imaginary parts. -/
  imag : Option PartStatistics
  deriving DecidableEq, Repr

/-- The statistics of a matrix. -/
def MatrixStatistics.ofMatrix (m : ComplexMatrix) : MatrixStatistics where
  real := PartStatistics.ofValues (m.toList.map Complex128.re)
  imag := PartStatistics.ofValues (m.toList.map Complex128.im)

end Screening
