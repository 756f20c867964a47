import BranchBound.Scalar

/-!
# Integrality

A coordinate is whole if it is within a tolerance of an integer. A search
branches on the first coordinate that is not.
-/

namespace BranchBound.Search

variable {α : Type} [Scalar α]

/-- Whether `v` is within `tol` of an integer. -/
def isWhole (tol v : α) : Bool :=
  Scalar.le (Scalar.abs (v - Scalar.round v)) tol

/-- The first coordinate of `x` that is not whole, with its value. -/
def fractional? (tol : α) (x : List α) : Option (Nat × α) :=
  (x.zipIdx.find? fun (v, _) => !isWhole tol v).map fun (v, index) => (index, v)

end BranchBound.Search
