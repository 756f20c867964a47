/-!
# Scalars

The solver is written once over a `Scalar`: the arithmetic, the comparisons and
the roundings it needs, with no law assumed. The rationals give its exact
meaning and the double-precision numbers the one it runs with.
-/

namespace BranchBound

/-- The operations that the solver applies to numbers.

Comparisons are Boolean tests, all false on an unordered pair. -/
class Scalar (α : Type) extends
    Add α, Sub α, Mul α, Div α, Neg α, Zero α, One α, OfScientific α where
  lt : α → α → Bool
  le : α → α → Bool
  eq : α → α → Bool
  /-- The larger operand, or the ordered one if the other is not. -/
  max : α → α → α
  abs : α → α
  /-- The nearest integer, halves away from zero. -/
  round : α → α
  /-- The least integer from `v` up. -/
  ceil : α → α
  /-- The greatest integer from `v` down. -/
  floor : α → α
  isFinite : α → Bool
  /-- Whether `v` is positive infinity. -/
  isTop : α → Bool
  /-- Whether `v` is ordered below positive infinity. -/
  belowTop : α → Bool

namespace Scalar

variable {α : Type} [Scalar α]

/-- Left-to-right sum, started from negative zero. -/
def sum (xs : List α) : α :=
  xs.foldl (· + ·) (-0)

def dot (xs ys : List α) : α :=
  sum (List.zipWith (· * ·) xs ys)

/-- The largest of `start` and the entries of `xs`. -/
def largest (start : α) (xs : List α) : α :=
  xs.foldl Scalar.max start

end Scalar

end BranchBound
