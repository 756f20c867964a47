import BranchBound.Scalar

/-!
# Double-precision scalars

Arithmetic is that of IEEE binary64. The integer roundings are computed from
the whole part, so that they reduce in the kernel and keep the sign of zero.
-/

namespace BranchBound

namespace Double

/-- The part of `v` before the point, with the sign of `v`.

From `2 ^ 52` on every number is whole; infinities and NaN are kept. -/
def wholePart (v : Float) : Float :=
  if v.abs < 4503599627370496 && v != 0 then
    if v < 0 then -v.abs.toUInt64.toFloat else v.abs.toUInt64.toFloat
  else v

def floor (v : Float) : Float :=
  if v < wholePart v then wholePart v - 1 else wholePart v

def ceil (v : Float) : Float :=
  if wholePart v < v then wholePart v + 1 else wholePart v

def round (v : Float) : Float :=
  if 0.5 ≤ (v - wholePart v).abs then
    if v < 0 then wholePart v - 1 else wholePart v + 1
  else wholePart v

/-- The larger operand; of two zeros the positive one, of a NaN and a number the number. -/
def max (a b : Float) : Float :=
  if a < b then b
  else if b < a then a
  else if a == b then if a.toBits == 0x8000000000000000 then b else a
  else if a.isNaN then b
  else a

def top : Float :=
  1 / 0

end Double

instance : Scalar Float where
  zero := 0
  one := 1
  lt a b := a < b
  le a b := a ≤ b
  eq a b := a == b
  max := Double.max
  abs := Float.abs
  round := Double.round
  ceil := Double.ceil
  floor := Double.floor
  isFinite := Float.isFinite
  isTop v := v == Double.top
  belowTop v := v < Double.top

end BranchBound
