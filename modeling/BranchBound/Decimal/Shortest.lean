import BranchBound.Decimal.Binary
import BranchBound.Decimal.Rounding

/-!
# Shortest decimals

The fewest significant digits that read back as the same double and, among
those of that length, the nearest to it. `readsBack` is the interval of reals
that round to the double; `shortest` tries the two neighbours of the double on
each decimal grid, coarsest first.
-/

namespace BranchBound.Decimal

/-- A positive decimal: its significant digits, and the power of ten of the first. -/
structure Digits where
  digits : List Char
  lead : Int
  deriving DecidableEq, Repr

namespace Digits

/-- `significand * 10 ^ unit`, without the zeros at its end. -/
def ofNat (significand : Nat) (unit : Int) : Digits :=
  let all := Nat.toDigits 10 significand
  let kept := (all.reverse.dropWhile (· == '0')).reverse
  ⟨if kept.isEmpty then ['0'] else kept, unit + ((all.length : Int) - 1)⟩

def zero : Digits := ⟨['0'], 0⟩

end Digits

/-- The reals that round to a double, over a common denominator. -/
structure Neighbourhood where
  low : Nat
  value : Nat
  high : Nat
  den : Nat
  /-- Whether the ends belong to it. -/
  closed : Bool
  deriving Repr

namespace Neighbourhood

/-- The reals nearer to `m * 2 ^ e` than to any other double.

Below a power of two the next double is half as far. -/
def ofBinary (m : Nat) (e : Int) : Neighbourhood :=
  let near := m = Binary.leadBit && Binary.minExponent < e
  let (scale, den) := Binary.quotient 1 (e - 2)
  { low := (4 * m - if near then 1 else 2) * scale
    value := 4 * m * scale
    high := (4 * m + 2) * scale
    den
    closed := m % 2 == 0 }

def shift (n : Neighbourhood) : Int → Neighbourhood
  | .ofNat k =>
    let scale := Nat.pow 10 k
    { n with low := n.low * scale, value := n.value * scale, high := n.high * scale }
  | .negSucc k => { n with den := n.den * Nat.pow 10 (k + 1) }

def holds (n : Neighbourhood) (c : Nat) : Bool :=
  if n.closed then n.low ≤ c * n.den && c * n.den ≤ n.high
  else n.low < c * n.den && c * n.den < n.high

/-- The natural number of the neighbourhood that is nearest to its value, if it has one. -/
def nearest (tie : Tie) (n : Neighbourhood) : Option Nat :=
  let below := n.value / n.den
  match n.holds below, n.holds (below + 1) with
  | true, true => some (roundDiv tie n.value n.den)
  | true, false => some below
  | false, true => some (below + 1)
  | false, false => none

end Neighbourhood

/-- The shortest digits of `m * 2 ^ e`, for positive `m`. Seventeen always suffice. -/
def shortest (tie : Tie) (m : Nat) (e : Int) : Digits :=
  let whole := Neighbourhood.ofBinary m e
  let lead := leadExponent whole.value whole.den
  let onGrid (below : Nat) : Option Digits :=
    let unit := lead - below
    ((whole.shift (-unit)).nearest tie).map fun c => .ofNat c unit
  ((List.range 17).findSome? onGrid).getD .zero

end BranchBound.Decimal
