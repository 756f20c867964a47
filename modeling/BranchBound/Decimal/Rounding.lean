/-!
# Rounded quotients

`roundDiv` rounds a quotient of natural numbers to the nearest one; a `Tie`
says where an exact half goes.
-/

namespace BranchBound.Decimal

/-- Where an exact half is rounded to. -/
inductive Tie where
  | even
  | up
  deriving DecidableEq, Repr

/-- `num / den` to the nearest natural number. -/
def roundDiv (tie : Tie) (num den : Nat) : Nat :=
  let quotient := num / den
  let twice := 2 * (num % den)
  if twice < den then quotient
  else if den < twice then quotient + 1
  else match tie with
    | .even => quotient + quotient % 2
    | .up => quotient + 1

/-- The number of decimal digits of `n`, one for zero. -/
def digitCount (n : Nat) : Nat :=
  (Nat.toDigits 10 n).length

/-- The `e` with `10 ^ e ≤ num / den < 10 ^ (e + 1)`, for positive `num` and `den`. -/
def leadExponent (num den : Nat) : Int :=
  if den ≤ num then digitCount (num / den) - 1
  else -(digitCount ((den + num - 1) / num - 1) : Int)

/-- `num / den` times `10 ^ shift`, as a quotient. -/
def shiftTen (num den : Nat) (shift : Int) : Nat × Nat :=
  match shift with
  | .ofNat k => (num * Nat.pow 10 k, den)
  | .negSucc k => (num, den * Nat.pow 10 (k + 1))

end BranchBound.Decimal
