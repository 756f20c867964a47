/-!
# Binary64 numbers as integers

A finite double is a sign and `mantissa * 2 ^ exponent`, read from its bits.
-/

namespace BranchBound.Decimal

inductive Binary where
  | nan
  | infinite (negative : Bool)
  | finite (negative : Bool) (mantissa : Nat) (exponent : Int)
  deriving DecidableEq, Repr

/-- The least exponent, that of the subnormal numbers. -/
def Binary.minExponent : Int := -1074

/-- The weight of the sign bit, `2 ^ 63`. -/
def Binary.signBit : Nat := 9223372036854775808

/-- The least mantissa of a normal number, `2 ^ 52`. -/
def Binary.leadBit : Nat := 4503599627370496

def Binary.ofFloat (v : Float) : Binary :=
  let bits := v.toBits.toNat
  let negative := bits / signBit == 1
  let biased := bits / leadBit % 2048
  let fraction := bits % leadBit
  if biased = 2047 then
    if fraction = 0 then .infinite negative else .nan
  else if biased = 0 then .finite negative fraction minExponent
  else .finite negative (leadBit + fraction) (minExponent + (biased - 1 : Nat))

/-- `m * 2 ^ e` as a quotient of natural numbers. -/
def Binary.quotient (m : Nat) (e : Int) : Nat × Nat :=
  match e with
  | .ofNat k => (m * Nat.pow 2 k, 1)
  | .negSucc k => (m, Nat.pow 2 (k + 1))

end BranchBound.Decimal
