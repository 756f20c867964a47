import BranchBound.Decimal.Rounding

/-!
# Reading numbers

A number is an optional sign before digits with an optional point and an
optional exponent, or before `inf`, `infinity` or `nan` in any case. It is read
as the nearest double.
-/

namespace BranchBound.Decimal

inductive LiteralFault where
  | empty
  | malformed
  deriving DecidableEq, Repr

def LiteralFault.message : LiteralFault → String
  | .empty => "cannot parse float from empty string"
  | .malformed => "invalid float literal"

/-- An unsigned decimal `mantissa * 10 ^ exponent`. -/
structure Literal where
  mantissa : Nat
  exponent : Int
  deriving DecidableEq, Repr

def digitsValue (ds : List Char) : Nat :=
  ds.foldl (fun n c => 10 * n + (c.toNat - '0'.toNat)) 0

/-- A sign, plus if there is none, and what follows it. -/
def splitSign : List Char → Bool × List Char
  | '-' :: rest => (true, rest)
  | '+' :: rest => (false, rest)
  | text => (false, text)

/-- The exponent after the digits of a number; the end of the text counts as zero. -/
def readExponent : List Char → Option Int
  | [] => some 0
  | mark :: rest =>
    let (negative, ds) := splitSign rest
    if (mark == 'e' || mark == 'E') && !ds.isEmpty && ds.all Char.isDigit then
      some (if negative then -(digitsValue ds : Int) else digitsValue ds)
    else none

/-- Digits with an optional point, then an optional exponent. -/
def readDigits (text : List Char) : Option Literal :=
  let whole := text.takeWhile Char.isDigit
  let rest := text.dropWhile Char.isDigit
  let (fraction, rest) : List Char × List Char :=
    match rest with
    | '.' :: after => (after.takeWhile Char.isDigit, after.dropWhile Char.isDigit)
    | _ => ([], rest)
  if whole.isEmpty && fraction.isEmpty then none
  else (readExponent rest).map fun e =>
    ⟨digitsValue (whole ++ fraction), e - fraction.length⟩

/-- The nearest double. Beyond four hundred places all is infinite or zero. -/
def Literal.toFloat (l : Literal) : Float :=
  if l.mantissa = 0 then 0
  else
    let lead := l.exponent + digitCount l.mantissa
    if 400 < lead then 1 / 0
    else if lead < -400 then 0
    else Float.ofScientific l.mantissa (l.exponent < 0) l.exponent.natAbs

def readUnsigned (text : List Char) : Option Float :=
  match text.map Char.toLower with
  | ['i', 'n', 'f'] | ['i', 'n', 'f', 'i', 'n', 'i', 't', 'y'] => some (1 / 0)
  | ['n', 'a', 'n'] => some (0 / 0)
  | _ => (readDigits text).map Literal.toFloat

def read (text : String) : Except LiteralFault Float :=
  if text.isEmpty then .error .empty
  else
    let (negative, rest) := splitSign text.toList
    match readUnsigned rest with
    | some v => .ok (if negative then -v else v)
    | none => .error .malformed

end BranchBound.Decimal
