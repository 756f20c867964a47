import BranchBound.Decimal.Shortest

/-!
# Decimal text

`Layout` holds the decisions of a number format; `write` lays the shortest
digits of a double out by it. `fixed` and `scientific` write a given number of
places, rounding the exact binary value with halves to even.
-/

namespace BranchBound.Decimal

structure Layout where
  /-- Which of two equally near decimals is taken. -/
  tie : Tie
  /-- The powers of ten of the first digit that are written without an exponent. -/
  positional : Int → Bool
  /-- Whether a whole number is written with `.0`. -/
  pointKept : Bool

namespace Digits

/-- The digits with a point and as many zeros as their place needs. -/
def positional (pointKept : Bool) (d : Digits) : String :=
  let (whole, fraction) : List Char × List Char :=
    match d.lead with
    | .ofNat k => (d.digits.take (k + 1) ++ List.replicate (k + 1 - d.digits.length) '0',
        d.digits.drop (k + 1))
    | .negSucc k => (['0'], List.replicate k '0' ++ d.digits)
  let tail := if fraction.isEmpty then if pointKept then ['.', '0'] else [] else '.' :: fraction
  String.ofList (whole ++ tail)

/-- One digit before the point and a signed exponent, the plus sign included. -/
def scientific (d : Digits) : String :=
  let tail := if d.digits.length ≤ 1 then [] else '.' :: d.digits.drop 1
  let sign := if d.lead < 0 then "-" else "+"
  String.ofList (d.digits.take 1 ++ tail) ++ "e" ++ sign ++ toString d.lead.natAbs

end Digits

def signText (negative : Bool) : String :=
  if negative then "-" else ""

def nanText : String := "NaN"

def infinityText (negative : Bool) : String :=
  signText negative ++ "inf"

def write (layout : Layout) (v : Float) : String :=
  match Binary.ofFloat v with
  | .nan => nanText
  | .infinite negative => infinityText negative
  | .finite negative m e =>
    let d := if m = 0 then .zero else shortest layout.tie m e
    signText negative ++
      if layout.positional d.lead then d.positional layout.pointKept else d.scientific

/-- Plain numbers: never an exponent, no point in a whole number, halves up. -/
def plainLayout : Layout :=
  { tie := .up, positional := fun _ => true, pointKept := false }

def plain (v : Float) : String :=
  write plainLayout v

/-! ### A given number of places -/

/-- `n` with a point before its last `places` digits. -/
def pointed (n places : Nat) : String :=
  let digits := Nat.toDigits 10 n
  let padded := List.replicate (places + 1 - digits.length) '0' ++ digits
  let whole := padded.length - places
  String.ofList (padded.take whole ++ if places = 0 then [] else '.' :: padded.drop whole)

/-- `v` with `places` digits after the point. -/
def fixed (places : Nat) (v : Float) : String :=
  match Binary.ofFloat v with
  | .nan => nanText
  | .infinite negative => infinityText negative
  | .finite negative m e =>
    let (num, den) := Binary.quotient m e
    signText negative ++ pointed (roundDiv .even (num * Nat.pow 10 places) den) places

/-- `v` with one digit before the point, `places` after it, and an exponent. -/
def scientific (places : Nat) (v : Float) : String :=
  match Binary.ofFloat v with
  | .nan => nanText
  | .infinite negative => infinityText negative
  | .finite negative m e =>
    let (num, den) := Binary.quotient m e
    if m = 0 then signText negative ++ pointed 0 places ++ "e0"
    else
      let lead := leadExponent num den
      let (scaled, unit) := shiftTen num den (places - lead)
      let rounded := roundDiv .even scaled unit
      if rounded < Nat.pow 10 (places + 1) then
        signText negative ++ pointed rounded places ++ "e" ++ toString lead
      else
        signText negative ++ pointed (rounded / 10) places ++ "e" ++ toString (lead + 1)

/-- `text` with blanks before it, up to `width` characters. -/
def padLeft (width : Nat) (text : String) : String :=
  String.ofList (List.replicate (width - text.length) ' ') ++ text

end BranchBound.Decimal
