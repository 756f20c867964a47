import BranchBound.Scalar

/-!
# Rational scalars

Exact arithmetic: every comparison is total, every scalar is finite and lies
below positive infinity.
-/

namespace BranchBound

def Rational.half : Rat :=
  mkRat 1 2

def Rational.round (v : Rat) : Rat :=
  if v.blt (Rat.ofInt 0) then Rat.neg (Rat.ofInt (Rat.floor (Rat.add (Rat.neg v) Rational.half)))
  else Rat.ofInt (Rat.floor (Rat.add v Rational.half))

instance : Scalar Rat where
  add := Rat.add
  sub := Rat.sub
  mul := Rat.mul
  div := Rat.div
  neg := Rat.neg
  zero := Rat.ofInt 0
  one := Rat.ofInt 1
  ofScientific := Rat.ofScientific
  lt := Rat.blt
  le a b := !b.blt a
  eq a b := a == b
  max a b := if b.blt a then a else b
  abs a := if a.blt (Rat.ofInt 0) then Rat.neg a else a
  round := Rational.round
  ceil a := Rat.ofInt (Rat.ceil a)
  floor a := Rat.ofInt (Rat.floor a)
  isFinite _ := true
  isTop _ := false
  belowTop _ := true

end BranchBound
