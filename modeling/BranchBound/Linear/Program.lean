import BranchBound.Scalar

/-!
# Linear programs

Minimise `objective · x` subject to `rows x ≤ rhs` and `x ≥ 0`. `fault?` finds
the first reason why the data describe no such program.
-/

namespace BranchBound.Linear

/-- A linear program in inequality form, one list of coefficients for each row. -/
structure Program (α : Type) where
  objective : List α
  rows : List (List α)
  rhs : List α
  deriving DecidableEq, Repr

inductive Fault where
  | emptyObjective
  | rowCount (rows entries : Nat)
  | rowLength (row length expected : Nat)
  | rowNotFinite (row : Nat)
  | boundsNotFinite
  deriving DecidableEq, Repr

def Fault.message : Fault → String
  | .emptyObjective => "Invalid problem: empty objective vector"
  | .rowCount rows entries =>
    s!"Invalid problem: A has {rows} rows but b has {entries} entries"
  | .rowLength row length expected =>
    s!"Invalid problem: row {row} has {length} coefficients, expected {expected}"
  | .rowNotFinite row => s!"Invalid problem: row {row} has a non-finite coefficient"
  | .boundsNotFinite => "Invalid problem: b or c has a non-finite entry"

namespace Program

variable {α : Type} [Scalar α]

/-- The first fault of `rows`, which are counted from `index`. -/
def rowFault? (width : Nat) : Nat → List (List α) → Option Fault
  | _, [] => none
  | index, row :: rest =>
    if row.length ≠ width then some (.rowLength index row.length width)
    else if row.all Scalar.isFinite then rowFault? width (index + 1) rest
    else some (.rowNotFinite index)

def fault? (p : Program α) : Option Fault :=
  if p.objective.isEmpty then some .emptyObjective
  else if p.rows.length ≠ p.rhs.length then some (.rowCount p.rows.length p.rhs.length)
  else match rowFault? p.objective.length 0 p.rows with
    | some fault => some fault
    | none =>
      if (p.rhs ++ p.objective).all Scalar.isFinite then none else some .boundsNotFinite

/-- How far `x` is from satisfying the rows and `x ≥ 0`: zero if it does. -/
def maxViolation (p : Program α) (x : List α) : α :=
  let overRows := List.zipWith (fun row rhs => Scalar.dot row x - rhs) p.rows p.rhs
  let belowZero := x.map fun v => -v
  Scalar.max (Scalar.largest 0 overRows) (Scalar.largest 0 belowZero)

end Program

end BranchBound.Linear
