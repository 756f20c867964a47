import BranchBound.Scalar

/-!
# Integer programs

Minimise `objective · x` over the integer points with `rows x ≤ rhs` and
`x ≥ 0`. A search never changes these rows.
-/

namespace BranchBound.Integer

/-- An integer program in inequality form. -/
structure Program (α : Type) where
  rows : List (List α)
  rhs : List α
  objective : List α
  deriving DecidableEq, Repr

inductive Fault where
  | emptyObjective
  | rowCount (rows entries : Nat)
  | rowLength (row length expected : Nat)
  | rowNotFinite (row : Nat)
  | rhsNotFinite
  | objectiveNotFinite
  deriving DecidableEq, Repr

def Fault.message : Fault → String
  | .emptyObjective => "Invalid problem: objective vector is empty"
  | .rowCount rows entries =>
    s!"Invalid problem: A has {rows} rows but b has {entries} entries"
  | .rowLength row length expected =>
    s!"Invalid problem: row {row} has {length} coefficients, expected {expected}"
  | .rowNotFinite row => s!"Invalid problem: row {row} has a non-finite coefficient"
  | .rhsNotFinite => "Invalid problem: b has a non-finite entry"
  | .objectiveNotFinite => "Invalid problem: c has a non-finite entry"

namespace Program

variable {α : Type} [Scalar α]

def vars (p : Program α) : Nat :=
  p.objective.length

def rowFault? (vars : Nat) (row : List α) (index : Nat) : Option Fault :=
  if row.length ≠ vars then some (.rowLength index row.length vars)
  else if row.any fun v => !Scalar.isFinite v then some (.rowNotFinite index)
  else none

def fault? (p : Program α) : Option Fault :=
  if p.vars = 0 then some .emptyObjective
  else if p.rhs.length ≠ p.rows.length then some (.rowCount p.rows.length p.rhs.length)
  else
    (p.rows.zipIdx.findSome? fun (row, index) => rowFault? p.vars row index).or <|
      if p.rhs.any fun v => !Scalar.isFinite v then some .rhsNotFinite
      else if p.objective.any fun v => !Scalar.isFinite v then some .objectiveNotFinite
      else none

def value (p : Program α) (x : List α) : α :=
  Scalar.dot p.objective x

/-- Whether `x` has the right length and satisfies the rows and `x ≥ 0` within `tol`. -/
def holdsAt (p : Program α) (x : List α) (tol : α) : Bool :=
  x.length = p.vars && (x.all fun v => !Scalar.lt v (-tol)) &&
    (p.rows.zip p.rhs).all fun (row, rhs) => Scalar.le (Scalar.dot row x) (rhs + tol)

end Program

end BranchBound.Integer
