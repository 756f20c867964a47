import BranchBound.Integer.BranchRow
import BranchBound.Integer.Program

/-!
# Constraint systems

The system of a node: the rows of the program, then the branch rows on the
path from the root.
-/

namespace BranchBound.Integer

/-- A program with the branch rows of a node. -/
structure System (α : Type) where
  program : Program α
  branches : List (BranchRow α)
  deriving DecidableEq, Repr

inductive SystemRow (α : Type) where
  | base (coeffs : List α) (rhs : α)
  | branch (row : BranchRow α)
  deriving DecidableEq, Repr

namespace SystemRow

variable {α : Type} [Scalar α]

/-- The coefficients and the right-hand side of a row. -/
def dense (vars : Nat) : SystemRow α → Except OutOfRange (List α × α)
  | base coeffs rhs => .ok (coeffs, rhs)
  | branch row => (row.dense vars).map fun coeffs => (coeffs, row.rhs)

end SystemRow

namespace System

variable {α : Type} [Scalar α]

def numRows (s : System α) : Nat :=
  s.program.rows.length + s.branches.length

def rows (s : System α) : List (SystemRow α) :=
  List.zipWith .base s.program.rows s.program.rhs ++ s.branches.map .branch

/-- The matrix and the right-hand sides of all rows. -/
def dense (s : System α) : Except OutOfRange (List (List α) × List α) :=
  (s.rows.mapM (SystemRow.dense s.program.vars)).map List.unzip

/-- Whether `x` satisfies every branch row within `tol`, up to the first that fails. -/
def branchesHoldAt (x : List α) (tol : α) : List (BranchRow α) → Except OutOfRange Bool
  | [] => .ok true
  | row :: rest =>
    match row.holdsAt x tol with
    | .ok true => branchesHoldAt x tol rest
    | failure => failure

/-- Whether `x` satisfies every row and `x ≥ 0` within `tol`. -/
def holdsAt (s : System α) (x : List α) (tol : α) : Except OutOfRange Bool :=
  if s.program.holdsAt x tol then branchesHoldAt x tol s.branches else .ok false

end System

end BranchBound.Integer
