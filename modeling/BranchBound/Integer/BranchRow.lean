import BranchBound.Scalar

/-!
# Branch rows

Branching on `x[var] = v` adds one bound on a single variable: from `ceil v`
up, or from `floor v` down.
-/

namespace BranchBound.Integer

inductive Side where
  /-- `x[var] ≥ ceil v`, written `-x[var] ≤ -ceil v`. -/
  | ceil
  /-- `x[var] ≤ floor v`. -/
  | floor
  deriving DecidableEq, Repr

def Side.name : Side → String
  | .ceil => "ceil"
  | .floor => "floor"

structure OutOfRange where
  length : Nat
  index : Nat
  deriving DecidableEq, Repr

def OutOfRange.message (e : OutOfRange) : String :=
  s!"index out of bounds: the len is {e.length} but the index is {e.index}"

/-- A bound on one variable. -/
structure BranchRow (α : Type) where
  var : Nat
  side : Side
  bound : α
  deriving DecidableEq, Repr

namespace BranchRow

variable {α : Type} [Scalar α]

/-- The row of `side` for a split at `x[var] = value`. -/
def split (side : Side) (var : Nat) (value : α) : BranchRow α :=
  { var, side, bound := match side with
      | .ceil => Scalar.ceil value
      | .floor => Scalar.floor value }

def coefficient (r : BranchRow α) : α :=
  match r.side with
  | .ceil => -1
  | .floor => 1

def rhs (r : BranchRow α) : α :=
  r.coefficient * r.bound

/-- The row as `vars` coefficients. -/
def dense (r : BranchRow α) (vars : Nat) : Except OutOfRange (List α) :=
  if r.var < vars then .ok ((List.replicate vars 0).set r.var r.coefficient)
  else .error ⟨vars, r.var⟩

/-- Whether `x` satisfies the row within `tol`. -/
def holdsAt (r : BranchRow α) (x : List α) (tol : α) : Except OutOfRange Bool :=
  match x[r.var]? with
  | some v => .ok (Scalar.le (r.coefficient * v) (r.rhs + tol))
  | none => .error ⟨x.length, r.var⟩

end BranchRow

end BranchBound.Integer
