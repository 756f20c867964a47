import BranchBound.Linear.Program

/-!
# Simplex tableaux

A tableau holds the rows of a program as equations over its variables, one
slack for each row and one artificial variable for each row whose right-hand
side is negative, in this order of columns. Such a row is negated, so that the
tableau starts with right-hand sides from zero up.
-/

namespace BranchBound.Linear

/-- An entry for each column, and a right-hand side. -/
structure Line (α : Type) where
  coeffs : List α
  rhs : α
  deriving DecidableEq, Repr

/-- An equation and the column that it determines. -/
structure Row (α : Type) where
  line : Line α
  basic : Nat
  deriving DecidableEq, Repr

/-- The equations, and the reduced costs over minus the objective value. -/
structure Tableau (α : Type) where
  rows : List (Row α)
  cost : Line α
  columns : Nat
  /-- The first artificial column. -/
  artificial : Nat
  deriving DecidableEq, Repr

variable {α : Type} [Scalar α]

namespace Line

def entry (l : Line α) (col : Nat) : α :=
  l.coeffs.getD col 0

def divide (l : Line α) (p : α) : Line α :=
  ⟨l.coeffs.map (· / p), l.rhs / p⟩

/-- `l - factor * other`. -/
def subtract (l : Line α) (factor : α) (other : Line α) : Line α :=
  ⟨List.zipWith (fun v p => v - factor * p) l.coeffs other.coeffs, l.rhs - factor * other.rhs⟩

/-- Clears column `col` by `lead`, whose entry there is one. -/
def clear (l : Line α) (col : Nat) (lead : Line α) : Line α :=
  if Scalar.eq (l.entry col) 0 then l
  else
    let cleared := l.subtract (l.entry col) lead
    { cleared with coeffs := cleared.coeffs.set col 0 }

end Line

namespace Tableau

/-! ### The first tableau -/

/-- Row `index` of a program with `vars` variables; a negative right-hand side takes the
artificial column `art`. -/
def startRow (vars columns index art : Nat) (coeffs : List α) (rhs : α) : Row α :=
  let negative := Scalar.lt rhs 0
  let sign : α := if negative then -1 else 1
  let entry (j : Nat) : α :=
    if j < vars then sign * coeffs.getD j 0
    else if j = vars + index then sign
    else if negative ∧ j = art then 1
    else 0
  { line := ⟨(List.range columns).map entry, sign * rhs⟩
    basic := if negative then art else vars + index }

def startRows (vars columns : Nat) : Nat → Nat → List (List α × α) → List (Row α)
  | _, _, [] => []
  | index, art, (coeffs, rhs) :: rest =>
    startRow vars columns index art coeffs rhs ::
      startRows vars columns (index + 1) (if Scalar.lt rhs 0 then art + 1 else art) rest

def build (p : Program α) : Tableau α :=
  let vars := p.objective.length
  let artificial := vars + p.rhs.length
  let columns := artificial + p.rhs.countP (Scalar.lt · 0)
  { rows := startRows vars columns 0 artificial (p.rows.zip p.rhs)
    cost := ⟨List.replicate columns 0, 0⟩
    columns
    artificial }

def hasArtificials (t : Tableau α) : Bool :=
  t.artificial < t.columns

/-! ### Costs -/

/-- Clears the basic column of `row` from `cost`. -/
def priceOut (columnCost : Nat → α) (cost : Line α) (row : Row α) : Line α :=
  if Scalar.eq (columnCost row.basic) 0 then cost
  else cost.subtract (columnCost row.basic) row.line

/-- Loads a cost for each column and prices out the basic ones. -/
def price (t : Tableau α) (columnCost : Nat → α) : Tableau α :=
  { t with
    cost := t.rows.foldl (priceOut columnCost) ⟨(List.range t.columns).map columnCost, 0⟩ }

def objective (t : Tableau α) : α :=
  -t.cost.rhs

/-! ### Pivots -/

/-- Makes column `col` basic in row `row`. -/
def pivot (t : Tableau α) (row col : Nat) : Tableau α :=
  match t.rows[row]? with
  | none => t
  | some r =>
    let lead := r.line.divide (r.line.entry col)
    let change (other : Row α) (index : Nat) : Row α :=
      if index = row then ⟨lead, col⟩ else { other with line := other.line.clear col lead }
    { t with
      rows := t.rows.zipIdx.map fun (other, index) => change other index
      cost := t.cost.clear col lead }

/-- The first of the columns below `limit` whose reduced cost is negative. -/
def entering (t : Tableau α) (limit : Nat) (tol : α) : Option Nat :=
  (t.cost.coeffs.take limit).findIdx? fun v => Scalar.lt v (-tol)

/-- A row that may leave the basis, with its ratio. -/
structure Candidate (α : Type) where
  row : Nat
  basic : Nat
  ratio : α
  deriving DecidableEq, Repr

/-- Whether `c` has the smaller ratio, or within `tol` the same and the lower basic column. -/
def Candidate.improves (c best : Candidate α) (tol : α) : Bool :=
  Scalar.lt c.ratio (best.ratio - tol) ||
    (Scalar.le (Scalar.abs (c.ratio - best.ratio)) tol && c.basic < best.basic)

/-- The better of `best` and row `index`, which is passed over if its entry is not positive. -/
def Candidate.consider (col : Nat) (tol : α) (best : Option (Candidate α)) (row : Row α)
    (index : Nat) : Option (Candidate α) :=
  if Scalar.le (row.line.entry col) tol then best
  else
    let c : Candidate α := ⟨index, row.basic, Scalar.max (row.line.rhs / row.line.entry col) 0⟩
    match best with
    | none => some c
    | some b => if c.improves b tol then some c else some b

/-- The row that leaves when `col` enters: least ratio, ties by the lowest basic column. -/
def ratioTest (t : Tableau α) (col : Nat) (tol : α) : Option Nat :=
  (t.rows.zipIdx.foldl (fun best (row, index) => Candidate.consider col tol best row index)
    none).map Candidate.row

/-- The first structural column on which row `row` can drive its artificial variable out. -/
def outlet (t : Tableau α) (row : Nat) (tol : α) : Option Nat :=
  match t.rows[row]? with
  | none => none
  | some r =>
    if r.basic < t.artificial then none
    else (r.line.coeffs.take t.artificial).findIdx? fun v => Scalar.lt tol (Scalar.abs v)

/-- Drives the artificial variable of row `row` out of a tableau, counting the pivots.

A row without an outlet is redundant and keeps its artificial variable at zero. -/
def drive (tol : α) (state : Tableau α × Nat) (row : Nat) : Tableau α × Nat :=
  match state.1.outlet row tol with
  | none => state
  | some col => (state.1.pivot row col, state.2 + 1)

def driveOut (t : Tableau α) (tol : α) : Tableau α × Nat :=
  (List.range t.rows.length).foldl (drive tol) (t, 0)

/-- Sets the basic variable of `row` to its value, raised to zero. -/
def place (vars : Nat) (x : List α) (row : Row α) : List α :=
  if row.basic < vars then x.set row.basic (Scalar.max row.line.rhs 0) else x

/-- The basic solution on the first `vars` columns. -/
def primal (t : Tableau α) (vars : Nat) : List α :=
  t.rows.foldl (place vars) (List.replicate vars 0)

end Tableau

end BranchBound.Linear
