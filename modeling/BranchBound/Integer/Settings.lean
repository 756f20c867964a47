import BranchBound.Linear.Simplex

/-!
# Search settings

Budgets, tolerances and what is told on the way.
-/

namespace BranchBound.Integer

structure Settings (α : Type) where
  /-- Relaxations to solve; further nodes are left unexplored. -/
  maxNodes : Nat
  /-- How far a whole coordinate may be from an integer. -/
  intTol : α
  linear : Linear.Settings α
  /-- Whether the progress of the search is told. -/
  verbose : Bool
  /-- The number of nodes between two lines of progress, never if zero. -/
  logEvery : Nat
  deriving DecidableEq, Repr

namespace Settings

variable {α : Type} [Scalar α]

def default : Settings α :=
  { maxNodes := 10000, intTol := 1e-6, linear := .default, verbose := false, logEvery := 100 }

/-- The default settings with the progress of every node told. -/
def chatty : Settings α :=
  { Settings.default with verbose := true, logEvery := 1 }

/-- Whether the tolerance lies in `[0, 1/2)`.

Below zero no integer would be whole, and from a half on every number. -/
def isValid (s : Settings α) : Bool :=
  Scalar.le 0 s.intTol && Scalar.lt s.intTol 0.5

end Settings

end BranchBound.Integer
