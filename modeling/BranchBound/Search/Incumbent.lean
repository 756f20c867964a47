import BranchBound.Scalar

/-!
# Incumbents

The best integer point found so far. Before the first there is no objective,
which counts as positive infinity, and the point is zero.
-/

namespace BranchBound.Search

structure Incumbent (α : Type) where
  objective : Option α
  point : List α
  deriving DecidableEq, Repr

namespace Incumbent

variable {α : Type} [Scalar α]

def empty (vars : Nat) : Incumbent α :=
  ⟨none, List.replicate vars 0⟩

def improvedBy (i : Incumbent α) (objective : α) : Bool :=
  match i.objective with
  | none => Scalar.belowTop objective
  | some best => Scalar.lt objective best

/-- Whether a subtree with this bound cannot hold a better point. -/
def dominates (i : Incumbent α) (bound : α) : Bool :=
  match i.objective with
  | none => Scalar.isTop bound
  | some best => Scalar.le best bound

/-- The better of the incumbent and `x`; an equal one does not replace it. -/
def update (i : Incumbent α) (objective : α) (x : List α) : Incumbent α :=
  if i.improvedBy objective then ⟨some objective, x⟩ else i

end Incumbent

end BranchBound.Search
