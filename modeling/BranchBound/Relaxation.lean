import BranchBound.Outcome

/-!
# Relaxations

The answer to a continuous problem: a point with its objective value, or the
reason why there is none.
-/

namespace BranchBound

inductive Relaxation (α : Type) where
  | optimal (objective : α) (point : List α)
  /-- The point reached when the pivot budget ran out. -/
  | iterationLimit (objective : α) (point : List α)
  | infeasible
  | unbounded
  deriving DecidableEq, Repr

namespace Relaxation

variable {α : Type}

def outcome : Relaxation α → Outcome
  | optimal _ _ => .optimal
  | iterationLimit _ _ => .iterationLimit
  | infeasible => .infeasible
  | unbounded => .unbounded

/-- The point of the answer, empty if there is none. -/
def point : Relaxation α → List α
  | optimal _ x => x
  | iterationLimit _ x => x
  | infeasible => []
  | unbounded => []

/-- The objective value written by `text`; infeasible is `inf` and unbounded `-inf`. -/
def objectiveText (text : α → String) : Relaxation α → String
  | optimal v _ => text v
  | iterationLimit v _ => text v
  | infeasible => "inf"
  | unbounded => "-inf"

end Relaxation

end BranchBound
