/-!
# Outcomes

The four ways in which a relaxation, a subtree or a whole search ends. They are
ordered by their codes; `combine` folds the outcomes of two subtrees.
-/

namespace BranchBound

/-- How a relaxation, a subtree or a search ended. -/
inductive Outcome where
  /-- Fully resolved, possibly without an integer point. -/
  | optimal
  /-- A pivot or node budget ran out. -/
  | iterationLimit
  /-- No point satisfies the rows. -/
  | infeasible
  /-- The objective has no lower bound. -/
  | unbounded
  deriving DecidableEq, Repr

namespace Outcome

def code : Outcome → Nat
  | optimal => 0
  | iterationLimit => 1
  | infeasible => 2
  | unbounded => 3

/-- Whether `a` comes before `b` in the order of codes. -/
def before (a b : Outcome) : Bool :=
  a.code < b.code

/-- The outcome of a node from those of its children: optimal if either is, else the later. -/
def combine (a b : Outcome) : Outcome :=
  if a = optimal ∨ b = optimal then optimal
  else if a.before b then b
  else a

def name : Outcome → String
  | optimal => "optimal"
  | iterationLimit => "iteration_limit"
  | infeasible => "infeasible"
  | unbounded => "unbounded"

/-- The name used for a solved linear program. -/
def title : Outcome → String
  | optimal => "Optimal"
  | iterationLimit => "Iteration Limit"
  | infeasible => "Infeasible"
  | unbounded => "Unbounded"

/-- The name used for a node in the journal. -/
def tag : Outcome → String
  | optimal => "Optimal"
  | iterationLimit => "IterationLimit"
  | infeasible => "Infeasible"
  | unbounded => "Unbounded"

end Outcome

end BranchBound
