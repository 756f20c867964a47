/-!
# Search counters

What a search counts on its way.
-/

namespace BranchBound.Search

structure Counters where
  /-- Relaxations solved. -/
  explored : Nat := 0
  /-- Nodes whose bound could not beat the incumbent. -/
  pruned : Nat := 0
  /-- Nodes with two children. -/
  branched : Nat := 0
  /-- Nodes with a whole relaxation. -/
  integral : Nat := 0
  infeasible : Nat := 0
  unbounded : Nat := 0
  /-- Nodes that a pivot or node budget cut off. -/
  limited : Nat := 0
  /-- Improvements of the incumbent. -/
  updates : Nat := 0
  maxDepth : Nat := 0
  /-- Most nodes held at once. -/
  peakNodes : Nat := 0
  nodeLimitReached : Bool := false
  deriving DecidableEq, Repr

end BranchBound.Search
