import BranchBound.Outcome
import BranchBound.Search.RowStore

/-!
# Search nodes

A node knows its place in the tree, the last branch row on its path and the
outcomes of its children. Its id is its position in the list of open nodes; the
ids of a resolved subtree are handed out again.
-/

namespace BranchBound.Search

open Integer (BranchRow Side)

inductive NodeStatus where
  | pending
  | pruned
  | integral
  | branched
  | infeasible
  | unbounded
  | iterationLimit
  /-- Left unexplored when the node budget ran out. -/
  | nodeLimit
  deriving DecidableEq, Repr

def NodeStatus.tag : NodeStatus → String
  | .pending => "Pending"
  | .pruned => "Pruned"
  | .integral => "Integral"
  | .branched => "Branched"
  | .infeasible => "Infeasible"
  | .unbounded => "Unbounded"
  | .iterationLimit => "IterationLimit"
  | .nodeLimit => "NodeLimit"

structure Node (α : Type) where
  id : Nat
  parent : Option Nat := none
  /-- The side of the parent's split that the node is on. -/
  side : Option Side := none
  depth : Nat := 0
  /-- The position of the last branch row on the path to the node. -/
  tip : Option Nat := none
  /-- The child on the ceil side, which the other child follows. -/
  firstChild : Option Nat := none
  status : NodeStatus := .pending
  /-- The objective value of the relaxation, that of the parent until it is solved. -/
  bound : Option α := none
  ceilOutcome : Option Outcome := none
  floorOutcome : Option Outcome := none
  deriving DecidableEq, Repr

namespace Node

variable {α : Type}

def root : Node α := { id := 0 }

/-- A pending child of `n` whose last branch row is at `tip`. -/
def child (n : Node α) (id : Nat) (side : Side) (tip : Nat) : Node α :=
  { id, parent := some n.id, side := some side, depth := n.depth + 1, tip := some tip,
    bound := n.bound }

/-- The node with the outcome of a child, and its own outcome once it has both. -/
def record (n : Node α) (side : Side) (outcome : Outcome) : Node α × Option Outcome :=
  let n := match side with
    | .ceil => { n with ceilOutcome := some outcome }
    | .floor => { n with floorOutcome := some outcome }
  match n.ceilOutcome, n.floorOutcome with
  | some ceil, some floor => (n, some (ceil.combine floor))
  | _, _ => (n, none)

end Node

structure Factory where
  nextId : Nat := 1
  deriving DecidableEq, Repr

/-- The two children of a node, with the store and the factory after their creation. -/
structure Split (α : Type) where
  ceil : Node α
  floor : Node α
  store : RowStore α
  factory : Factory

namespace Factory

variable {α : Type} [Scalar α]

/-- Hands ids out again from `start` on. -/
def release (_ : Factory) (start : Nat) : Factory :=
  ⟨start⟩

/-- Splits `parent` at `x[var] = value`, its rows on the two sides going below its last one. -/
def split (f : Factory) (store : RowStore α) (parent : Node α) (var : Nat) (value : α) :
    Split α :=
  let (store, ceilRow) := store.push (BranchRow.split .ceil var value) parent.tip
  let (store, floorRow) := store.push (BranchRow.split .floor var value) parent.tip
  { ceil := parent.child f.nextId .ceil ceilRow
    floor := parent.child (f.nextId + 1) .floor floorRow
    store
    factory := ⟨f.nextId + 2⟩ }

end Factory

end BranchBound.Search
