import BranchBound.Integer.BranchRow

/-!
# Row stores

Branch rows in the order of their creation, each linked to the last row on the
path of its node's parent. The rows of a node are the chain of links from its
last row; siblings share the chain of their parent.
-/

namespace BranchBound.Search

open Integer (BranchRow)

/-- A branch row and the position of the row before it on its path. -/
structure LinkedRow (α : Type) where
  row : BranchRow α
  parent : Option Nat
  deriving DecidableEq, Repr

/-- The branch rows of the open nodes, oldest first. -/
structure RowStore (α : Type) where
  rows : Array (LinkedRow α) := #[]
  deriving DecidableEq, Repr

namespace RowStore

variable {α : Type}

def empty : RowStore α := {}

def push (s : RowStore α) (row : BranchRow α) (parent : Option Nat) : RowStore α × Nat :=
  (⟨s.rows.push ⟨row, parent⟩⟩, s.rows.size)

def truncate (s : RowStore α) (start : Nat) : RowStore α :=
  ⟨s.rows.take start⟩

/-- Follows at most `fuel` links from `tip` and puts the rows before `found`. -/
def walk (s : RowStore α) (fuel : Nat) (tip : Option Nat) (found : List (BranchRow α)) :
    Option (List (BranchRow α)) :=
  match tip with
  | none => some found
  | some id =>
    match s.rows[id]? with
    | none => some found
    | some linked =>
      match fuel with
      | 0 => none
      | fuel + 1 => s.walk fuel linked.parent (linked.row :: found)

/-- The rows from the root down to `tip`; a position past the end has none.

There are none to give if the links form a cycle, which takes more steps than there are rows. -/
def chain? (s : RowStore α) (tip : Option Nat) : Option (List (BranchRow α)) :=
  s.walk s.rows.size tip []

end RowStore

end BranchBound.Search
