import BranchBound.Journal
import BranchBound.Linear.Tableau

/-!
# Two-phase simplex

Phase one minimises the sum of the artificial variables, phase two the
objective of the program with the artificial columns barred. Both take the
lowest column with a negative reduced cost and share one budget of pivots.
-/

namespace BranchBound.Linear

structure Settings (α : Type) where
  /-- Pivots over both phases. -/
  maxPivots : Nat
  /-- Entries up to this size count as zero. -/
  pivotTol : α
  /-- The relative size from which a phase one optimum means that there is no point. -/
  feasTol : α
  deriving DecidableEq, Repr

variable {α : Type} [Scalar α]

def Settings.default : Settings α :=
  { maxPivots := 10000, pivotTol := 1e-9, feasTol := 1e-7 }

inductive PhaseEnd where
  | optimal
  | unbounded
  | outOfPivots
  deriving DecidableEq, Repr

/-- The end of a phase, its last tableau and the pivots made so far. -/
structure Phase (α : Type) where
  finish : PhaseEnd
  tableau : Tableau α
  pivots : Nat
  deriving DecidableEq, Repr

/-- Pivots until no column below `limit` can enter, none can leave, or `budget` is spent. -/
def runPhase (limit : Nat) (tol : α) (budget pivots : Nat) (t : Tableau α) : Phase α :=
  match t.entering limit tol with
  | none => ⟨.optimal, t, pivots⟩
  | some col =>
    match budget with
    | 0 => ⟨.outOfPivots, t, pivots⟩
    | budget + 1 =>
      match t.ratioTest col tol with
      | none => ⟨.unbounded, t, pivots⟩
      | some row => runPhase limit tol budget (pivots + 1) (t.pivot row col)

/-- An answer and the pivots that both phases made for it. -/
structure Solution (α : Type) where
  answer : Relaxation α
  pivots : Nat
  deriving DecidableEq, Repr

/-- A solution, the further pivots that drove artificial variables out, and the journal. -/
structure Run (α : Type) where
  solution : Solution α
  driven : Nat
  log : List (Event α)
  deriving DecidableEq, Repr

namespace Program

/-- The size of the right-hand sides, against which infeasibility is measured. -/
def scale (p : Program α) : α :=
  1 + Scalar.largest 0 (p.rhs.map Scalar.abs)

def basicSolution (p : Program α) (t : Tableau α) : α × List α :=
  let x := t.primal p.objective.length
  (Scalar.dot p.objective x, x)

def cutShort (p : Program α) (t : Tableau α) : Relaxation α :=
  let (objective, x) := p.basicSolution t
  .iterationLimit objective x

def artificialCost (t : Tableau α) (col : Nat) : α :=
  if t.artificial ≤ col then 1 else 0

def structuralCost (p : Program α) (col : Nat) : α :=
  if col < p.objective.length then p.objective.getD col 0 else 0

/-- Minimises the objective from the feasible tableau `t`, after `pivots` pivots. -/
def phaseTwo (p : Program α) (s : Settings α) (t : Tableau α) (pivots driven : Nat)
    (log : List (Event α)) : Run α :=
  let phase := runPhase t.artificial s.pivotTol (s.maxPivots - pivots) pivots
    (t.price p.structuralCost)
  match phase.finish with
  | .optimal =>
    let (objective, x) := p.basicSolution phase.tableau
    ⟨⟨.optimal objective x, phase.pivots⟩, driven,
      log ++ [.optimumFound phase.pivots objective]⟩
  | .outOfPivots => ⟨⟨p.cutShort phase.tableau, phase.pivots⟩, driven, log⟩
  | .unbounded => ⟨⟨.unbounded, phase.pivots⟩, driven, log ++ [.rayFound phase.pivots]⟩

/-- Minimises the artificial variables of `t`, then the objective. -/
def phaseOne (p : Program α) (s : Settings α) (t : Tableau α) : Run α :=
  let phase := runPhase t.columns s.pivotTol s.maxPivots 0 (t.price (artificialCost t))
  match phase.finish with
  | .outOfPivots => ⟨⟨p.cutShort phase.tableau, phase.pivots⟩, 0, []⟩
  | .unbounded =>
    ⟨⟨p.cutShort phase.tableau, phase.pivots⟩, 0, [.phaseOneUnbounded phase.pivots]⟩
  | .optimal =>
    let infeasibility := phase.tableau.objective
    let log := [.phaseOneFinished phase.pivots infeasibility]
    if Scalar.lt (s.feasTol * p.scale) infeasibility then
      ⟨⟨.infeasible, phase.pivots⟩, 0, log⟩
    else
      let (feasible, driven) := phase.tableau.driveOut s.pivotTol
      p.phaseTwo s feasible phase.pivots driven log

/-- Solves a program without faults; every end is an answer. -/
def run (p : Program α) (s : Settings α) : Run α :=
  let t := Tableau.build p
  if t.hasArtificials then p.phaseOne s t else p.phaseTwo s t 0 0 []

/-- Solves a program, or names its first fault. -/
def solve (p : Program α) (s : Settings α) : Except Fault (Run α) :=
  match p.fault? with
  | some fault => .error fault
  | none => .ok (p.run s)

end Program

end BranchBound.Linear
