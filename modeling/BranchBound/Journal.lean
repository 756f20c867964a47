import BranchBound.Decimal.Layout
import BranchBound.Relaxation

/-!
# Journal

What the solver reports while it runs. An `Event` holds the facts; `message`
gives the wording and `level` the severity.
-/

namespace BranchBound

/-- Severity of an event, most severe first. -/
inductive Level where
  | warn
  | info
  | debug
  | trace
  deriving DecidableEq, Repr

namespace Level

def rank : Level → Nat
  | warn => 0
  | info => 1
  | debug => 2
  | trace => 3

def name : Level → String
  | warn => "WARN"
  | info => "INFO"
  | debug => "DEBUG"
  | trace => "TRACE"

end Level

/-- Something worth telling. An absent incumbent objective stands for positive infinity. -/
inductive Event (α : Type) where
  | phaseOneUnbounded (pivots : Nat)
  | phaseOneFinished (pivots : Nat) (infeasibility : α)
  | rayFound (pivots : Nat)
  | optimumFound (pivots : Nat) (objective : α)
  | relaxationSolved (index rows : Nat) (answer : Relaxation α) (pivots : Nat)
  | searchStarted (vars rows maxNodes : Nat) (tolerance : α)
  | nodeLimitReached (limit left : Nat)
  | nodeClosed (node depth : Nat) (outcome : Outcome)
  | nodePruned (node depth : Nat) (bound : α) (incumbent : Option α)
  | incumbentFound (node depth : Nat) (objective : α)
  | nodeBranched (node depth var : Nat) (value : α)
  | progress (explored waiting : Nat) (incumbent : Option α) (depth : Nat)
  | searchFinished (outcome : Outcome) (incumbent : Option α) (explored pruned : Nat)
  | relaxationsSolved (solves pivots : Nat)
  | programLoaded (rows vars : Nat)
  | solveFinished (outcome : Outcome) (explored : Nat)
  deriving DecidableEq, Repr

namespace Event

variable {α : Type}

def level : Event α → Level
  | phaseOneUnbounded .. => .warn
  | phaseOneFinished .. => .trace
  | rayFound .. => .trace
  | optimumFound .. => .trace
  | relaxationSolved .. => .trace
  | searchStarted .. => .info
  | nodeLimitReached .. => .info
  | nodeClosed .. => .debug
  | nodePruned .. => .debug
  | incumbentFound .. => .info
  | nodeBranched .. => .debug
  | progress .. => .info
  | searchFinished .. => .info
  | relaxationsSolved .. => .debug
  | programLoaded .. => .info
  | solveFinished .. => .info

/-- Objective values are written with six places and an exponent. -/
def objectiveText (v : Float) : String :=
  Decimal.scientific 6 v

def incumbentText : Option Float → String
  | some v => objectiveText v
  | none => Decimal.infinityText false

def nodeText (node depth : Nat) : String :=
  s!"node {node} (depth {depth})"

/-- The wording of an event; the end of a search tells the time it took. -/
def message (elapsedMs : Nat) : Event Float → String
  | phaseOneUnbounded pivots =>
    s!"simplex: phase 1 reported unbounded after {pivots} pivots"
  | phaseOneFinished pivots infeasibility =>
    s!"simplex: phase 1 finished after {pivots} pivots, infeasibility " ++
      Decimal.scientific 3 infeasibility
  | rayFound pivots =>
    s!"simplex: unbounded ray found after {pivots} pivots"
  | optimumFound pivots objective =>
    s!"simplex: optimal after {pivots} pivots, obj=" ++ objectiveText objective
  | relaxationSolved index rows answer pivots =>
    s!"LP {index} ({rows} rows): " ++ answer.outcome.title ++
      s!" after {pivots} pivots, obj=" ++ answer.objectiveText objectiveText
  | searchStarted vars rows maxNodes tolerance =>
    s!"B&B: {vars} vars, {rows} rows, max_nodes={maxNodes}, int_tol=" ++
      Decimal.scientific 1 tolerance
  | nodeLimitReached limit left =>
    s!"B&B: node limit {limit} reached, {left} nodes left unexplored"
  | nodeClosed node depth outcome =>
    nodeText node depth ++ ": relaxation " ++ outcome.tag
  | nodePruned node depth bound incumbent =>
    nodeText node depth ++ ": pruned, bound " ++ objectiveText bound ++
      " >= incumbent " ++ incumbentText incumbent
  | incumbentFound node depth objective =>
    "New incumbent at " ++ nodeText node depth ++ ": obj=" ++ objectiveText objective
  | nodeBranched node depth var value =>
    nodeText node depth ++ s!": branching on x[{var}] = " ++ Decimal.fixed 6 value
  | progress explored waiting incumbent depth =>
    "Nodes: " ++ Decimal.padLeft 6 (toString explored) ++
      " | Open: " ++ Decimal.padLeft 5 (toString waiting) ++
      " | Incumbent: " ++ Decimal.padLeft 12 (incumbentText incumbent) ++
      s!" | Depth: {depth}"
  | searchFinished outcome incumbent explored pruned =>
    "B&B finished: status=" ++ outcome.name ++ ", obj=" ++ incumbentText incumbent ++
      s!", nodes={explored}, pruned={pruned}, time={elapsedMs}ms"
  | relaxationsSolved solves pivots =>
    s!"ILP solve: {solves} LPs, {pivots} simplex pivots"
  | programLoaded rows vars =>
    s!"Loaded problem: {rows} constraints, {vars} variables"
  | solveFinished outcome explored =>
    "Solve finished with status " ++ outcome.name ++ s!" after {explored} nodes"

def line (elapsedMs : Nat) (e : Event Float) : String :=
  "[" ++ e.level.name ++ "] " ++ e.message elapsedMs

end Event

/-- The lines of the events that are at least as severe as `level`. -/
def Journal.lines (level : Level) (elapsedMs : Nat) (events : List (Event Float)) : List String :=
  (events.filter fun e => e.level.rank ≤ level.rank).map (Event.line elapsedMs)

end BranchBound
