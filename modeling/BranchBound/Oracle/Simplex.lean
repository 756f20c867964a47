import BranchBound.Linear.Simplex
import BranchBound.Oracle

/-!
# The simplex oracle

Each call builds the dense linear program of the system and solves it.
-/

namespace BranchBound.Oracle

/-- The linear programs solved so far and their pivots. -/
structure Tally where
  solves : Nat := 0
  pivots : Nat := 0
  deriving DecidableEq, Repr

variable {α : Type} [Scalar α]

/-- Solves relaxations by the simplex method. A failed call is not counted. -/
def simplex (settings : Linear.Settings α) : Oracle Tally α :=
  fun tally system =>
    match system.dense with
    | .error fault => { result := .error (.outOfRange fault), state := tally, log := [] }
    | .ok (rows, rhs) =>
      match Linear.Program.solve ⟨system.program.objective, rows, rhs⟩ settings with
      | .error fault => { result := .error (.invalidRelaxation fault), state := tally, log := [] }
      | .ok run =>
        let tally : Tally := ⟨tally.solves + 1, tally.pivots + run.solution.pivots⟩
        { result := .ok run.solution.answer
          state := tally
          log := run.log ++ [.relaxationSolved tally.solves system.numRows
            run.solution.answer run.solution.pivots] }

end BranchBound.Oracle
