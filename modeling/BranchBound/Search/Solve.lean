import BranchBound.Oracle.Simplex
import BranchBound.Search.Controller

/-!
# Solving integer programs

`Controller.solve` checks its input, starts afresh and searches. `solve` is the
search with the simplex oracle.
-/

namespace BranchBound.Search

structure Solve (σ α : Type) where
  result : Except (Error α) (Solution α)
  controller : Controller α
  oracle : σ
  log : List (Event α)

variable {σ α : Type} [Scalar α]

namespace Controller

def reset (c : Controller α) (vars : Nat) : Controller α :=
  { settings := c.settings, incumbent := .empty vars }

/-- Solves a program with `oracle` started from `state`. Invalid settings or an invalid program
leave the controller as it was. -/
def solve (c : Controller α) (p : Integer.Program α) (oracle : Oracle σ α) (state : σ) :
    Solve σ α :=
  if !c.settings.isValid then ⟨.error (.invalidTolerance c.settings.intTol), c, state, []⟩
  else match p.fault? with
    | some fault => ⟨.error (.invalidProgram fault), c, state, []⟩
    | none =>
      match (search p oracle).run { controller := c.reset p.vars, oracle := state } with
      | .ok solution frame =>
        ⟨.ok solution, frame.controller, frame.oracle, frame.log.toList⟩
      | .error e frame => ⟨.error e, frame.controller, frame.oracle, frame.log.toList⟩

end Controller

/-- Solves a program with relaxations by the simplex method. -/
def solve (p : Integer.Program α) (settings : Integer.Settings α) : Solve Oracle.Tally α :=
  let solved := (Controller.ofSettings settings).solve p (Oracle.simplex settings.linear) {}
  match solved.result with
  | .ok _ =>
    { solved with
      log := solved.log ++ [.relaxationsSolved solved.oracle.solves solved.oracle.pivots] }
  | .error _ => solved

end BranchBound.Search
