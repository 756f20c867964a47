import BranchBound.Decimal.Layout
import BranchBound.Integer.BranchRow
import BranchBound.Integer.Program
import BranchBound.Linear.Program

/-!
# Errors

Why a solve was stopped. An infeasible, unbounded or unfinished problem is an
outcome and no error.
-/

namespace BranchBound

/-- A broken invariant of the search. -/
inductive InternalFault where
  | unknownNode (id : Nat)
  | outOfOrder (id expected : Nat)
  | unresolvedRoot
  | cyclicRows
  deriving DecidableEq, Repr

def InternalFault.message : InternalFault → String
  | .unknownNode id => s!"unknown node {id}"
  | .outOfOrder id expected => s!"node {id} created out of order (expected {expected})"
  | .unresolvedRoot => "search ended without resolving the root"
  | .cyclicRows => "branch rows form a cycle"

/-- Why a solve was stopped. -/
inductive Error (α : Type) where
  | invalidProgram (fault : Integer.Fault)
  | invalidTolerance (tolerance : α)
  /-- An oracle gave up, for a reason of its own. -/
  | oracleFailed (reason : String)
  /-- An oracle answered with a point of the wrong length. -/
  | wrongLength (values vars : Nat)
  | internal (fault : InternalFault)
  | invalidRelaxation (fault : Linear.Fault)
  | outOfRange (fault : Integer.OutOfRange)
  deriving DecidableEq, Repr

namespace Error

def message : Error Float → String
  | invalidProgram fault => fault.message
  | invalidTolerance tolerance =>
    "Invalid settings: int_tol must be in [0, 0.5), got " ++ Decimal.plain tolerance
  | oracleFailed reason => "Oracle failed: " ++ reason
  | wrongLength values vars =>
    s!"Oracle failed: relaxation returned {values} values for {vars} variables"
  | internal fault => "Internal error: " ++ fault.message
  | invalidRelaxation fault => "LP solver error: " ++ fault.message
  | outOfRange fault => fault.message

/-- The message of an error, then those of its causes. -/
def messages (e : Error Float) : List String :=
  match e with
  | invalidRelaxation fault => [e.message, fault.message]
  | _ => [e.message]

end Error

end BranchBound
