import BranchBound.Error
import BranchBound.Integer.System
import BranchBound.Journal

/-!
# Relaxation oracles

An oracle solves the continuous relaxation of a system. It may carry a state of
any type from call to call and may add to the journal.
-/

namespace BranchBound

structure Reply (σ α : Type) where
  result : Except (Error α) (Relaxation α)
  state : σ
  log : List (Event α)

/-- Solves the relaxation of a system from a state. -/
abbrev Oracle (σ α : Type) :=
  σ → Integer.System α → Reply σ α

namespace Oracle

variable {σ α : Type}

/-- A call of an oracle: the branch rows it saw, and its answer unless it failed. -/
structure Call (α : Type) where
  system : Integer.System α
  answer : Option (Relaxation α)

/-- The oracle with its calls recorded, latest first. -/
def recorded (oracle : Oracle σ α) : Oracle (σ × List (Call α)) α :=
  fun (state, calls) system =>
    let reply := oracle state system
    { result := reply.result
      state := (reply.state, ⟨system, reply.result.toOption⟩ :: calls)
      log := reply.log }

/-- The given answers one after the other, then those of `next`. -/
def scripted (next : Oracle σ α) : Oracle (List (Relaxation α) × σ) α :=
  fun (script, state) system =>
    match script with
    | answer :: rest => { result := .ok answer, state := (rest, state), log := [] }
    | [] =>
      let reply := next state system
      { result := reply.result, state := ([], reply.state), log := reply.log }

def failing (reason : String) : Oracle σ α :=
  fun state _ => { result := .error (.oracleFailed reason), state, log := [] }

/-- An answer that depends on the number of branch rows alone. -/
def byDepth (answer : Nat → Relaxation α) : Oracle σ α :=
  fun state system => { result := .ok (answer system.branches.length), state, log := [] }

end Oracle

end BranchBound
