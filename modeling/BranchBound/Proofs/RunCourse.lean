import BranchBound.Proofs.PivotBudget
import BranchBound.Scalar.Double

/-!
# The course of a run

`run_course` says all that a run can do: phase one is cut short, phase one leaves no point, or phase two
goes on from its `Handover`. The pivots are followed as they are made, row and column of each
(`Program.moves`): made one after another from the first tableau they lead to the point of the answer. A run
counts those of its two phases (`solve_counts_pivots`) and not those in between, which drive artificial
variables out, so it can make more pivots than it tells and than it may (`solve_omits_pivots`).
-/

namespace BranchBound.Linear

variable {α : Type} [Scalar α]

namespace Program

open Tableau

/-! ### From phase to phase -/

def phaseOneEnd (p : Program α) (s : Settings α) : Phase α :=
  runPhase (build p).columns s.pivotTol s.maxPivots 0 ((build p).price (artificialCost (build p)))

/-- Whether a run comes to phase two: without phase one, or after an optimum of it within the tolerance. -/
def reachesPhaseTwo (p : Program α) (s : Settings α) : Bool :=
  !(build p).hasArtificials ||
    (p.phaseOneEnd s).finish = .optimal && !Scalar.lt (s.feasTol * p.scale) (p.phaseOneEnd s).tableau.objective

/-- Where phase two starts, with the pivots of phase one and those that drove artificial variables out. -/
structure Handover (α : Type) where
  tableau : Tableau α
  pivots : Nat
  driven : Nat

def handover (p : Program α) (s : Settings α) : Handover α :=
  if (build p).hasArtificials then
    let (tableau, driven) := (p.phaseOneEnd s).tableau.driveOut s.pivotTol
    ⟨tableau, (p.phaseOneEnd s).pivots, driven⟩
  else ⟨build p, 0, 0⟩

def phaseTwoEnd (p : Program α) (s : Settings α) : Phase α :=
  runPhase (p.handover s).tableau.artificial s.pivotTol (s.maxPivots - (p.handover s).pivots) (p.handover s).pivots
    ((p.handover s).tableau.price p.structuralCost)

inductive Course (p : Program α) (s : Settings α) : Run α → Prop
  | cut {log} (artificials : (build p).hasArtificials = true) (reaches : p.reachesPhaseTwo s = false)
      (ended : (p.phaseOneEnd s).finish ≠ .optimal) :
    Course p s ⟨⟨p.cutShort (p.phaseOneEnd s).tableau, (p.phaseOneEnd s).pivots⟩, 0, log⟩
  | refuted {log} (artificials : (build p).hasArtificials = true) (reaches : p.reachesPhaseTwo s = false)
      (ended : (p.phaseOneEnd s).finish = .optimal) :
    Course p s ⟨⟨.infeasible, (p.phaseOneEnd s).pivots⟩, 0, log⟩
  | optimal {log} (reaches : p.reachesPhaseTwo s = true) (ended : (p.phaseTwoEnd s).finish = .optimal) :
    Course p s ⟨⟨.optimal (p.basicSolution (p.phaseTwoEnd s).tableau).1 (p.basicSolution (p.phaseTwoEnd s).tableau).2,
      (p.phaseTwoEnd s).pivots⟩, (p.handover s).driven, log⟩
  | outOfPivots {log} (reaches : p.reachesPhaseTwo s = true) (ended : (p.phaseTwoEnd s).finish = .outOfPivots) :
    Course p s ⟨⟨p.cutShort (p.phaseTwoEnd s).tableau, (p.phaseTwoEnd s).pivots⟩, (p.handover s).driven, log⟩
  | unbounded {log} (reaches : p.reachesPhaseTwo s = true) (ended : (p.phaseTwoEnd s).finish = .unbounded) :
    Course p s ⟨⟨.unbounded, (p.phaseTwoEnd s).pivots⟩, (p.handover s).driven, log⟩

section Course
variable {p : Program α} {s : Settings α}

theorem reachesPhaseTwo_iff : p.reachesPhaseTwo s = true ↔ ((build p).hasArtificials = true →
    (p.phaseOneEnd s).finish = .optimal ∧
      Scalar.lt (s.feasTol * p.scale) (p.phaseOneEnd s).tableau.objective = false) := by
  unfold reachesPhaseTwo
  cases (build p).hasArtificials with
  | false => simp
  | true => simp

theorem phaseTwo_course (reaches : p.reachesPhaseTwo s = true) (log : List (Event α)) :
    Course p s (p.phaseTwo s (p.handover s).tableau (p.handover s).pivots (p.handover s).driven log) := by
  unfold phaseTwo
  dsimp only
  split
  · rename_i ended
    exact .optimal reaches ended
  · rename_i ended
    exact .outOfPivots reaches ended
  · rename_i ended
    exact .unbounded reaches ended

theorem run_course (p : Program α) (s : Settings α) : Course p s (p.run s) := by
  unfold run
  dsimp only
  split
  · rename_i artificials
    have handed : p.handover s = ⟨((p.phaseOneEnd s).tableau.driveOut s.pivotTol).1, (p.phaseOneEnd s).pivots,
        ((p.phaseOneEnd s).tableau.driveOut s.pivotTol).2⟩ := by
      unfold handover
      rw [if_pos artificials]
    unfold phaseOne
    dsimp only
    split
    · rename_i ended
      have ended : (p.phaseOneEnd s).finish = .outOfPivots := ended
      exact .cut artificials (by simp [reachesPhaseTwo, artificials, ended]) (by simp [ended])
    · rename_i ended
      have ended : (p.phaseOneEnd s).finish = .unbounded := ended
      exact .cut artificials (by simp [reachesPhaseTwo, artificials, ended]) (by simp [ended])
    · rename_i ended
      have ended : (p.phaseOneEnd s).finish = .optimal := ended
      split
      · rename_i above
        have above : Scalar.lt (s.feasTol * p.scale) (p.phaseOneEnd s).tableau.objective = true := above
        exact .refuted artificials (by simp [reachesPhaseTwo, artificials, above]) ended
      · rename_i notAbove
        have accepted : Scalar.lt (s.feasTol * p.scale) (p.phaseOneEnd s).tableau.objective = false :=
          Bool.eq_false_iff.mpr notAbove
        have next := phaseTwo_course (p := p) (s := s) (by simp [reachesPhaseTwo, ended, accepted])
          [.phaseOneFinished (p.phaseOneEnd s).pivots (p.phaseOneEnd s).tableau.objective]
        rw [handed] at next
        exact next
  · rename_i noArtificials
    have handed : p.handover s = ⟨build p, 0, 0⟩ := by
      unfold handover
      rw [if_neg noArtificials]
    have next := phaseTwo_course (p := p) (s := s) (by simp [reachesPhaseTwo, noArtificials]) []
    rw [handed] at next
    exact next

end Course

end Program

/-! ### Moves -/

namespace Tableau

/-- Pivots on the given rows and columns, one after another. -/
def replay (t : Tableau α) (moves : List (Nat × Nat)) : Tableau α :=
  moves.foldl (fun t move => t.pivot move.1 move.2) t

def phaseMoves (limit : Nat) (tol : α) (budget : Nat) (t : Tableau α) : List (Nat × Nat) :=
  match t.entering limit tol with
  | none => []
  | some col =>
    match budget with
    | 0 => []
    | budget + 1 =>
      match t.ratioTest col tol with
      | none => []
      | some row => (row, col) :: phaseMoves limit tol budget (t.pivot row col)

/-- The pivots that drive artificial variables out of the given rows. -/
def driveMoves (tol : α) : List Nat → Tableau α → List (Nat × Nat)
  | [], _ => []
  | row :: rest, t =>
    match t.outlet row tol with
    | none => driveMoves tol rest t
    | some col => (row, col) :: driveMoves tol rest (t.pivot row col)

section Moves
variable {t u : Tableau α} {tol : α}

theorem replay_append (t : Tableau α) (first second : List (Nat × Nat)) :
    t.replay (first ++ second) = (t.replay first).replay second :=
  List.foldl_append

theorem runPhase_replays (limit : Nat) (tol : α) (budget pivots : Nat) (t : Tableau α) :
    (runPhase limit tol budget pivots t).tableau = t.replay (t.phaseMoves limit tol budget) ∧
      (runPhase limit tol budget pivots t).pivots = pivots + (t.phaseMoves limit tol budget).length := by
  fun_induction runPhase limit tol budget pivots t with
  | case1 budget pivots t ended =>
    unfold phaseMoves
    rw [ended]
    exact ⟨rfl, rfl⟩
  | case2 pivots t col enters =>
    unfold phaseMoves
    rw [enters]
    exact ⟨rfl, rfl⟩
  | case3 pivots t col enters budget leaves =>
    unfold phaseMoves
    rw [enters]
    dsimp only
    rw [leaves]
    exact ⟨rfl, rfl⟩
  | case4 pivots t col enters budget row leaves ih =>
    unfold phaseMoves
    rw [enters]
    dsimp only
    rw [leaves]
    refine ⟨ih.1, ?_⟩
    rw [ih.2, List.length_cons]
    omega

theorem driveOut_replays (t : Tableau α) (tol : α) :
    t.driveOut tol = (t.replay (driveMoves tol (List.range t.rows.length) t),
      (driveMoves tol (List.range t.rows.length) t).length) := by
  have folded : ∀ (rows : List Nat) (t : Tableau α) (count : Nat), rows.foldl (drive tol) (t, count) =
      (t.replay (driveMoves tol rows t), count + (driveMoves tol rows t).length) := by
    intro rows
    induction rows with
    | nil => exact fun t count => rfl
    | cons row rest ih =>
      intro t count
      rw [List.foldl_cons, drive, driveMoves]
      dsimp only
      cases t.outlet row tol with
      | none => exact ih t count
      | some col =>
        dsimp only
        rw [ih, List.length_cons, Nat.add_assoc, Nat.add_comm 1]
        rfl
  have all := folded (List.range t.rows.length) t 0
  rw [Nat.zero_add] at all
  exact all

theorem driveMoves_eq_nil_iff {rows : List Nat} :
    driveMoves tol rows t = [] ↔ ∀ row ∈ rows, t.outlet row tol = none := by
  induction rows with
  | nil => simp [driveMoves]
  | cons row rest ih =>
    rw [driveMoves, List.forall_mem_cons, ← ih]
    cases t.outlet row tol with
    | none => simp
    | some col => simp

theorem length_driveMoves_le (tol : α) (rows : List Nat) (t : Tableau α) :
    (driveMoves tol rows t).length ≤ rows.length := by
  induction rows generalizing t with
  | nil => exact Nat.le_refl _
  | cons row rest ih =>
    rw [driveMoves]
    cases t.outlet row tol with
    | none => exact (ih t).trans (Nat.le_succ _)
    | some col => exact Nat.succ_le_succ (ih _)

theorem length_rows_replay (t : Tableau α) (moves : List (Nat × Nat)) :
    (t.replay moves).rows.length = t.rows.length := by
  induction moves generalizing t with
  | nil => rfl
  | cons move rest ih => exact (ih _).trans (length_rows_pivot _ _ _)

/-- What pivots make of the rows does not depend on the costs. -/
theorem rows_replay (same : t.rows = u.rows) (moves : List (Nat × Nat)) :
    (t.replay moves).rows = (u.replay moves).rows := by
  induction moves generalizing t u with
  | nil => exact same
  | cons move rest ih =>
    have pivoted : (t.pivot move.1 move.2).rows = (u.pivot move.1 move.2).rows := by
      unfold pivot
      rw [same]
      split
      · exact same
      · rfl
    exact ih pivoted

end Moves

end Tableau

namespace Program

open Tableau

/-- The pivots of a run in the order in which they are made. -/
structure Moves where
  phaseOne : List (Nat × Nat)
  driveOut : List (Nat × Nat)
  phaseTwo : List (Nat × Nat)
  deriving DecidableEq

def Moves.made (m : Moves) : List (Nat × Nat) :=
  m.phaseOne ++ m.driveOut ++ m.phaseTwo

def movesOfPhaseOne (p : Program α) (s : Settings α) : List (Nat × Nat) :=
  if (build p).hasArtificials then
    ((build p).price (artificialCost (build p))).phaseMoves (build p).columns s.pivotTol s.maxPivots
  else []

def movesBetween (p : Program α) (s : Settings α) : List (Nat × Nat) :=
  if (build p).hasArtificials then
    driveMoves s.pivotTol (List.range (p.phaseOneEnd s).tableau.rows.length) (p.phaseOneEnd s).tableau
  else []

def movesOfPhaseTwo (p : Program α) (s : Settings α) : List (Nat × Nat) :=
  ((p.handover s).tableau.price p.structuralCost).phaseMoves (p.handover s).tableau.artificial s.pivotTol
    (s.maxPivots - (p.handover s).pivots)

def moves (p : Program α) (s : Settings α) : Moves :=
  if p.reachesPhaseTwo s then ⟨p.movesOfPhaseOne s, p.movesBetween s, p.movesOfPhaseTwo s⟩
  else ⟨p.movesOfPhaseOne s, [], []⟩

/-- A basic artificial variable that phase one leaves is driven out. -/
def DrivesOut (p : Program α) (s : Settings α) : Prop :=
  (build p).hasArtificials = true ∧ p.reachesPhaseTwo s = true ∧
    ∃ row col, (p.phaseOneEnd s).tableau.outlet row s.pivotTol = some col

/-- An answer with a point has it from a tableau. -/
def ReadsOff (p : Program α) (t : Tableau α) : Relaxation α → Prop
  | .optimal objective x => p.basicSolution t = (objective, x)
  | .iterationLimit objective x => p.basicSolution t = (objective, x)
  | .infeasible => True
  | .unbounded => True

section Count
variable {p : Program α} {s : Settings α}

theorem basicSolution_of_rows (p : Program α) {t u : Tableau α} (same : t.rows = u.rows) :
    p.basicSolution t = p.basicSolution u := by
  unfold basicSolution primal
  rw [same]

theorem phaseOneEnd_replays (artificials : (build p).hasArtificials = true) :
    (p.phaseOneEnd s).tableau.rows = ((build p).replay (p.movesOfPhaseOne s)).rows ∧
      (p.phaseOneEnd s).pivots = (p.movesOfPhaseOne s).length := by
  obtain ⟨tableau, pivots⟩ := runPhase_replays (build p).columns s.pivotTol s.maxPivots 0
    ((build p).price (artificialCost (build p)))
  unfold movesOfPhaseOne
  rw [if_pos artificials]
  refine ⟨?_, pivots.trans (Nat.zero_add _)⟩
  show (runPhase _ _ _ _ _).tableau.rows = _
  rw [tableau]
  exact rows_replay (rows_price _ _) _

theorem handover_replays (p : Program α) (s : Settings α) :
    (p.handover s).tableau.rows = ((build p).replay (p.movesOfPhaseOne s ++ p.movesBetween s)).rows ∧
      (p.handover s).pivots = (p.movesOfPhaseOne s).length ∧ (p.handover s).driven = (p.movesBetween s).length := by
  by_cases artificials : (build p).hasArtificials = true
  · obtain ⟨rows, pivots⟩ := phaseOneEnd_replays (s := s) artificials
    have driven := driveOut_replays (p.phaseOneEnd s).tableau s.pivotTol
    unfold handover movesBetween
    rw [if_pos artificials, if_pos artificials, driven, replay_append]
    exact ⟨rows_replay rows _, pivots, rfl⟩
  · unfold handover movesOfPhaseOne movesBetween
    rw [if_neg artificials, if_neg artificials, if_neg artificials]
    exact ⟨rfl, rfl, rfl⟩

theorem phaseTwoEnd_replays (p : Program α) (s : Settings α) :
    (p.phaseTwoEnd s).tableau.rows =
        ((build p).replay (p.movesOfPhaseOne s ++ p.movesBetween s ++ p.movesOfPhaseTwo s)).rows ∧
      (p.phaseTwoEnd s).pivots = (p.movesOfPhaseOne s).length + (p.movesOfPhaseTwo s).length := by
  obtain ⟨rows, pivots, -⟩ := handover_replays p s
  obtain ⟨tableau, counted⟩ := runPhase_replays (p.handover s).tableau.artificial s.pivotTol
    (s.maxPivots - (p.handover s).pivots) (p.handover s).pivots ((p.handover s).tableau.price p.structuralCost)
  refine ⟨?_, ?_⟩
  · show (runPhase _ _ _ _ _).tableau.rows = _
    rw [tableau, replay_append]
    exact rows_replay ((rows_price _ _).trans rows) _
  · rw [← pivots]
    exact counted

/-- The moves of a run lead to its answer, and those of the two phases are the pivots that it counts. -/
theorem run_replays (p : Program α) (s : Settings α) :
    p.ReadsOff ((build p).replay (p.moves s).made) (p.run s).solution.answer ∧
      (p.run s).solution.pivots = (p.moves s).phaseOne.length + (p.moves s).phaseTwo.length ∧
      (p.run s).driven = (p.moves s).driveOut.length := by
  obtain ⟨rows, pivots⟩ := phaseTwoEnd_replays p s
  have driven := (handover_replays p s).2.2
  have cutMoves : p.reachesPhaseTwo s = false → p.moves s = ⟨p.movesOfPhaseOne s, [], []⟩ := by
    intro reaches
    unfold moves
    rw [reaches]
    rfl
  have allMoves : p.reachesPhaseTwo s = true →
      p.moves s = ⟨p.movesOfPhaseOne s, p.movesBetween s, p.movesOfPhaseTwo s⟩ := by
    intro reaches
    unfold moves
    rw [reaches]
    rfl
  have course := run_course p s
  generalize p.run s = run at course ⊢
  -- a point is read off the rows alone, so the moves need not follow the costs that each phase sets
  cases course with
  | cut artificials reaches ended =>
    obtain ⟨rows, pivots⟩ := phaseOneEnd_replays (s := s) artificials
    rw [cutMoves reaches]
    refine ⟨?_, pivots, rfl⟩
    show p.basicSolution ((build p).replay (p.movesOfPhaseOne s ++ [] ++ [])) = _
    rw [List.append_nil, List.append_nil]
    exact (basicSolution_of_rows p rows).symm
  | refuted artificials reaches ended =>
    rw [cutMoves reaches]
    exact ⟨trivial, (phaseOneEnd_replays artificials).2, rfl⟩
  | optimal reaches ended =>
    rw [allMoves reaches]
    exact ⟨(basicSolution_of_rows p rows).symm, pivots, driven⟩
  | outOfPivots reaches ended =>
    rw [allMoves reaches]
    exact ⟨(basicSolution_of_rows p rows).symm, pivots, driven⟩
  | unbounded reaches ended =>
    rw [allMoves reaches]
    exact ⟨trivial, pivots, driven⟩

theorem pivots_run_le (p : Program α) (s : Settings α) : (p.run s).solution.pivots ≤ s.maxPivots := by
  have one := (pivots_runPhase (build p).columns s.pivotTol s.maxPivots 0
    ((build p).price (artificialCost (build p)))).2.1
  have one : (p.phaseOneEnd s).pivots ≤ s.maxPivots := one.trans_eq (Nat.zero_add _)
  have handed : (p.handover s).pivots ≤ s.maxPivots := by
    unfold handover
    split
    · exact one
    · exact Nat.zero_le _
  have two : (p.phaseTwoEnd s).pivots ≤ (p.handover s).pivots + (s.maxPivots - (p.handover s).pivots) :=
    (pivots_runPhase _ _ _ _ _).2.1
  rw [Nat.add_sub_cancel' handed] at two
  have course := run_course p s
  generalize p.run s = run at course ⊢
  cases course with
  | cut _ _ _ => exact one
  | refuted _ _ _ => exact one
  | optimal _ _ => exact two
  | outOfPivots _ _ => exact two
  | unbounded _ _ => exact two

theorem outlet_of_le {t : Tableau α} {row : Nat} (outside : t.rows.length ≤ row) (tol : α) : t.outlet row tol = none := by
  unfold outlet
  rw [List.getElem?_eq_none outside]

theorem movesBetween_eq_nil_iff (artificials : (build p).hasArtificials = true) :
    p.movesBetween s = [] ↔ ∀ row, (p.phaseOneEnd s).tableau.outlet row s.pivotTol = none := by
  unfold movesBetween
  rw [if_pos artificials, driveMoves_eq_nil_iff]
  constructor
  · intro inside row
    by_cases within : row < (p.phaseOneEnd s).tableau.rows.length
    · exact inside row (List.mem_range.mpr within)
    · exact outlet_of_le (not_lt.mp within) _
  · exact fun all row _ => all row

theorem driveOut_moves_eq_nil_iff (p : Program α) (s : Settings α) : (p.moves s).driveOut = [] ↔ ¬p.DrivesOut s := by
  unfold moves DrivesOut
  cases reaches : p.reachesPhaseTwo s with
  | false => simp
  | true =>
    rw [if_pos rfl]
    by_cases artificials : (build p).hasArtificials = true
    · rw [movesBetween_eq_nil_iff artificials]
      simp [artificials, Option.eq_none_iff_forall_ne_some]
    · simp [movesBetween, artificials]

theorem length_driveOut_le (p : Program α) (s : Settings α) : (p.moves s).driveOut.length ≤ p.rows.length := by
  have rows : (build p).rows.length ≤ p.rows.length := by
    apply List.getElem?_eq_none_iff.mp
    rw [build_getElem?, List.getElem?_eq_none (by simp)]
    rfl
  have between : (p.movesBetween s).length ≤ p.rows.length := by
    unfold movesBetween
    split
    · rename_i artificials
      have kept : (p.phaseOneEnd s).tableau.rows.length = (build p).rows.length := by
        rw [(phaseOneEnd_replays artificials).1, length_rows_replay]
      have driven := length_driveMoves_le s.pivotTol (List.range (p.phaseOneEnd s).tableau.rows.length)
        (p.phaseOneEnd s).tableau
      rw [List.length_range] at driven
      exact driven.trans (kept.trans_le rows)
    · exact Nat.zero_le _
  unfold moves
  split
  · exact between
  · exact Nat.zero_le _

/-- The pivots that a run counts are those of its two phases, and no more than it may make. Those that drive
artificial variables out come on top, at most one for each row: the count is exact, and all pivots are within
the budget, exactly if there are none. -/
theorem solve_counts_pivots (valid : p.fault? = none) (s : Settings α) :
    ∃ ended, p.solve s = .ok ended ∧ p.ReadsOff ((build p).replay (p.moves s).made) ended.solution.answer ∧
      (p.moves s).made.length = ended.solution.pivots + ended.driven ∧ ended.solution.pivots ≤ s.maxPivots ∧
      ended.driven ≤ p.rows.length ∧ ((p.moves s).made.length = ended.solution.pivots ↔ ¬p.DrivesOut s) ∧
      (¬p.DrivesOut s → (p.moves s).made.length ≤ s.maxPivots) := by
  obtain ⟨reads, pivots, driven⟩ := run_replays p s
  have within := pivots_run_le p s
  have total : (p.moves s).made.length = (p.run s).solution.pivots + (p.run s).driven := by
    rw [pivots, driven, Moves.made, List.length_append, List.length_append]
    omega
  have none : (p.run s).driven = 0 ↔ ¬p.DrivesOut s := by
    rw [driven, List.length_eq_zero_iff]
    exact driveOut_moves_eq_nil_iff p s
  refine ⟨p.run s, by rw [solve, valid], reads, total, within, driven ▸ length_driveOut_le p s, ?_, ?_⟩
  · rw [← none, total]
    omega
  · intro kept
    rw [total, none.mpr kept]
    exact within

end Count

/-- The least `x` under `x ≤ 3` and `1 ≤ x`: one pivot of phase one, and nothing to drive out. -/
theorem solve_counts_pivots_one_row : ∃ ended : Run ℚ,
    (⟨[1], [[1], [-1]], [3, -1]⟩ : Program ℚ).fault? = none ∧
      (⟨[1], [[1], [-1]], [3, -1]⟩ : Program ℚ).solve ⟨1, 0, 0⟩ = .ok ended ∧
      ended.solution = ⟨.optimal 1 [1], 1⟩ ∧ ¬(⟨[1], [[1], [-1]], [3, -1]⟩ : Program ℚ).DrivesOut ⟨1, 0, 0⟩ ∧
      ((⟨[1], [[1], [-1]], [3, -1]⟩ : Program ℚ).moves ⟨1, 0, 0⟩).made.length = 1 := by
  have valid : (⟨[1], [[1], [-1]], [3, -1]⟩ : Program ℚ).fault? = none := by decide +kernel
  obtain ⟨ended, solved, -, -, -, -, exactly, -⟩ := solve_counts_pivots valid ⟨1, 0, 0⟩
  obtain ⟨-, rfl⟩ := solve_ok solved
  have answer : ((⟨[1], [[1], [-1]], [3, -1]⟩ : Program ℚ).run ⟨1, 0, 0⟩).solution = ⟨.optimal 1 [1], 1⟩ := by
    decide +kernel
  have kept : ¬(⟨[1], [[1], [-1]], [3, -1]⟩ : Program ℚ).DrivesOut ⟨1, 0, 0⟩ := by
    rw [← driveOut_moves_eq_nil_iff]
    decide +kernel
  have length := exactly.mpr kept
  rw [answer] at length
  exact ⟨_, valid, solved, answer, kept, length⟩

/-- The least `x` under `x ≤ 1` and `1 ≤ x`, with the default tolerances. Phase one puts `x` into the first row and
leaves the artificial variable of the second one at zero; driving it out is a second pivot, which is not counted
and not within a budget of one. -/
theorem solve_omits_pivots :
    (⟨[1], [[1], [-1]], [1, -1]⟩ : Program Float).fault? = none ∧
      ((⟨[1], [[1], [-1]], [1, -1]⟩ : Program Float).run .default).solution = ⟨.optimal 1 [1], 1⟩ ∧
      ((⟨[1], [[1], [-1]], [1, -1]⟩ : Program Float).moves .default).made = [(0, 0), (1, 1)] ∧
      ((⟨[1], [[1], [-1]], [1, -1]⟩ : Program Float).run { Settings.default with maxPivots := 1 }).solution =
        ⟨.optimal 1 [1], 1⟩ ∧
      1 < ((⟨[1], [[1], [-1]], [1, -1]⟩ : Program Float).moves { Settings.default with maxPivots := 1 }).made.length := by
  refine ⟨?_, ?_, ?_, ?_, ?_⟩ <;> decide +kernel

end Program

end BranchBound.Linear
