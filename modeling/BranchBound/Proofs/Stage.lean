import BranchBound.Proofs.PivotRule
import BranchBound.Linear.Simplex

/-!
# Stages of the simplex method

A `Stage` is what the pivots of a phase keep: the equations, nonnegative right-hand sides, and a
reduced cost line. From it follow what the end of a phase means: without an entering column the
basic point is optimal (`Stage.objective_le`), without a leaving row an edge leads down for ever
(`Stage.total_along`).
-/

namespace BranchBound.Linear

open Finset (range)

namespace Tableau

def total (t : Tableau ℚ) (columnCost : Nat → ℚ) (z : ℕ → ℝ) : ℝ :=
  ∑ j ∈ range t.columns, (columnCost j : ℝ) * z j

/-- A canonical tableau with the equations of `start` and nonnegative right-hand sides. -/
structure Ready (start : Tableau ℚ) (t : Tableau ℚ) : Prop where
  canonical : t.Canonical
  nonneg : ∀ row ∈ t.rows, 0 ≤ row.line.rhs
  columns : t.columns = start.columns
  artificial : t.artificial = start.artificial
  solves : ∀ z, t.Solves z ↔ start.Solves z

/-- What a phase keeps: a ready tableau with a reduced cost line for the column costs. -/
structure Stage (start : Tableau ℚ) (columnCost : Nat → ℚ) (t : Tableau ℚ) : Prop extends
    Ready start t where
  reduced : t.Reduced
  priced : ∀ z, t.Solves z → t.cost.gap z = start.total columnCost z

theorem Ready.price {start t : Tableau ℚ} (ready : Ready start t) (columnCost : Nat → ℚ) :
    Stage start columnCost (t.price columnCost) where
  canonical := price_canonical ready.canonical columnCost
  reduced := price_reduced ready.canonical columnCost
  nonneg := ready.nonneg
  columns := ready.columns
  artificial := ready.artificial
  solves := ready.solves
  priced z solved := by
    rw [price_gap ready.canonical.toShaped columnCost solved, ready.columns]
    rfl

/-- The direction in which the basic point moves when a column grows. -/
def edge (t : Tableau ℚ) (col j : Nat) : ℝ :=
  (if j = col then 1 else 0) + -1 * (t.spread (fun row => row.line.entry col) j : ℝ)

def along (t : Tableau ℚ) (col : Nat) (θ : ℝ) (j : Nat) : ℝ :=
  t.basicPoint j + θ * t.edge col j

theorem slope_single (l : Line ℚ) (col : Nat) : l.slope (fun j => if j = col then 1 else 0) = l.entry col := by
  simp only [Line.slope, mul_ite, mul_one, mul_zero, Finset.sum_ite_eq', Finset.mem_range]
  split
  · rfl
  · rename_i outside
    rw [Line.entry_of_le (not_lt.mp outside)]
    norm_num

theorem slope_edge (t : Tableau ℚ) (l : Line ℚ) (col : Nat) : l.slope (t.edge col) =
    l.entry col - l.slope (fun j => (t.spread (fun row => row.line.entry col) j : ℝ)) := by
  have parts : t.edge col = fun j => (if j = col then 1 else 0) +
      (fun j => -1 * (t.spread (fun row => row.line.entry col) j : ℝ)) j := rfl
  rw [parts, Line.slope_add, slope_single, Line.slope_smul]
  ring

theorem slope_along (t : Tableau ℚ) (l : Line ℚ) (col : Nat) (θ : ℝ) :
    l.slope (t.along col θ) = l.slope (fun j => (t.basicPoint j : ℝ)) + θ * l.slope (t.edge col) := by
  have parts : t.along col θ = fun j => (fun j => (t.basicPoint j : ℝ)) j + (fun j => θ * t.edge col j) j := rfl
  rw [parts, Line.slope_add, Line.slope_smul]

theorem edge_nonneg {t : Tableau ℚ} {col : Nat} (canonical : t.Canonical)
    (entries : ∀ s ∈ t.rows, s.line.entry col ≤ 0) (j : Nat) : 0 ≤ t.edge col j := by
  have spread : t.spread (fun row => row.line.entry col) j ≤ 0 :=
    spread_induction (P := (· ≤ 0)) canonical (le_refl 0) entries j
  have spread : (t.spread (fun row => row.line.entry col) j : ℝ) ≤ 0 := by exact_mod_cast spread
  unfold edge
  split <;> linarith

namespace Stage
variable {start t : Tableau ℚ} {columnCost : Nat → ℚ} {limit row col : Nat} {r : Row ℚ}

theorem shaped (stage : Stage start columnCost t) : t.Shaped := stage.canonical.toShaped

theorem move (stage : Stage start columnCost t) (move : Move limit t row col r) :
    Stage start columnCost (t.pivot row col) where
  canonical := pivot_canonical stage.canonical move.read move.nonzero move.inside
  reduced := pivot_reduced stage.canonical stage.reduced move.read move.nonzero
  nonneg := move.nonneg stage.nonneg
  columns := (columns_pivot _ _ _).trans stage.columns
  artificial := (artificial_pivot _ _ _).trans stage.artificial
  solves z := (pivot_solves stage.shaped move.read move.nonzero z).trans (stage.solves z)
  priced z solved := by
    have before := (pivot_solves stage.shaped move.read move.nonzero z).mp solved
    rw [pivot_cost_gap stage.shaped move.read move.nonzero before]
    exact stage.priced z before

theorem basicPoint_nonneg (stage : Stage start columnCost t) (j : Nat) : 0 ≤ t.basicPoint j :=
  spread_induction stage.canonical (le_refl 0) stage.nonneg j

theorem solves_basicPoint (stage : Stage start columnCost t) : start.Solves fun j => (t.basicPoint j : ℝ) :=
  (stage.solves _).mp (Tableau.solves_basicPoint stage.canonical)

theorem total_eq (stage : Stage start columnCost t) {z : ℕ → ℝ} (solved : start.Solves z) :
    start.total columnCost z = t.cost.slope z + t.objective := by
  have gap := stage.priced z ((stage.solves z).mpr solved)
  unfold Line.gap at gap
  show _ = t.cost.slope z + ((-t.cost.rhs : ℚ) : ℝ)
  push_cast
  linarith

theorem total_basicPoint (stage : Stage start columnCost t) :
    start.total columnCost (fun j => (t.basicPoint j : ℝ)) = t.objective := by
  have flat : t.cost.slope (fun j => (t.basicPoint j : ℝ)) = 0 := cost_slope_spread stage.reduced _
  rw [stage.total_eq stage.solves_basicPoint, flat, zero_add]

/-- With no negative cost where `z` is positive, `z` does not beat the basic point. -/
theorem objective_le (stage : Stage start columnCost t) {z : ℕ → ℝ} (solved : start.Solves z)
    (nonneg : ∀ j < start.columns, 0 ≤ z j)
    (priced : ∀ j < start.columns, z j ≠ 0 → 0 ≤ t.cost.entry j) :
    (t.objective : ℝ) ≤ start.total columnCost z := by
  have slope : 0 ≤ t.cost.slope z := by
    unfold Line.slope
    refine Finset.sum_nonneg fun j member => ?_
    rw [stage.shaped.cost, stage.columns, Finset.mem_range] at member
    by_cases zero : z j = 0
    · rw [zero, mul_zero]
    · have entry : (0 : ℝ) ≤ t.cost.entry j := by exact_mod_cast priced j member zero
      exact mul_nonneg entry (nonneg j member)
  rw [stage.total_eq solved]
  linarith

theorem solves_along (stage : Stage start columnCost t) (col : Nat) (θ : ℝ) : start.Solves (t.along col θ) := by
  rw [← stage.solves]
  intro s member
  have basic : s.line.gap (fun j => (t.basicPoint j : ℝ)) = 0 := Tableau.solves_basicPoint stage.canonical s member
  have level : s.line.slope (t.edge col) = 0 := by
    rw [slope_edge, slope_spread stage.canonical _ member, sub_self]
  unfold Line.gap at basic ⊢
  rw [slope_along, level]
  linarith

theorem total_along (stage : Stage start columnCost t) (col : Nat) (θ : ℝ) :
    start.total columnCost (t.along col θ) = t.objective + θ * t.cost.entry col := by
  have flat : t.cost.slope (fun j => (t.basicPoint j : ℝ)) = 0 := cost_slope_spread stage.reduced _
  have rate : t.cost.slope (t.edge col) = t.cost.entry col := by
    rw [slope_edge, cost_slope_spread stage.reduced, sub_zero]
  rw [stage.total_eq (stage.solves_along col θ), slope_along, flat, rate]
  ring

end Stage

/-! ### Phases -/

section Phases
variable {α : Type} [Scalar α]

theorem runPhase_optimal {limit : Nat} {tol : α} {budget pivots : Nat} {t : Tableau α}
    (finished : (runPhase limit tol budget pivots t).finish = .optimal) :
    (runPhase limit tol budget pivots t).tableau.entering limit tol = none := by
  fun_induction runPhase limit tol budget pivots t with
  | case1 _ _ _ none => exact none
  | case2 => cases finished
  | case3 => cases finished
  | case4 _ _ _ _ _ _ _ ih => exact ih finished

theorem runPhase_unbounded {limit : Nat} {tol : α} {budget pivots : Nat} {t : Tableau α}
    (finished : (runPhase limit tol budget pivots t).finish = .unbounded) :
    ∃ col, (runPhase limit tol budget pivots t).tableau.entering limit tol = some col ∧
      (runPhase limit tol budget pivots t).tableau.ratioTest col tol = none := by
  fun_induction runPhase limit tol budget pivots t with
  | case1 => cases finished
  | case2 => cases finished
  | case3 _ _ col enters _ leaves => exact ⟨col, enters, leaves⟩
  | case4 _ _ _ _ _ _ _ ih => exact ih finished

end Phases

/-- A phase keeps its stage, and whatever its moves keep. -/
theorem runPhase_keeps {start : Tableau ℚ} {columnCost : Nat → ℚ} {limit : Nat} {P : Tableau ℚ → Prop}
    (step : ∀ t row col r, Stage start columnCost t → P t → Move limit t row col r → P (t.pivot row col))
    (budget pivots : Nat) {t : Tableau ℚ} (stage : Stage start columnCost t) (holds : P t) :
    Stage start columnCost (runPhase limit 0 budget pivots t).tableau ∧
      P (runPhase limit 0 budget pivots t).tableau := by
  induction budget generalizing pivots t with
  | zero =>
    unfold runPhase
    split
    · exact ⟨stage, holds⟩
    · exact ⟨stage, holds⟩
  | succ budget ih =>
    unfold runPhase
    split
    · exact ⟨stage, holds⟩
    · rename_i col enters
      dsimp only
      split
      · exact ⟨stage, holds⟩
      · rename_i row leaves
        obtain ⟨r, move⟩ := move_of_rule stage.shaped stage.nonneg enters leaves
        exact ih (pivots + 1) (stage.move move) (step t row col r stage holds move)

theorem Stage.run {start t : Tableau ℚ} {columnCost : Nat → ℚ} (stage : Stage start columnCost t)
    (limit budget pivots : Nat) : Stage start columnCost (runPhase limit 0 budget pivots t).tableau :=
  (runPhase_keeps (P := fun _ => True) (fun _ _ _ _ _ _ _ => trivial) budget pivots stage trivial).1

end Tableau

end BranchBound.Linear
