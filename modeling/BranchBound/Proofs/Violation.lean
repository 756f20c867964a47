import BranchBound.Proofs.TwoPhase

/-!
# Violations of an optimal answer

With tolerances the last tableau of a run may have negative right-hand sides, which its basic solution
raises to zero, and artificial variables that are not zero. The answer violates a row by no more than
this `shortfall` times the size of the matrix (`maxViolation_le_of_solve`), but the shortfall itself is not
bounded by the feasibility tolerance (`maxViolation_above_tolerance`).
-/

namespace BranchBound

namespace Rational

theorem largest_le {start bound : ℚ} {xs : List ℚ} (first : start ≤ bound) (every : ∀ v ∈ xs, v ≤ bound) :
    Scalar.largest start xs ≤ bound := by
  induction xs generalizing start with
  | nil => exact first
  | cons v rest ih =>
    refine @ih (Scalar.max start v) ?_ fun w member => every w (List.mem_cons_of_mem _ member)
    rw [scalar_max]
    exact max_le first (every v List.mem_cons_self)

theorem start_le_largest (start : ℚ) (xs : List ℚ) : start ≤ Scalar.largest start xs := by
  induction xs generalizing start with
  | nil => exact le_refl _
  | cons v rest ih =>
    refine le_trans ?_ (ih (Scalar.max start v))
    rw [scalar_max]
    exact le_max_left _ _

theorem le_largest (start : ℚ) {xs : List ℚ} {v : ℚ} (member : v ∈ xs) : v ≤ Scalar.largest start xs := by
  induction xs generalizing start with
  | nil => cases member
  | cons w rest ih =>
    rcases List.mem_cons.mp member with rfl | later
    · refine le_trans ?_ (start_le_largest (Scalar.max start v) rest)
      rw [scalar_max]
      exact le_max_right _ _
    · exact ih (Scalar.max start w) later

end Rational

namespace Linear

open Finset (range)

/-! ### Tableaux of a run -/

namespace Tableau

/-- A canonical tableau with the equations of `start`, whatever the signs of its right-hand sides. -/
structure Derived (start t : Tableau ℚ) : Prop where
  canonical : t.Canonical
  columns : t.columns = start.columns
  artificial : t.artificial = start.artificial
  solves : ∀ z, t.Solves z ↔ start.Solves z

namespace Derived
variable {start t : Tableau ℚ} {tol : ℚ}

theorem price (derived : Derived start t) (columnCost : Nat → ℚ) : Derived start (t.price columnCost) :=
  ⟨price_canonical derived.canonical columnCost, derived.columns, derived.artificial, derived.solves⟩

theorem pivot {row col : Nat} {r : Row ℚ} (derived : Derived start t) (read : t.rows[row]? = some r)
    (nonzero : r.line.entry col ≠ 0) (inside : col < t.columns) : Derived start (t.pivot row col) where
  canonical := pivot_canonical derived.canonical read nonzero inside
  columns := (columns_pivot _ _ _).trans derived.columns
  artificial := (artificial_pivot _ _ _).trans derived.artificial
  solves z := (pivot_solves derived.canonical.toShaped read nonzero z).trans (derived.solves z)

theorem runPhase (derived : Derived start t) (tolerant : 0 ≤ tol) (limit budget pivots : Nat) :
    Derived start (runPhase limit tol budget pivots t).tableau := by
  fun_induction Linear.runPhase limit tol budget pivots t with
  | case1 => exact derived
  | case2 => exact derived
  | case3 => exact derived
  | case4 pivots t col enters budget row leaves ih =>
    obtain ⟨r, read, above⟩ := ratioTest_above leaves
    have inside := (entering_lt derived.canonical.toShaped enters).2
    exact ih (derived.pivot read (tolerant.trans_lt above).ne' inside)

theorem drive {state : Tableau ℚ × Nat} (derived : Derived start state.1) (tolerant : 0 ≤ tol)
    (within : start.artificial ≤ start.columns) (row : Nat) : Derived start (drive tol state row).1 := by
  unfold Tableau.drive
  split
  · exact derived
  · rename_i col found
    obtain ⟨r, read, -, low, nonzero⟩ := outlet_some tolerant found
    refine derived.pivot read nonzero ?_
    rw [derived.columns]
    rw [derived.artificial] at low
    omega

theorem driveOut (derived : Derived start t) (tolerant : 0 ≤ tol) (within : start.artificial ≤ start.columns) :
    Derived start (t.driveOut tol).1 := by
  have driven : ∀ (rows : List Nat) (state : Tableau ℚ × Nat), Derived start state.1 →
      Derived start (rows.foldl (Tableau.drive tol) state).1 := by
    intro rows
    induction rows with
    | nil => exact fun _ derived => derived
    | cons row rest ih => exact fun state derived => ih _ (derived.drive tolerant within row)
  unfold Tableau.driveOut
  exact driven _ _ derived

end Derived

/-! ### What a tableau hides -/

/-- How far the basic solution is in a column from what its answer takes it for: zero if the column is
artificial, else from zero up. -/
def hidden (t : Tableau ℚ) (j : Nat) : ℚ :=
  if j < t.artificial then max (-t.basicPoint j) 0 else |t.basicPoint j|

def shortfall (t : Tableau ℚ) : ℚ :=
  ∑ j ∈ range t.columns, t.hidden j

section Hidden
variable {t : Tableau ℚ} {j : Nat}

theorem hidden_nonneg (t : Tableau ℚ) (j : Nat) : 0 ≤ t.hidden j := by
  unfold hidden
  split
  · exact le_max_right _ _
  · exact abs_nonneg _

theorem raised_eq (low : j < t.artificial) : max (t.basicPoint j) 0 = t.basicPoint j + t.hidden j := by
  unfold hidden
  rw [if_pos low, ← max_add_add_left, add_neg_cancel, add_zero, max_comm]

theorem neg_le_hidden (low : j < t.artificial) : -t.basicPoint j ≤ t.hidden j := by
  unfold hidden
  rw [if_pos low]
  exact le_max_left _ _

theorem le_hidden (high : t.artificial ≤ j) : t.basicPoint j ≤ t.hidden j := by
  unfold hidden
  rw [if_neg (not_lt.mpr high)]
  exact le_abs_self _

theorem sum_hidden_le {js : Finset ℕ} (inside : js ⊆ range t.columns) : ∑ j ∈ js, t.hidden j ≤ t.shortfall :=
  Finset.sum_le_sum_of_subset_of_nonneg inside fun j _ _ => t.hidden_nonneg j

theorem shortfall_nonneg (t : Tableau ℚ) : 0 ≤ t.shortfall :=
  Finset.sum_nonneg fun j _ => t.hidden_nonneg j

end Hidden

end Tableau

namespace Program

open Tableau

section Last
variable {α : Type} [Scalar α]

def endOfPhaseTwo (p : Program α) (s : Settings α) (t : Tableau α) (pivots : Nat) : Tableau α :=
  (runPhase t.artificial s.pivotTol (s.maxPivots - pivots) pivots (t.price p.structuralCost)).tableau

/-- The tableau at which a run that finds an optimum ends. -/
def lastTableau (p : Program α) (s : Settings α) : Tableau α :=
  let t := build p
  if t.hasArtificials then
    let phase := runPhase t.columns s.pivotTol s.maxPivots 0 (t.price (artificialCost t))
    p.endOfPhaseTwo s (phase.tableau.driveOut s.pivotTol).1 phase.pivots
  else p.endOfPhaseTwo s t 0

variable {p : Program α} {s : Settings α} {objective : α} {x : List α}

theorem optimal_of_phaseTwo {t : Tableau α} {pivots driven : Nat} {log : List (Event α)}
    (answer : (p.phaseTwo s t pivots driven log).solution.answer = .optimal objective x) :
    p.basicSolution (p.endOfPhaseTwo s t pivots) = (objective, x) := by
  unfold phaseTwo at answer
  dsimp only at answer
  split at answer
  · cases answer
    rfl
  · cases answer
  · cases answer

theorem optimal_of_run (answer : (p.run s).solution.answer = .optimal objective x) :
    p.basicSolution (p.lastTableau s) = (objective, x) := by
  unfold run at answer
  unfold lastTableau
  dsimp only at answer ⊢
  split at answer
  · rename_i artificials
    rw [if_pos artificials]
    unfold phaseOne at answer
    dsimp only at answer
    split at answer
    · cases answer
    · cases answer
    · split at answer
      · cases answer
      · exact optimal_of_phaseTwo answer
  · rename_i noArtificials
    rw [if_neg noArtificials]
    exact optimal_of_phaseTwo answer

end Last

section Bound
variable {p : Program ℚ} {s : Settings ℚ} {t : Tableau ℚ}

theorem derived_build (valid : p.fault? = none) : Derived (build p) (build p) :=
  ⟨build_canonical (fault?_none valid).2.1, rfl, rfl, fun _ => Iff.rfl⟩

theorem derived_endOfPhaseTwo (derived : Derived (build p) t) (tolerant : 0 ≤ s.pivotTol) (pivots : Nat) :
    Derived (build p) (p.endOfPhaseTwo s t pivots) :=
  (derived.price p.structuralCost).runPhase tolerant _ _ _

theorem derived_lastTableau (valid : p.fault? = none) (tolerant : 0 ≤ s.pivotTol) :
    Derived (build p) (p.lastTableau s) := by
  have start := derived_build valid
  unfold lastTableau
  dsimp only
  split
  · have phase := (start.price (artificialCost (build p))).runPhase tolerant (build p).columns s.maxPivots 0
    exact derived_endOfPhaseTwo (phase.driveOut tolerant p.columns_le.2) tolerant _
  · exact derived_endOfPhaseTwo start tolerant 0

/-- Before it is raised to zero, the basic solution misses a row by its slack and its artificial variable. -/
theorem basicPoint_row_le (valid : p.fault? = none) (derived : Derived (build p) t) {i : Nat} {pair : List ℚ × ℚ}
    (read : (p.rows.zip p.rhs)[i]? = some pair) :
    ∑ j ∈ range p.objective.length, pair.1.getD j 0 * t.basicPoint j - pair.2 ≤ t.shortfall := by
  have counted := (fault?_none valid).2.1
  have columns := build_columns p
  have artificial := build_artificial p
  have inside := lt_length_rhs read
  have artInside : pair.2 < 0 →
      (build p).artificial + artificialsBefore (p.rows.zip p.rhs) i < (build p).columns := by
    intro negative
    have := artificialsBefore_total counted read (by simpa using negative)
    omega
  have found := build_getElem? p i
  rw [read, Option.map_some] at found
  have zero := (derived.solves _).mp (solves_basicPoint derived.canonical) _ (List.mem_of_getElem? found)
  rw [gap_startRow _ (by omega) (by omega) artInside] at zero
  have slack : p.objective.length + i < t.artificial := by
    rw [derived.artificial]
    omega
  have slackInside : p.objective.length + i ∈ range t.columns := by
    rw [Finset.mem_range, derived.columns]
    omega
  have hiddenSlack := neg_le_hidden slack
  by_cases negative : pair.2 < 0
  · -- A negated row is missed by its artificial variable too.
    rw [if_pos negative, sign, if_pos negative] at zero
    have equation : -1 * (∑ j ∈ range p.objective.length, pair.1.getD j 0 * t.basicPoint j +
        t.basicPoint (p.objective.length + i) - pair.2) +
        t.basicPoint ((build p).artificial + artificialsBefore (p.rows.zip p.rhs) i) = 0 := by
      exact_mod_cast zero
    have high : t.artificial ≤ (build p).artificial + artificialsBefore (p.rows.zip p.rhs) i := by
      rw [derived.artificial]
      omega
    have hiddenArtificial := le_hidden high
    have both : ({p.objective.length + i,
        (build p).artificial + artificialsBefore (p.rows.zip p.rhs) i} : Finset ℕ) ⊆ range t.columns := by
      intro j member
      rcases Finset.mem_insert.mp member with rfl | last
      · exact slackInside
      · rw [Finset.mem_singleton.mp last, Finset.mem_range, derived.columns]
        exact artInside negative
    have total := sum_hidden_le both
    rw [Finset.sum_pair (by omega)] at total
    linarith
  · rw [if_neg negative, sign, if_neg negative] at zero
    have equation : 1 * (∑ j ∈ range p.objective.length, pair.1.getD j 0 * t.basicPoint j +
        t.basicPoint (p.objective.length + i) - pair.2) + 0 = 0 := by
      exact_mod_cast zero
    have total := sum_hidden_le (Finset.singleton_subset_iff.mpr slackInside)
    rw [Finset.sum_singleton] at total
    linarith

def matrixScale (p : Program ℚ) : ℚ :=
  1 + Scalar.largest 0 (p.rows.flatten.map Scalar.abs)

theorem one_le_matrixScale (p : Program ℚ) : 1 ≤ p.matrixScale :=
  le_add_of_nonneg_right (Rational.start_le_largest _ _)

theorem entry_le_matrixScale {row : List ℚ} (member : row ∈ p.rows) {j : Nat} (inside : j < row.length) :
    row.getD j 0 ≤ p.matrixScale - 1 := by
  have read : row.getD j 0 = row[j] := by simp [inside]
  have listed : Scalar.abs row[j] ∈ p.rows.flatten.map Scalar.abs :=
    List.mem_map_of_mem (List.mem_flatten_of_mem member (List.getElem_mem inside))
  have below := Rational.le_largest 0 listed
  rw [Rational.scalar_abs] at below
  rw [read, matrixScale, add_sub_cancel_left]
  exact (le_abs_self _).trans below

/-- Raising the basic solution to zero adds to a row what was raised, times the coefficients. -/
theorem primal_row_le (valid : p.fault? = none) (derived : Derived (build p) t) {pair : List ℚ × ℚ}
    (member : pair ∈ p.rows.zip p.rhs) :
    Scalar.dot pair.1 (t.primal p.objective.length) - pair.2 ≤ t.shortfall * p.matrixScale := by
  obtain ⟨-, counted, wide⟩ := fault?_none valid
  have listed := (List.of_mem_zip member).1
  have width : pair.1.length = p.objective.length := wide pair.1 listed
  have bounds := p.columns_le
  obtain ⟨i, read⟩ := List.getElem?_of_mem member
  have before := basicPoint_row_le valid derived read
  have low : ∀ j ∈ range p.objective.length, j < t.artificial := by
    intro j small
    rw [derived.artificial]
    exact (Finset.mem_range.mp small).trans_le bounds.1
  have value : Scalar.dot pair.1 (t.primal p.objective.length) =
      ∑ j ∈ range p.objective.length, pair.1.getD j 0 * t.basicPoint j +
        ∑ j ∈ range p.objective.length, pair.1.getD j 0 * t.hidden j := by
    rw [primal_eq_raised derived.canonical, ← form_rat, ← width, form_map_range, ← Finset.sum_add_distrib, width]
    refine Finset.sum_congr rfl fun j small => ?_
    rw [raised_eq (low j small), Rat.cast_id, mul_add]
  have raised : ∑ j ∈ range p.objective.length, pair.1.getD j 0 * t.hidden j ≤
      (p.matrixScale - 1) * t.shortfall := by
    calc ∑ j ∈ range p.objective.length, pair.1.getD j 0 * t.hidden j
        ≤ ∑ j ∈ range p.objective.length, (p.matrixScale - 1) * t.hidden j := by
          refine Finset.sum_le_sum fun j small => ?_
          have inside : j < pair.1.length := width ▸ Finset.mem_range.mp small
          exact mul_le_mul_of_nonneg_right (entry_le_matrixScale listed inside) (t.hidden_nonneg j)
      _ = (p.matrixScale - 1) * ∑ j ∈ range p.objective.length, t.hidden j := (Finset.mul_sum _ _ _).symm
      _ ≤ (p.matrixScale - 1) * t.shortfall := by
          have structural : range p.objective.length ⊆ range t.columns := by
            rw [Finset.range_subset_range, derived.columns]
            omega
          have scale := p.one_le_matrixScale
          exact mul_le_mul_of_nonneg_left (sum_hidden_le structural) (by linarith)
  rw [value]
  linarith

theorem maxViolation_primal_le (valid : p.fault? = none) (derived : Derived (build p) t) :
    p.maxViolation (t.primal p.objective.length) ≤ t.shortfall * p.matrixScale := by
  have nonneg : 0 ≤ t.shortfall * p.matrixScale :=
    mul_nonneg t.shortfall_nonneg (zero_le_one.trans p.one_le_matrixScale)
  unfold maxViolation
  dsimp only
  rw [Rational.scalar_max]
  refine max_le (Rational.largest_le nonneg ?_) (Rational.largest_le nonneg ?_)
  · intro v member
    rw [← List.map_uncurry_zip_eq_zipWith] at member
    obtain ⟨pair, listed, rfl⟩ := List.mem_map.mp member
    exact primal_row_le valid derived listed
  · intro v member
    rw [primal_eq_raised derived.canonical, List.map_map] at member
    obtain ⟨j, -, rfl⟩ := List.mem_map.mp member
    exact le_trans (neg_nonpos.mpr (le_max_right _ _)) nonneg

/-- An optimal answer violates a row by at most what the last tableau hides, times the size of the matrix:
by no more than the feasibility tolerance allows if the tableau hides no more than phase one accepts. -/
theorem maxViolation_le_of_solve {ended : Run ℚ} {objective : ℚ} {x : List ℚ} (tolerant : 0 ≤ s.pivotTol)
    (solved : p.solve s = .ok ended) (answer : ended.solution.answer = .optimal objective x) :
    p.basicSolution (p.lastTableau s) = (objective, x) ∧
      p.maxViolation x ≤ (p.lastTableau s).shortfall * p.matrixScale ∧
      ((p.lastTableau s).shortfall ≤ s.feasTol * p.scale →
        p.maxViolation x ≤ s.feasTol * p.scale * p.matrixScale) := by
  obtain ⟨valid, rfl⟩ := solve_ok solved
  have basic := optimal_of_run answer
  have point : (p.lastTableau s).primal p.objective.length = x := congrArg Prod.snd basic
  have bound := maxViolation_primal_le valid (derived_lastTableau valid tolerant)
  rw [point] at bound
  refine ⟨basic, bound, ?_⟩
  intro small
  have scale := zero_le_one.trans p.one_le_matrixScale
  exact bound.trans (mul_le_mul_of_nonneg_right small scale)

/-- `x ≥ 1` against `x ≤ 1 - 10⁻⁸`, which phase one accepts. -/
def nearMiss : Program ℚ :=
  ⟨[1], [[-1], [1]], [-1, 1 - 1 / 10 ^ 8]⟩

theorem maxViolation_le_of_solve_near_miss :
    0 ≤ (Settings.default : Settings ℚ).pivotTol ∧ nearMiss.solve .default = .ok (nearMiss.run .default) ∧
      (nearMiss.run .default).solution.answer = .optimal 1 [1] ∧
      (nearMiss.lastTableau .default).shortfall = 1 / 10 ^ 8 ∧ nearMiss.maxViolation [1] ≤ 4 / 10 ^ 7 := by
  have tolerant : 0 ≤ (Settings.default : Settings ℚ).pivotTol := by decide +kernel
  have solved : nearMiss.solve .default = .ok (nearMiss.run .default) := by rfl
  have answer : (nearMiss.run .default).solution.answer = .optimal 1 [1] := by decide +kernel
  have hides : (nearMiss.lastTableau .default).shortfall = 1 / 10 ^ 8 := by decide +kernel
  have accepted : (Settings.default : Settings ℚ).feasTol * nearMiss.scale = 2 / 10 ^ 7 := by decide +kernel
  have bound := (maxViolation_le_of_solve tolerant solved answer).2.2 (by rw [hides, accepted]; norm_num)
  rw [accepted] at bound
  exact ⟨tolerant, solved, answer, hides, bound.trans (by decide +kernel)⟩

/-- A program whose first row can be met only on entries near the pivot tolerance. -/
def smallEntries : Program ℚ :=
  ⟨[-2, 5, -1], [[2 / 10 ^ 9, -5 / 10 ^ 10, 0], [1, 0, 1]], [-1 / 10 ^ 7, 10]⟩

/-- Phase one ends at `10⁻⁷`, all of it in one artificial variable. That is driven out on the entry `-2 · 10⁻⁹`, so
that `x₀` becomes `-50` and is raised to zero: the answer violates the second row by `50`, while `(0, 200, 10)`
is a point of the program. -/
theorem maxViolation_above_tolerance :
    smallEntries.fault? = none ∧ smallEntries.maxViolation [0, 200, 10] = 0 ∧
      (smallEntries.run .default).solution.answer = .optimal (-60) [0, 0, 60] ∧
      (Settings.default : Settings ℚ).feasTol * smallEntries.scale * smallEntries.matrixScale <
        smallEntries.maxViolation [0, 0, 60] := by
  refine ⟨?_, ?_, ?_, ?_⟩ <;> decide +kernel

end Bound

end Program

end Linear

end BranchBound
