import BranchBound.Proofs.Stage

/-!
# The two phases

What the answers of the simplex method mean with exact scalars and tolerances zero. Phase one never
finds a ray, ends above zero only if the program has no point, and otherwise leaves artificial
variables basic in redundant rows only (`Settled`). Phase two keeps these rows, so that its basic
point is a point of the program; `run_answers` puts the phases together.
-/

namespace BranchBound.Linear

open Finset (range)

namespace Tableau

/-! ### The basic solution -/

section Primal
variable {t : Tableau ℚ}

theorem place_of_lt {vars : Nat} {row : Row ℚ} (inside : row.basic < vars) (x : List ℚ) :
    place vars x row = x.set row.basic (Scalar.max row.line.rhs 0) := by
  unfold place
  rw [if_pos inside]

theorem length_foldl_place (vars : Nat) (x : List ℚ) (rows : List (Row ℚ)) :
    (rows.foldl (place vars) x).length = x.length := by
  induction rows generalizing x with
  | nil => rfl
  | cons row rest ih =>
    rw [List.foldl_cons, ih]
    unfold place
    split <;> simp

theorem foldl_place_other {vars : Nat} {x : List ℚ} {rows : List (Row ℚ)} {j : Nat}
    (outside : ∀ s ∈ rows, s.basic ≠ j) : (rows.foldl (place vars) x)[j]? = x[j]? := by
  induction rows generalizing x with
  | nil => rfl
  | cons row rest ih =>
    rw [List.foldl_cons, ih fun s member => outside s (List.mem_cons_of_mem _ member)]
    unfold place
    split
    · exact List.getElem?_set_ne (outside row List.mem_cons_self)
    · rfl

theorem primal_eq_raised (canonical : t.Canonical) (vars : Nat) :
    t.primal vars = (List.range vars).map fun j => max (t.basicPoint j) 0 := by
  apply List.ext_getElem?
  intro j
  by_cases inside : j < vars
  · rw [List.getElem?_map, List.getElem?_range inside, primal]
    by_cases basic : ∃ s ∈ t.rows, s.basic = j
    · obtain ⟨s, member, rfl⟩ := basic
      obtain ⟨k, read⟩ := List.getElem?_of_mem member
      have cut : t.rows = t.rows.take k ++ s :: t.rows.drop (k + 1) := by
        obtain ⟨bound, found⟩ := List.getElem?_eq_some_iff.mp read
        rw [← found, List.getElem_cons_drop, List.take_append_drop]
      have after : ∀ other ∈ t.rows.drop (k + 1), other.basic ≠ s.basic := by
        intro other present same
        obtain ⟨i, found⟩ := List.getElem?_of_mem present
        rw [List.getElem?_drop] at found
        have := canonical.basic_inj found read same
        omega
      have value : t.basicPoint s.basic = s.line.rhs := spread_basic canonical _ member
      conv_lhs => rw [cut]
      rw [List.foldl_append, List.foldl_cons, foldl_place_other after, Option.map_some, value,
        place_of_lt inside, List.getElem?_set_self, Rational.scalar_max]
      rw [length_foldl_place, List.length_replicate]
      exact inside
    · have outside : ∀ s ∈ t.rows, s.basic ≠ j := fun s member same => basic ⟨s, member, same⟩
      rw [foldl_place_other outside, List.getElem?_replicate, if_pos inside, basicPoint,
        Option.map_some, spread_nonbasic _ outside, max_self]
  · rw [List.getElem?_eq_none, List.getElem?_eq_none]
    · simpa using inside
    · rw [primal, length_foldl_place]
      simpa using inside

theorem primal_eq_basicPoint (canonical : t.Canonical) (nonneg : ∀ row ∈ t.rows, 0 ≤ row.line.rhs) (vars : Nat) :
    t.primal vars = (List.range vars).map t.basicPoint := by
  rw [primal_eq_raised canonical]
  refine List.map_congr_left fun j _ => max_eq_left ?_
  exact spread_induction canonical (le_refl 0) nonneg j

end Primal

/-! ### Redundant rows -/

/-- A row whose basic variable is artificial is redundant: it has no entry in a column of the
program or a slack, and its right-hand side is zero. -/
def Settled (t : Tableau ℚ) : Prop :=
  ∀ row ∈ t.rows, t.artificial ≤ row.basic → row.line.rhs = 0 ∧ ∀ j < t.artificial, row.line.entry j = 0

theorem clear_of_entry_zero {l lead : Line ℚ} {col : Nat} (zero : l.entry col = 0) : l.clear col lead = l := by
  unfold Line.clear
  rw [if_pos (by simpa using zero)]

theorem Settled.move {t : Tableau ℚ} {row col : Nat} {r : Row ℚ} (settled : t.Settled)
    (move : Move t.artificial t row col r) : (t.pivot row col).Settled := by
  intro after member high
  rw [artificial_pivot] at high ⊢
  obtain ⟨k, found⟩ := List.getElem?_of_mem member
  rcases mem_pivot move.read found with ⟨-, rfl⟩ | ⟨before, -, read, rfl⟩
  · exact absurd move.low (not_lt.mpr high)
  · have old := settled before (List.mem_of_getElem? read) high
    rw [clear_of_entry_zero (old.2 col move.low)]
    exact old

theorem Settled.basicPoint_eq_zero {t : Tableau ℚ} (settled : t.Settled) (canonical : t.Canonical) {j : Nat}
    (high : t.artificial ≤ j) : t.basicPoint j = 0 := by
  by_cases basic : ∃ s ∈ t.rows, s.basic = j
  · obtain ⟨s, member, rfl⟩ := basic
    exact (spread_basic canonical _ member).trans (settled s member high).1
  · exact spread_nonbasic _ fun s member same => basic ⟨s, member, same⟩

/-! ### Driving artificial variables out -/

/-- The state of driving out after the rows before `k`: the artificial basic variables are zero,
and in the rows before `k` redundant. -/
structure Draining (start t : Tableau ℚ) (rows k : Nat) : Prop extends Ready start t where
  count : t.rows.length = rows
  zero : ∀ row ∈ t.rows, t.artificial ≤ row.basic → row.line.rhs = 0
  cleared : ∀ i < k, ∀ row, t.rows[i]? = some row → t.artificial ≤ row.basic →
    ∀ j < t.artificial, row.line.entry j = 0

theorem outlet_none {t : Tableau ℚ} {k : Nat} {r : Row ℚ} (shaped : t.Shaped) (within : t.artificial ≤ t.columns)
    (found : t.outlet k 0 = none) (read : t.rows[k]? = some r) (high : t.artificial ≤ r.basic) :
    ∀ j < t.artificial, r.line.entry j = 0 := by
  intro j low
  unfold outlet at found
  rw [read] at found
  dsimp only at found
  rw [if_neg (not_lt.mpr high), List.findIdx?_eq_none_iff] at found
  have bound : j < r.line.coeffs.length := by
    rw [shaped.rows r (List.mem_of_getElem? read)]
    omega
  have member : r.line.entry j ∈ r.line.coeffs.take t.artificial := by
    apply List.mem_of_getElem? (i := j)
    rw [List.getElem?_take, if_pos low, List.getElem?_eq_getElem bound]
    simp [Line.entry, List.getD_eq_getElem?_getD, List.getElem?_eq_getElem bound]
  simpa using found _ member

theorem outlet_some {t : Tableau ℚ} {k col : Nat} {tol : ℚ} (tolerant : 0 ≤ tol)
    (found : t.outlet k tol = some col) :
    ∃ r, t.rows[k]? = some r ∧ t.artificial ≤ r.basic ∧ col < t.artificial ∧ r.line.entry col ≠ 0 := by
  unfold outlet at found
  cases read : t.rows[k]? with
  | none => rw [read] at found; cases found
  | some r =>
    rw [read] at found
    dsimp only at found
    split at found
    · cases found
    · rename_i high
      obtain ⟨bound, nonzero, -⟩ := List.findIdx?_eq_some_iff_getElem.mp found
      rw [List.length_take] at bound
      refine ⟨r, rfl, not_lt.mp high, by omega, ?_⟩
      rw [List.getElem_take] at nonzero
      have inside : col < r.line.coeffs.length := by omega
      have entry : r.line.entry col = r.line.coeffs[col] := by
        simp [Line.entry, List.getD_eq_getElem?_getD, List.getElem?_eq_getElem inside]
      rw [entry]
      have large : tol < |r.line.coeffs[col]| := by simpa using nonzero
      exact abs_pos.mp (tolerant.trans_lt large)

/-- A pivot on a row with right-hand side zero moves no right-hand side. -/
theorem rhs_pivot_zero {t : Tableau ℚ} {row col k : Nat} {r after : Row ℚ} (read : t.rows[row]? = some r)
    (zero : r.line.rhs = 0) (found : (t.pivot row col).rows[k]? = some after) :
    ∃ before, t.rows[k]? = some before ∧ after.line.rhs = before.line.rhs := by
  have leadZero : (leading r col).rhs = 0 := by rw [rhs_leading, zero, zero_div]
  rcases mem_pivot read found with ⟨rfl, rfl⟩ | ⟨before, -, present, rfl⟩
  · exact ⟨r, read, leadZero.trans zero.symm⟩
  · refine ⟨before, present, ?_⟩
    show (before.line.clear col (leading r col)).rhs = before.line.rhs
    rw [Line.rhs_clear, leadZero, mul_zero, sub_zero]

theorem Draining.pivot {start t : Tableau ℚ} {rows k col : Nat} {r : Row ℚ} (draining : Draining start t rows k)
    (within : t.artificial ≤ t.columns) (read : t.rows[k]? = some r) (high : t.artificial ≤ r.basic)
    (low : col < t.artificial) (nonzero : r.line.entry col ≠ 0) : Draining start (t.pivot k col) rows (k + 1) := by
  have shaped := draining.canonical.toShaped
  have rowZero := draining.zero r (List.mem_of_getElem? read) high
  refine ⟨⟨pivot_canonical draining.canonical read nonzero (low.trans_le within), ?_,
    (columns_pivot _ _ _).trans draining.columns, (artificial_pivot _ _ _).trans draining.artificial,
    fun z => (pivot_solves shaped read nonzero z).trans (draining.solves z)⟩,
    (length_rows_pivot _ _ _).trans draining.count, ?_, ?_⟩
  · intro after member
    obtain ⟨i, found⟩ := List.getElem?_of_mem member
    obtain ⟨before, present, same⟩ := rhs_pivot_zero read rowZero found
    rw [same]
    exact draining.nonneg before (List.mem_of_getElem? present)
  · intro after member artificial
    rw [artificial_pivot] at artificial
    obtain ⟨i, found⟩ := List.getElem?_of_mem member
    rcases mem_pivot read found with ⟨rfl, rfl⟩ | ⟨before, -, present, rfl⟩
    · exact absurd low (not_lt.mpr artificial)
    · obtain ⟨old, presentOld, same⟩ := rhs_pivot_zero read rowZero found
      obtain rfl : before = old := Option.some.inj (present.symm.trans presentOld)
      exact same.trans (draining.zero before (List.mem_of_getElem? present) artificial)
  · intro i earlier after found artificial j lowJ
    rw [artificial_pivot] at artificial lowJ
    rcases mem_pivot read found with ⟨rfl, rfl⟩ | ⟨before, different, present, rfl⟩
    · exact absurd low (not_lt.mpr artificial)
    · have old := draining.cleared i (by omega) before present artificial
      show (before.line.clear col (leading r col)).entry j = 0
      rw [clear_of_entry_zero (old col low)]
      exact old j lowJ

theorem Draining.drive {start : Tableau ℚ} {state : Tableau ℚ × Nat} {rows k : Nat}
    (draining : Draining start state.1 rows k) (within : start.artificial ≤ start.columns) :
    Draining start (drive 0 state k).1 rows (k + 1) := by
  have inside : state.1.artificial ≤ state.1.columns := by
    rw [draining.artificial, draining.columns]
    exact within
  unfold Tableau.drive
  cases found : state.1.outlet k 0 with
  | none =>
    refine ⟨draining.toReady, draining.count, draining.zero, ?_⟩
    intro i early row read high
    rcases Nat.lt_succ_iff_lt_or_eq.mp early with before | rfl
    · exact draining.cleared i before row read high
    · exact outlet_none draining.canonical.toShaped inside found read high
  | some col =>
    obtain ⟨r, read, high, low, nonzero⟩ := outlet_some (le_refl 0) found
    exact draining.pivot inside read high low nonzero

/-- Driving out ends with artificial variables in redundant rows only. -/
theorem driveOut_settled {start t : Tableau ℚ} (ready : Ready start t) (within : start.artificial ≤ start.columns)
    (zero : ∀ row ∈ t.rows, t.artificial ≤ row.basic → row.line.rhs = 0) :
    Ready start (t.driveOut 0).1 ∧ (t.driveOut 0).1.Settled := by
  have drained : ∀ k, Draining start ((List.range k).foldl (drive 0) (t, 0)).1 t.rows.length k := by
    intro k
    induction k with
    | zero => exact ⟨ready, rfl, zero, fun i early => absurd early (Nat.not_lt_zero i)⟩
    | succ k ih =>
      rw [List.range_succ, List.foldl_append, List.foldl_cons, List.foldl_nil]
      exact ih.drive within
  have done := drained t.rows.length
  rw [← driveOut] at done
  refine ⟨done.toReady, ?_⟩
  intro row member high
  obtain ⟨i, read⟩ := List.getElem?_of_mem member
  have bound : i < t.rows.length := done.count ▸ (List.getElem?_eq_some_iff.mp read).1
  exact ⟨done.zero row member high, done.cleared i bound row read high⟩

end Tableau

namespace Program

open Tableau

/-! ### What answers mean -/

/-- What an answer says about the real points of a program. -/
def Answers (p : Program ℚ) : Relaxation ℚ → Prop
  | .optimal objective x => p.Feasible x ∧ objective = Scalar.dot p.objective x ∧
      ∀ y : List ℝ, p.Feasible y → (objective : ℝ) ≤ form p.objective y
  | .infeasible => ∀ y : List ℝ, ¬p.Feasible y
  | .unbounded => ∀ bound : ℝ, ∃ y : List ℝ, p.Feasible y ∧ form p.objective y < bound
  | .iterationLimit _ _ => True

section Sound
variable {p : Program ℚ} {t : Tableau ℚ}

theorem columns_le (p : Program ℚ) :
    p.objective.length ≤ (build p).artificial ∧ (build p).artificial ≤ (build p).columns := by
  rw [build_columns, build_artificial]
  omega

theorem total_structural (p : Program ℚ) (z : ℕ → ℝ) : (build p).total p.structuralCost z =
    form p.objective ((List.range p.objective.length).map z) := by
  have bounds := p.columns_le
  rw [form_map_range]
  unfold total structuralCost
  have split : ∀ j ∈ range (build p).columns,
      (((if j < p.objective.length then p.objective.getD j 0 else 0 : ℚ)) : ℝ) * z j =
        if j < p.objective.length then (p.objective.getD j 0 : ℝ) * z j else 0 := by
    intro j _
    split <;> simp
  rw [Finset.sum_congr rfl split, ← Finset.sum_filter]
  refine Finset.sum_congr ?_ fun _ _ => rfl
  ext j
  simp only [Finset.mem_filter, Finset.mem_range]
  omega

theorem total_structural_extend {y : List ℝ} (feasible : p.Feasible y) :
    (build p).total p.structuralCost (extend p y) = form p.objective y := by
  have length : y.length = p.objective.length := feasible.length
  rw [total_structural, form_map_range, form_eq_sum length.symm, length]
  refine Finset.sum_congr rfl fun j member => ?_
  rw [extend_low (Finset.mem_range.mp member)]

theorem total_artificial (p : Program ℚ) (z : ℕ → ℝ) : (build p).total (artificialCost (build p)) z =
    ∑ j ∈ range (build p).columns, if (build p).artificial ≤ j then z j else 0 := by
  unfold total artificialCost
  refine Finset.sum_congr rfl fun j _ => ?_
  split <;> simp

theorem build_ready (valid : p.fault? = none) : Ready (build p) (build p) where
  canonical := build_canonical (fault?_none valid).2.1
  nonneg := build_nonneg p
  columns := rfl
  artificial := rfl
  solves _ := Iff.rfl

/-! ### Phase two -/

theorem feasible_primal (valid : p.fault? = none) (ready : Ready (build p) t) (settled : t.Settled) :
    p.Feasible (t.primal p.objective.length) := by
  obtain ⟨-, counted, wide⟩ := fault?_none valid
  have solved := (ready.solves _).mp (solves_basicPoint ready.canonical)
  have nonneg : ∀ j < (build p).columns, (0 : ℝ) ≤ t.basicPoint j := by
    intro j _
    have := spread_induction ready.canonical (le_refl 0) ready.nonneg j
    exact_mod_cast this
  have noArtificial : ∀ j, (build p).artificial ≤ j → j < (build p).columns → (t.basicPoint j : ℝ) = 0 := by
    intro j high _
    rw [← ready.artificial] at high
    rw [settled.basicPoint_eq_zero ready.canonical high]
    norm_num
  have point := feasible_of_solves counted wide solved nonneg noArtificial
  rw [primal_eq_basicPoint ready.canonical ready.nonneg, ← feasible_cast (K := ℝ), List.map_map]
  exact point

theorem dot_primal (stage : Stage (build p) p.structuralCost t) :
    Scalar.dot p.objective (t.primal p.objective.length) = t.objective := by
  have cost := stage.total_basicPoint
  have read : ((List.range p.objective.length).map t.basicPoint).map (Rat.cast : ℚ → ℝ) =
      (List.range p.objective.length).map fun j => (t.basicPoint j : ℝ) := List.map_map
  rw [total_structural, ← read, form_cast] at cost
  rw [primal_eq_basicPoint stage.canonical stage.nonneg, ← form_rat]
  exact_mod_cast cost

theorem optimal_of_entering_none (valid : p.fault? = none) (stage : Stage (build p) p.structuralCost t)
    (settled : t.Settled) (ended : t.entering (build p).artificial 0 = none) :
    p.Answers (.optimal (Scalar.dot p.objective (t.primal p.objective.length)) (t.primal p.objective.length)) := by
  obtain ⟨-, counted, wide⟩ := fault?_none valid
  refine ⟨feasible_primal valid stage.toReady settled, rfl, ?_⟩
  intro y feasible
  rw [dot_primal stage, ← total_structural_extend feasible]
  refine stage.objective_le (solves_extend counted wide feasible) (fun j _ => extend_nonneg feasible j) ?_
  intro j inside nonzero
  refine entering_none stage.shaped ended ?_ (stage.columns ▸ inside)
  by_contra high
  exact nonzero (extend_artificial (not_lt.mp high))

/-- Without a leaving row the program has points of every value. -/
theorem unbounded_of_ratioTest_none (valid : p.fault? = none) (stage : Stage (build p) p.structuralCost t)
    (settled : t.Settled) {col : Nat} (enters : t.entering (build p).artificial 0 = some col)
    (stuck : t.ratioTest col 0 = none) : p.Answers .unbounded := by
  obtain ⟨-, counted, wide⟩ := fault?_none valid
  obtain ⟨low, -, negative, -⟩ := entering_some stage.shaped enters
  rw [← stage.artificial] at low
  have rate : (t.cost.entry col : ℝ) < 0 := by exact_mod_cast negative
  have upward := edge_nonneg stage.canonical (ratioTest_eq_none_iff.mp stuck)
  intro bound
  -- Far enough along the edge the cost is one below the bound or below the basic point.
  obtain ⟨θ, forward, far⟩ : ∃ θ : ℝ, 0 ≤ θ ∧ t.objective + θ * t.cost.entry col < bound := by
    refine ⟨max 0 ((t.objective - bound + 1) / -t.cost.entry col), le_max_left _ _, ?_⟩
    have enough := le_max_right 0 (((t.objective : ℝ) - bound + 1) / -t.cost.entry col)
    rw [div_le_iff₀ (by linarith)] at enough
    linarith
  refine ⟨(List.range p.objective.length).map (t.along col θ), ?_, ?_⟩
  · refine feasible_of_solves counted wide (stage.solves_along col θ) ?_ ?_
    · intro j _
      have basic : (0 : ℝ) ≤ t.basicPoint j := by exact_mod_cast stage.basicPoint_nonneg j
      exact add_nonneg basic (mul_nonneg forward (upward j))
    · intro j high _
      rw [← stage.artificial] at high
      have basic := settled.basicPoint_eq_zero stage.canonical high
      have still : t.spread (fun row => row.line.entry col) j = 0 := by
        by_cases present : ∃ row ∈ t.rows, row.basic = j
        · obtain ⟨row, member, rfl⟩ := present
          exact (spread_basic stage.canonical _ member).trans ((settled row member high).2 col low)
        · exact spread_nonbasic _ fun row member same => present ⟨row, member, same⟩
      unfold along edge
      rw [basic, still, if_neg (by omega)]
      norm_num
  · rw [← total_structural, stage.total_along]
    exact far

theorem phaseTwo_keeps (ready : Ready (build p) t) (settled : t.Settled) (budget pivots : Nat) :
    Stage (build p) p.structuralCost
        (runPhase (build p).artificial 0 budget pivots (t.price p.structuralCost)).tableau ∧
      (runPhase (build p).artificial 0 budget pivots (t.price p.structuralCost)).tableau.Settled := by
  refine runPhase_keeps ?_ budget pivots (ready.price p.structuralCost) settled
  intro u row col r stage holds move
  rw [← stage.artificial] at move
  exact holds.move move

theorem phaseTwo_answers (valid : p.fault? = none) (ready : Ready (build p) t) (settled : t.Settled)
    {s : Settings ℚ} (exactPivots : s.pivotTol = 0) (pivots driven : Nat) (log : List (Event ℚ)) :
    p.Answers (p.phaseTwo s t pivots driven log).solution.answer := by
  obtain ⟨stage, still⟩ := phaseTwo_keeps ready settled (s.maxPivots - pivots) pivots
  unfold phaseTwo
  rw [exactPivots, ready.artificial]
  dsimp only
  cases finished :
      (runPhase (build p).artificial 0 (s.maxPivots - pivots) pivots (t.price p.structuralCost)).finish with
  | optimal => exact optimal_of_entering_none valid stage still (runPhase_optimal finished)
  | outOfPivots => trivial
  | unbounded =>
    obtain ⟨col, enters, stuck⟩ := runPhase_unbounded finished
    exact unbounded_of_ratioTest_none valid stage still enters stuck

/-! ### Phase one -/

theorem total_artificial_nonneg {z : ℕ → ℝ} (nonneg : ∀ j < (build p).columns, 0 ≤ z j) :
    0 ≤ (build p).total (artificialCost (build p)) z := by
  rw [total_artificial]
  refine Finset.sum_nonneg fun j member => ?_
  split
  · exact nonneg j (Finset.mem_range.mp member)
  · exact le_refl _

/-- Phase one is bounded below by zero: a column that enters finds a row that leaves. -/
theorem ratioTest_ne_none {limit col : Nat} (stage : Stage (build p) (artificialCost (build p)) t)
    (enters : t.entering limit 0 = some col) : t.ratioTest col 0 ≠ none := by
  intro stuck
  obtain ⟨-, -, negative, -⟩ := entering_some stage.shaped enters
  have rate : (t.cost.entry col : ℝ) < 0 := by exact_mod_cast negative
  have upward := edge_nonneg stage.canonical (ratioTest_eq_none_iff.mp stuck)
  have basic : ∀ j, (0 : ℝ) ≤ t.basicPoint j := fun j => by exact_mod_cast stage.basicPoint_nonneg j
  have start : (0 : ℝ) ≤ t.objective := by
    rw [← stage.total_basicPoint]
    exact total_artificial_nonneg fun j _ => basic j
  have forward : (0 : ℝ) ≤ (t.objective + 1) / -t.cost.entry col := div_nonneg (by linarith) (by linarith)
  have above : 0 ≤ (build p).total (artificialCost (build p))
      (t.along col ((t.objective + 1) / -t.cost.entry col)) :=
    total_artificial_nonneg fun j _ => add_nonneg (basic j) (mul_nonneg forward (upward j))
  rw [stage.total_along, div_mul_eq_mul_div, mul_div_assoc, div_neg, div_self rate.ne] at above
  linarith

theorem phaseOne_keeps (valid : p.fault? = none) (budget : Nat) :
    Stage (build p) (artificialCost (build p))
      (runPhase (build p).columns 0 budget 0 ((build p).price (artificialCost (build p)))).tableau :=
  ((build_ready valid).price (artificialCost (build p))).run (build p).columns budget 0

theorem phaseOne_not_unbounded (valid : p.fault? = none) (budget : Nat) :
    (runPhase (build p).columns 0 budget 0 ((build p).price (artificialCost (build p)))).finish ≠
      .unbounded := by
  intro finished
  obtain ⟨col, enters, stuck⟩ := runPhase_unbounded finished
  exact ratioTest_ne_none (phaseOne_keeps valid budget) enters stuck

/-- A positive optimum of phase one leaves no point. -/
theorem infeasible_of_objective_pos (valid : p.fault? = none)
    (stage : Stage (build p) (artificialCost (build p)) t) (ended : t.entering (build p).columns 0 = none)
    (positive : 0 < t.objective) : p.Answers .infeasible := by
  obtain ⟨-, counted, wide⟩ := fault?_none valid
  intro y feasible
  have below := stage.objective_le (solves_extend counted wide feasible) (fun j _ => extend_nonneg feasible j)
    fun j inside _ => entering_none stage.shaped ended inside (stage.columns ▸ inside)
  have zero : (build p).total (artificialCost (build p)) (extend p y) = 0 := by
    rw [total_artificial]
    refine Finset.sum_eq_zero fun j _ => ?_
    split
    · rename_i high
      exact extend_artificial high
    · rfl
  rw [zero] at below
  have : (0 : ℝ) < t.objective := by exact_mod_cast positive
  linarith

/-- An optimum of phase one at zero leaves the artificial variables at zero. -/
theorem artificial_zero_of_objective (stage : Stage (build p) (artificialCost (build p)) t)
    (bounded : t.objective ≤ 0) : ∀ row ∈ t.rows, t.artificial ≤ row.basic → row.line.rhs = 0 := by
  intro row member high
  have inside := stage.canonical.basic row member
  rw [stage.columns] at inside
  rw [stage.artificial] at high
  have sum := stage.total_basicPoint
  rw [total_artificial] at sum
  have terms : ∀ j ∈ range (build p).columns,
      (0 : ℝ) ≤ if (build p).artificial ≤ j then (t.basicPoint j : ℝ) else 0 := by
    intro j _
    split
    · exact_mod_cast stage.basicPoint_nonneg j
    · exact le_refl _
  have one := Finset.single_le_sum terms (Finset.mem_range.mpr inside)
  rw [if_pos high, sum, basicPoint, spread_basic stage.canonical _ member] at one
  have low : row.line.rhs ≤ t.objective := by exact_mod_cast one
  exact le_antisymm (low.trans bounded) (stage.nonneg row member)

theorem phaseOne_answers (valid : p.fault? = none) {s : Settings ℚ} (exactPivots : s.pivotTol = 0)
    (exactFeasibility : s.feasTol = 0) : p.Answers (p.phaseOne s (build p)).solution.answer := by
  have stage := phaseOne_keeps valid s.maxPivots
  unfold phaseOne
  rw [exactPivots, exactFeasibility]
  dsimp only
  cases finished : (runPhase (build p).columns 0 s.maxPivots 0
      ((build p).price (artificialCost (build p)))).finish with
  | outOfPivots => trivial
  | unbounded => trivial
  | optimal =>
    dsimp only
    split
    · rename_i above
      rw [Rational.scalar_lt, decide_eq_true_eq] at above
      exact infeasible_of_objective_pos valid stage (runPhase_optimal finished)
        ((zero_mul p.scale).symm.trans_lt above)
    · rename_i notAbove
      rw [Rational.scalar_lt, decide_eq_true_eq, not_lt] at notAbove
      have bounded := notAbove.trans_eq (zero_mul p.scale)
      obtain ⟨ready, settled⟩ := driveOut_settled stage.toReady p.columns_le.2
        (artificial_zero_of_objective stage bounded)
      exact phaseTwo_answers valid ready settled exactPivots _ _ _

theorem build_settled (valid : p.fault? = none) (none : (build p).hasArtificials = false) :
    (build p).Settled := by
  intro row member high
  have inside := (build_ready valid).canonical.basic row member
  unfold hasArtificials at none
  have := of_decide_eq_false none
  omega

/-- With exact scalars and tolerances zero the answer of a solve is true. -/
theorem run_answers (valid : p.fault? = none) {s : Settings ℚ} (exactPivots : s.pivotTol = 0)
    (exactFeasibility : s.feasTol = 0) : p.Answers (p.run s).solution.answer := by
  unfold run
  dsimp only
  split
  · exact phaseOne_answers valid exactPivots exactFeasibility
  · rename_i noArtificials
    exact phaseTwo_answers valid (build_ready valid) (build_settled valid (by simpa using noArtificials))
      exactPivots _ _ _

/-! ### The journal -/

theorem mem_log_phaseTwo {s : Settings ℚ} {pivots driven : Nat} {log : List (Event ℚ)} {event : Event ℚ}
    (told : event ∈ (p.phaseTwo s t pivots driven log).log) :
    event ∈ log ∨ (∃ n v, event = .optimumFound n v) ∨ ∃ n, event = .rayFound n := by
  unfold phaseTwo at told
  dsimp only at told
  split at told
  · simp only [List.mem_append, List.mem_singleton] at told
    rcases told with old | new
    · exact Or.inl old
    · exact Or.inr (Or.inl ⟨_, _, new⟩)
  · exact Or.inl told
  · simp only [List.mem_append, List.mem_singleton] at told
    rcases told with old | new
    · exact Or.inl old
    · exact Or.inr (Or.inr ⟨_, new⟩)

theorem phaseOneUnbounded_notMem_log (valid : p.fault? = none) {s : Settings ℚ} (exactPivots : s.pivotTol = 0)
    (pivots : Nat) : .phaseOneUnbounded pivots ∉ (p.run s).log := by
  have later : ∀ {t : Tableau ℚ} {n driven : Nat} {log : List (Event ℚ)}, .phaseOneUnbounded pivots ∉ log →
      .phaseOneUnbounded pivots ∉ (p.phaseTwo s t n driven log).log := by
    intro t n driven log untold told
    rcases mem_log_phaseTwo told with old | ⟨_, _, optimum⟩ | ⟨_, ray⟩
    · exact untold old
    · cases optimum
    · cases ray
  unfold run
  dsimp only
  split
  · unfold phaseOne
    rw [exactPivots]
    dsimp only
    split
    · simp
    · rename_i unbounded
      exact absurd unbounded (phaseOne_not_unbounded valid s.maxPivots)
    · split
      · simp
      · exact later (by simp)
  · exact later (by simp)

/-! ### Solves -/

theorem solve_ok {s : Settings ℚ} {ended : Run ℚ} (solved : p.solve s = .ok ended) :
    p.fault? = none ∧ p.run s = ended := by
  unfold solve at solved
  split at solved
  · cases solved
  · rename_i valid
    exact ⟨valid, Except.ok.inj solved⟩

/-- A solve with exact scalars and tolerances zero that ends with an optimum has found one. -/
theorem solve_optimal {s : Settings ℚ} {ended : Run ℚ} {objective : ℚ} {x : List ℚ}
    (exactPivots : s.pivotTol = 0) (exactFeasibility : s.feasTol = 0) (solved : p.solve s = .ok ended)
    (answer : ended.solution.answer = .optimal objective x) :
    x.length = p.objective.length ∧ (∀ v ∈ x, 0 ≤ v) ∧
      (∀ pair ∈ p.rows.zip p.rhs, Scalar.dot pair.1 x ≤ pair.2) ∧ objective = Scalar.dot p.objective x ∧
      ∀ y : List ℝ, p.Feasible y → (objective : ℝ) ≤ form p.objective y := by
  obtain ⟨valid, rfl⟩ := solve_ok solved
  have true := run_answers valid exactPivots exactFeasibility
  rw [answer] at true
  obtain ⟨feasible, value, least⟩ := true
  refine ⟨feasible.length, feasible.nonneg, ?_, value, least⟩
  intro pair member
  have below := feasible.rows pair member
  rw [form_rat] at below
  exact_mod_cast below

/-- The least `-x` under `x ≤ 3`, with `x ≥ 1` written twice so that phase one meets a tie. -/
theorem solve_optimal_repeated_row :
    (⟨[-1], [[-1], [-1], [1]], [-1, -1, 3]⟩ : Program ℚ).solve ⟨10, 0, 0⟩ =
        .ok ((⟨[-1], [[-1], [-1], [1]], [-1, -1, 3]⟩ : Program ℚ).run ⟨10, 0, 0⟩) ∧
      ((⟨[-1], [[-1], [-1], [1]], [-1, -1, 3]⟩ : Program ℚ).run ⟨10, 0, 0⟩).solution.answer =
        .optimal (-3) [3] ∧
      ∀ y : List ℝ, (⟨[-1], [[-1], [-1], [1]], [-1, -1, 3]⟩ : Program ℚ).Feasible y →
        ((-3 : ℚ) : ℝ) ≤ form [-1] y := by
  have solved : (⟨[-1], [[-1], [-1], [1]], [-1, -1, 3]⟩ : Program ℚ).solve ⟨10, 0, 0⟩ =
      .ok ((⟨[-1], [[-1], [-1], [1]], [-1, -1, 3]⟩ : Program ℚ).run ⟨10, 0, 0⟩) := by rfl
  have answer : ((⟨[-1], [[-1], [-1], [1]], [-1, -1, 3]⟩ : Program ℚ).run ⟨10, 0, 0⟩).solution.answer =
      .optimal (-3) [3] := by decide +kernel
  exact ⟨solved, answer, (solve_optimal rfl rfl solved answer).2.2.2.2⟩

/-- A solve with exact scalars and tolerances zero that finds no point is right, and phase one always
has a row that leaves: the branch for its breakdown is never taken. -/
theorem solve_infeasible {s : Settings ℚ} {ended : Run ℚ} (exactPivots : s.pivotTol = 0)
    (exactFeasibility : s.feasTol = 0) (solved : p.solve s = .ok ended) :
    (ended.solution.answer = .infeasible → ∀ y : List ℝ, ¬p.Feasible y) ∧
      (∀ budget, (runPhase (build p).columns s.pivotTol budget 0
        ((build p).price (artificialCost (build p)))).finish ≠ .unbounded) ∧
      ∀ pivots, .phaseOneUnbounded pivots ∉ ended.log := by
  obtain ⟨valid, rfl⟩ := solve_ok solved
  refine ⟨?_, ?_, phaseOneUnbounded_notMem_log valid exactPivots⟩
  · intro answer
    have true := run_answers valid exactPivots exactFeasibility
    rw [answer] at true
    exact true
  · intro budget
    rw [exactPivots]
    exact phaseOne_not_unbounded valid budget

/-- `x ≥ 1` and `y ≥ 1` against `x + y ≤ 1`: two negated rows and a plain one. -/
theorem solve_infeasible_three_rows :
    (⟨[1, 1], [[1, 1], [-1, 0], [0, -1]], [1, -1, -1]⟩ : Program ℚ).solve ⟨10, 0, 0⟩ =
        .ok ((⟨[1, 1], [[1, 1], [-1, 0], [0, -1]], [1, -1, -1]⟩ : Program ℚ).run ⟨10, 0, 0⟩) ∧
      ((⟨[1, 1], [[1, 1], [-1, 0], [0, -1]], [1, -1, -1]⟩ : Program ℚ).run ⟨10, 0, 0⟩).solution =
        ⟨.infeasible, 1⟩ ∧
      ∀ y : List ℝ, ¬(⟨[1, 1], [[1, 1], [-1, 0], [0, -1]], [1, -1, -1]⟩ : Program ℚ).Feasible y := by
  have solved : (⟨[1, 1], [[1, 1], [-1, 0], [0, -1]], [1, -1, -1]⟩ : Program ℚ).solve ⟨10, 0, 0⟩ =
      .ok ((⟨[1, 1], [[1, 1], [-1, 0], [0, -1]], [1, -1, -1]⟩ : Program ℚ).run ⟨10, 0, 0⟩) := by rfl
  have answer : ((⟨[1, 1], [[1, 1], [-1, 0], [0, -1]], [1, -1, -1]⟩ : Program ℚ).run ⟨10, 0, 0⟩).solution =
      ⟨.infeasible, 1⟩ := by decide +kernel
  exact ⟨solved, answer, (solve_infeasible rfl rfl solved).1 (congrArg Solution.answer answer)⟩

/-- A solve with exact scalars and tolerances zero that finds a ray is right: the program has a point,
and points of every value. -/
theorem solve_unbounded {s : Settings ℚ} {ended : Run ℚ} (exactPivots : s.pivotTol = 0)
    (exactFeasibility : s.feasTol = 0) (solved : p.solve s = .ok ended)
    (answer : ended.solution.answer = .unbounded) :
    (∃ y : List ℝ, p.Feasible y) ∧ ∀ bound : ℝ, ∃ y : List ℝ, p.Feasible y ∧ form p.objective y < bound := by
  obtain ⟨valid, rfl⟩ := solve_ok solved
  have true := run_answers valid exactPivots exactFeasibility
  rw [answer] at true
  have below : ∀ bound : ℝ, ∃ y : List ℝ, p.Feasible y ∧ form p.objective y < bound := true
  obtain ⟨y, feasible, -⟩ := below 0
  exact ⟨⟨y, feasible⟩, below⟩

/-- The least `-x` under `x ≥ 1` and `2 x ≥ 2`: the ray is found after phase one has met a tie. -/
theorem solve_unbounded_repeated_row :
    (⟨[-1], [[-1], [-2]], [-1, -2]⟩ : Program ℚ).solve ⟨10, 0, 0⟩ =
        .ok ((⟨[-1], [[-1], [-2]], [-1, -2]⟩ : Program ℚ).run ⟨10, 0, 0⟩) ∧
      ((⟨[-1], [[-1], [-2]], [-1, -2]⟩ : Program ℚ).run ⟨10, 0, 0⟩).solution = ⟨.unbounded, 2⟩ ∧
      ∀ bound : ℝ, ∃ y : List ℝ, (⟨[-1], [[-1], [-2]], [-1, -2]⟩ : Program ℚ).Feasible y ∧
        form [-1] y < bound := by
  have solved : (⟨[-1], [[-1], [-2]], [-1, -2]⟩ : Program ℚ).solve ⟨10, 0, 0⟩ =
      .ok ((⟨[-1], [[-1], [-2]], [-1, -2]⟩ : Program ℚ).run ⟨10, 0, 0⟩) := by rfl
  have answer : ((⟨[-1], [[-1], [-2]], [-1, -2]⟩ : Program ℚ).run ⟨10, 0, 0⟩).solution = ⟨.unbounded, 2⟩ := by
    decide +kernel
  exact ⟨solved, answer, (solve_unbounded rfl rfl solved (congrArg Solution.answer answer)).2⟩

end Sound

end Program

end BranchBound.Linear
