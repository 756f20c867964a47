import BranchBound.Proofs.TwoPhase

/-!
# Bland's rule

A walk by the pivot rule never comes back to a basis: its moves would leave the basic point where
it is (`Walk.basicPoint_eq`), and the highest column that enters on the way could not leave again
(`Walk.not_closed`). So a phase makes fewer moves than its columns have subsets (`Walk.length_lt`).
-/

namespace BranchBound.Linear

open Finset (range)

namespace Tableau

/-! ### Bases -/

/-- The columns that the rows determine. -/
def basis (t : Tableau ℚ) : Finset ℕ :=
  (t.rows.map Row.basic).toFinset

section Basis
variable {t : Tableau ℚ} {row col : Nat} {r : Row ℚ}

theorem mem_basis {j : Nat} : j ∈ t.basis ↔ ∃ s ∈ t.rows, s.basic = j := by
  simp [basis]

theorem basis_subset (shaped : t.Shaped) : t.basis ⊆ range t.columns := by
  intro j member
  obtain ⟨s, present, rfl⟩ := mem_basis.mp member
  exact Finset.mem_range.mpr (shaped.basic s present)

theorem basicPoint_of_notMem {j : Nat} (outside : j ∉ t.basis) : t.basicPoint j = 0 := by
  refine spread_nonbasic _ fun s present same => ?_
  exact outside (mem_basis.mpr ⟨s, present, same⟩)

theorem cost_of_mem (reduced : t.Reduced) {j : Nat} (member : j ∈ t.basis) : t.cost.entry j = 0 := by
  obtain ⟨s, present, rfl⟩ := mem_basis.mp member
  exact reduced s present

theorem mem_basis_pivot (canonical : t.Canonical) (read : t.rows[row]? = some r) {j : Nat} :
    j ∈ (t.pivot row col).basis ↔ j = col ∨ j ∈ t.basis ∧ j ≠ r.basic := by
  rw [mem_basis]
  constructor
  · rintro ⟨after, present, rfl⟩
    obtain ⟨k, found⟩ := List.getElem?_of_mem present
    rcases mem_pivot read found with ⟨-, rfl⟩ | ⟨before, different, old, rfl⟩
    · exact Or.inl rfl
    · right
      refine ⟨mem_basis.mpr ⟨before, List.mem_of_getElem? old, rfl⟩, ?_⟩
      intro same
      exact different (canonical.basic_inj old read same)
  · rintro (rfl | ⟨member, different⟩)
    · exact ⟨_, List.mem_of_getElem? (pivot_lead read), rfl⟩
    · obtain ⟨before, present, rfl⟩ := mem_basis.mp member
      obtain ⟨k, old⟩ := List.getElem?_of_mem present
      have elsewhere : k ≠ row := by
        rintro rfl
        obtain rfl : r = before := Option.some.inj (read.symm.trans old)
        exact different rfl
      exact ⟨_, List.mem_of_getElem? (pivot_other read elsewhere old), rfl⟩

end Basis

/-! ### One move -/

section Moves
variable {start t : Tableau ℚ} {columnCost : Nat → ℚ} {limit row col : Nat} {r : Row ℚ}

theorem Move.notMem (move : Move limit t row col r) (reduced : t.Reduced) : col ∉ t.basis := by
  intro member
  exact move.negative.ne (cost_of_mem reduced member)

theorem Move.objective_le (move : Move limit t row col r) (stage : Stage start columnCost t) :
    (t.pivot row col).objective ≤ t.objective := by
  have ratio : 0 ≤ r.line.rhs / r.line.entry col := div_nonneg (stage.nonneg r move.member) move.positive.le
  have change := mul_nonpos_of_nonpos_of_nonneg move.negative.le ratio
  rw [objective_pivot move.read]
  linarith

theorem Move.basicPoint_eq (move : Move limit t row col r) (stage : Stage start columnCost t)
    (level : (t.pivot row col).objective = t.objective) {j : Nat} (inside : j < start.columns) :
    (t.pivot row col).basicPoint j = t.basicPoint j := by
  have zero : r.line.rhs = 0 := by
    rw [objective_pivot move.read, add_eq_left, mul_eq_zero, div_eq_zero_iff] at level
    rcases level with flat | empty | flat
    · exact absurd flat move.negative.ne
    · exact empty
    · exact absurd flat move.nonzero
  have after := stage.move move
  have solved : (t.pivot row col).Solves fun j => (t.basicPoint j : ℝ) :=
    (after.solves _).mpr stage.solves_basicPoint
  have outside : ∀ j < (t.pivot row col).columns, (∀ s ∈ (t.pivot row col).rows, s.basic ≠ j) →
      (t.basicPoint j : ℝ) = 0 := by
    intro j _ nonbasic
    have absent : j ∉ (t.pivot row col).basis := by
      rintro member
      obtain ⟨s, present, same⟩ := mem_basis.mp member
      exact nonbasic s present same
    rw [mem_basis_pivot stage.canonical move.read] at absent
    by_cases leaving : j = r.basic
    · rw [leaving, basicPoint, spread_basic stage.canonical _ move.member, zero, Rat.cast_zero]
    · have still : j ∉ t.basis := fun member => absent (Or.inr ⟨member, leaving⟩)
      rw [basicPoint_of_notMem still, Rat.cast_zero]
  have same := eq_basicPoint after.canonical solved outside (by rw [after.columns]; exact inside)
  exact_mod_cast same.symm

/-- Where the leaving row has nothing to give, rows with a lower column and nothing to give do not fall. -/
theorem Move.entry_nonpos (move : Move limit t row col r) (empty : r.line.rhs = 0) {s : Row ℚ}
    (member : s ∈ t.rows) (zero : s.line.rhs = 0) (lower : s.basic < r.basic) : s.line.entry col ≤ 0 := by
  by_contra positive
  rcases move.least s member (not_le.mp positive) with less | ⟨-, order⟩
  · rw [empty, zero, zero_div, zero_div] at less
    exact lt_irrefl 0 less
  · omega

end Moves

section Edge
variable {t : Tableau ℚ} {col : Nat}

theorem edge_self (outside : col ∉ t.basis) : t.edge col col = 1 := by
  unfold edge
  rw [if_pos rfl, spread_nonbasic _ fun s present same => outside (mem_basis.mpr ⟨s, present, same⟩)]
  norm_num

theorem edge_basic (canonical : t.Canonical) {s : Row ℚ} (member : s ∈ t.rows) (different : s.basic ≠ col) :
    t.edge col s.basic = -(s.line.entry col : ℝ) := by
  unfold edge
  rw [if_neg different, spread_basic canonical _ member]
  ring

theorem edge_other {j : Nat} (outside : j ∉ t.basis) (different : j ≠ col) : t.edge col j = 0 := by
  unfold edge
  rw [if_neg different, spread_nonbasic _ fun s present same => outside (mem_basis.mpr ⟨s, present, same⟩)]
  norm_num

end Edge

/-- Stages of one phase with the same basis have the same basic point. -/
theorem Stage.basicPoint_eq {start t u : Tableau ℚ} {columnCost : Nat → ℚ} (stage : Stage start columnCost t)
    (other : Stage start columnCost u) (same : u.basis = t.basis) {j : Nat} (inside : j < start.columns) :
    u.basicPoint j = t.basicPoint j := by
  have solved : t.Solves fun j => (u.basicPoint j : ℝ) := (stage.solves _).mpr other.solves_basicPoint
  have outside : ∀ j < t.columns, (∀ s ∈ t.rows, s.basic ≠ j) → (u.basicPoint j : ℝ) = 0 := by
    intro j _ nonbasic
    have absent : j ∉ u.basis := by
      rw [same, mem_basis]
      rintro ⟨s, present, basic⟩
      exact nonbasic s present basic
    rw [basicPoint_of_notMem absent, Rat.cast_zero]
  have equal := eq_basicPoint stage.canonical solved outside (by rw [stage.columns]; exact inside)
  exact_mod_cast equal

theorem Stage.objective_eq {start t u : Tableau ℚ} {columnCost : Nat → ℚ} (stage : Stage start columnCost t)
    (other : Stage start columnCost u) (same : u.basis = t.basis) : u.objective = t.objective := by
  have totals : start.total columnCost (fun j => (u.basicPoint j : ℝ)) =
      start.total columnCost (fun j => (t.basicPoint j : ℝ)) := by
    unfold total
    refine Finset.sum_congr rfl fun j member => ?_
    dsimp only
    rw [stage.basicPoint_eq other same (Finset.mem_range.mp member)]
  rw [stage.total_basicPoint, other.total_basicPoint] at totals
  exact_mod_cast totals

theorem Stage.slope_edge {start t u : Tableau ℚ} {columnCost : Nat → ℚ} (stage : Stage start columnCost t)
    (other : Stage start columnCost u) (col : Nat) : u.cost.slope (t.edge col) = t.cost.entry col := by
  have still := other.total_eq (stage.solves_along col 0)
  have moved := other.total_eq (stage.solves_along col 1)
  rw [stage.total_along, slope_along] at still moved
  linarith

/-! ### Walks -/

/-- Tableaux of a phase, each but the first a move from the one before. -/
structure Walk (start : Tableau ℚ) (columnCost : Nat → ℚ) (limit : Nat) (u : ℕ → Tableau ℚ) (n : ℕ) : Prop where
  stage : ∀ i ≤ n, Stage start columnCost (u i)
  moves : ∀ i < n, ∃ row col r, Move limit (u i) row col r ∧ u (i + 1) = (u i).pivot row col

/-- A property that holds at both ends or at neither is lost on the way if it holds somewhere but
not everywhere. -/
theorem exists_fall {P : ℕ → Prop} {n : ℕ} (closed : P n ↔ P 0) {e l : ℕ} (early : e ≤ n) (absent : ¬P e)
    (late : l ≤ n) (present : P l) : ∃ i < n, P i ∧ ¬P (i + 1) := by
  by_contra none
  have rises : ∀ i k, i ≤ k → k ≤ n → P i → P k := by
    intro i k below within holds
    induction k, below using Nat.le_induction with
    | base => exact holds
    | succ k _ ih =>
      by_contra lost
      exact none ⟨k, within, ih (by omega), lost⟩
  have last : P n := rises l n late (le_refl n) present
  exact absent (rises 0 e (Nat.zero_le e) early (closed.mp last))

namespace Walk
variable {start : Tableau ℚ} {columnCost : Nat → ℚ} {limit : Nat} {u : ℕ → Tableau ℚ} {n : ℕ}

theorem segment (walk : Walk start columnCost limit u n) {a k : ℕ} (within : a + k ≤ n) :
    Walk start columnCost limit (fun i => u (a + i)) k where
  stage i below := walk.stage (a + i) (by omega)
  moves i below := walk.moves (a + i) (by omega)

theorem objective_le (walk : Walk start columnCost limit u n) {i k : ℕ} (below : i ≤ k) (within : k ≤ n) :
    (u k).objective ≤ (u i).objective := by
  induction k, below using Nat.le_induction with
  | base => exact le_refl _
  | succ k _ ih =>
    obtain ⟨row, col, r, move, next⟩ := walk.moves k within
    rw [next]
    exact (move.objective_le (walk.stage k (by omega))).trans (ih (by omega))

theorem basicPoint_eq (walk : Walk start columnCost limit u n) (closed : (u n).basis = (u 0).basis) {i : ℕ}
    (within : i ≤ n) {j : Nat} (inside : j < start.columns) : (u i).basicPoint j = (u 0).basicPoint j := by
  have ends := (walk.stage 0 (Nat.zero_le n)).objective_eq (walk.stage n (le_refl n)) closed
  have level : ∀ i ≤ n, (u i).objective = (u 0).objective := by
    intro i within
    refine le_antisymm (walk.objective_le (Nat.zero_le i) within) ?_
    rw [← ends]
    exact walk.objective_le within (le_refl n)
  induction i with
  | zero => rfl
  | succ i ih =>
    obtain ⟨row, col, r, move, next⟩ := walk.moves i within
    have before := level i (by omega)
    have after := level (i + 1) within
    rw [next] at after ⊢
    rw [move.basicPoint_eq (walk.stage i (by omega)) (after.trans before.symm) inside]
    exact ih (by omega)

def Enters (u : ℕ → Tableau ℚ) (limit n j : ℕ) : Prop :=
  ∃ i < n, ∃ row r, Move limit (u i) row j r ∧ u (i + 1) = (u i).pivot row j

theorem enters_of_change (walk : Walk start columnCost limit u n) (closed : (u n).basis = (u 0).basis) {e l : ℕ}
    (early : e ≤ n) (late : l ≤ n) {j : ℕ} (absent : j ∉ (u e).basis) (present : j ∈ (u l).basis) :
    Enters u limit n j := by
  have ends : j ∉ (u n).basis ↔ j ∉ (u 0).basis := by rw [closed]
  obtain ⟨i, within, before, after⟩ := exists_fall (P := fun i => j ∉ (u i).basis) ends late
    (not_not.mpr present) early absent
  obtain ⟨row, col, r, move, next⟩ := walk.moves i within
  rw [next, mem_basis_pivot (walk.stage i within.le).canonical move.read, not_not] at after
  rcases after with rfl | ⟨member, -⟩
  · exact ⟨i, within, row, r, move, next⟩
  · exact absurd member before

theorem leaves_of_enters (walk : Walk start columnCost limit u n) (closed : (u n).basis = (u 0).basis) {j : ℕ}
    (enters : Enters u limit n j) : ∃ l < n, ∃ row col r, Move limit (u l) row col r ∧
      u (l + 1) = (u l).pivot row col ∧ r.basic = j := by
  obtain ⟨e, early, row, r, move, next⟩ := enters
  have stage := walk.stage e early.le
  have absent : j ∉ (u e).basis := move.notMem stage.reduced
  have present : j ∈ (u (e + 1)).basis := by
    rw [next, mem_basis_pivot stage.canonical move.read]
    exact Or.inl rfl
  have ends : j ∈ (u n).basis ↔ j ∈ (u 0).basis := by rw [closed]
  obtain ⟨l, within, before, after⟩ := exists_fall (P := fun i => j ∈ (u i).basis) ends early.le absent early
    present
  obtain ⟨row, col, r, move, next⟩ := walk.moves l within
  refine ⟨l, within, row, col, r, move, next, ?_⟩
  rw [next, mem_basis_pivot (walk.stage l within.le).canonical move.read] at after
  by_contra different
  exact after (Or.inr ⟨before, Ne.symm different⟩)

theorem exists_highest (walk : Walk start columnCost limit u n) (nonempty : 0 < n) :
    ∃ q, Enters u limit n q ∧ ∀ j, Enters u limit n j → j ≤ q := by
  have bounded : ∀ j, Enters u limit n j → j ≤ start.columns := by
    rintro j ⟨i, within, row, r, move, -⟩
    rw [← (walk.stage i within.le).columns]
    exact move.inside.le
  obtain ⟨row, col, r, move, next⟩ := walk.moves 0 nonempty
  have enters : Enters u limit n col := ⟨0, nonempty, row, r, move, next⟩
  classical
  exact ⟨Nat.findGreatest (Enters u limit n) start.columns, Nat.findGreatest_spec (bounded col enters) enters,
    fun j entersJ => Nat.le_findGreatest (bounded j entersJ) entersJ⟩

theorem rhs_eq_zero (walk : Walk start columnCost limit u n) (closed : (u n).basis = (u 0).basis) {e l : ℕ}
    (early : e ≤ n) (late : l ≤ n) {row : Row ℚ} (member : row ∈ (u l).rows) (absent : row.basic ∉ (u e).basis) :
    row.line.rhs = 0 := by
  have stage := walk.stage l late
  have inside : row.basic < start.columns := stage.columns ▸ stage.canonical.basic row member
  have same := walk.basicPoint_eq closed late inside
  rw [← walk.basicPoint_eq closed early inside, basicPoint_of_notMem absent] at same
  rwa [basicPoint, spread_basic stage.canonical _ member] at same

/-- No walk comes back to a basis. -/
theorem not_closed (walk : Walk start columnCost limit u n) (nonempty : 0 < n)
    (closed : (u n).basis = (u 0).basis) : False := by
  -- `r.basic` is the highest column that enters: at step `e` it enters, at step `l` it leaves for `s`.
  obtain ⟨q, enters, highest⟩ := walk.exists_highest nonempty
  obtain ⟨l, late, row, s, r, leaves, next, rfl⟩ := walk.leaves_of_enters closed enters
  obtain ⟨e, early, _, _, enters, -⟩ := enters
  have stageE := walk.stage e early.le
  have stageL := walk.stage l late.le
  have outsideE : r.basic ∉ (u e).basis := enters.notMem stageE.reduced
  have outsideL : s ∉ (u l).basis := leaves.notMem stageL.reduced
  have different : ∀ row ∈ (u l).rows, row.basic ≠ s := fun row present same =>
    outsideL (mem_basis.mpr ⟨row, present, same⟩)
  have lower : s < r.basic :=
    lt_of_le_of_ne (highest s ⟨l, late, row, r, leaves, next⟩) (different r leaves.member).symm
  have costs : ∀ j < r.basic, (0 : ℝ) ≤ (u e).cost.entry j := fun j less => by exact_mod_cast enters.first j less
  -- Each term of the cost line of step `e` along the edge of step `l` is nonnegative.
  have nonneg : 0 ≤ (u e).cost.slope ((u l).edge s) := by
    unfold Line.slope
    refine Finset.sum_nonneg fun j _ => ?_
    by_cases member : j ∈ (u l).basis
    · obtain ⟨row, present, rfl⟩ := mem_basis.mp member
      by_cases basicE : row.basic ∈ (u e).basis
      · rw [cost_of_mem stageE.reduced basicE, Rat.cast_zero, zero_mul]
      · rcases (highest _ (walk.enters_of_change closed early.le late.le basicE member)).lt_or_eq with less | same
        · have falls : row.line.entry s ≤ 0 := leaves.entry_nonpos
            (walk.rhs_eq_zero closed early.le late.le leaves.member outsideE) present
            (walk.rhs_eq_zero closed early.le late.le present basicE) less
          have falls : (row.line.entry s : ℝ) ≤ 0 := by exact_mod_cast falls
          rw [edge_basic stageL.canonical present (different row present)]
          exact mul_nonneg (costs _ less) (by linarith)
        · have cost : ((u e).cost.entry r.basic : ℝ) ≤ 0 := by exact_mod_cast enters.negative.le
          have rises : (0 : ℝ) ≤ r.line.entry s := by exact_mod_cast leaves.positive.le
          rw [same, edge_basic stageL.canonical leaves.member (different r leaves.member)]
          exact mul_nonneg_of_nonpos_of_nonpos cost (by linarith)
    · by_cases here : j = s
      · rw [here, edge_self outsideL, mul_one]
        exact costs s lower
      · rw [edge_other member here, mul_zero]
  rw [stageL.slope_edge stageE] at nonneg
  have negative : ((u l).cost.entry s : ℝ) < 0 := by exact_mod_cast leaves.negative
  linarith

theorem length_lt (walk : Walk start columnCost limit u n) : n < 2 ^ start.columns := by
  by_contra long
  have counted : (range start.columns).powerset.card < (range (n + 1)).card := by
    rw [Finset.card_powerset, Finset.card_range, Finset.card_range]
    omega
  have bases : ∀ i ∈ range (n + 1), (u i).basis ∈ (range start.columns).powerset := by
    intro i member
    have stage := walk.stage i (Nat.lt_succ_iff.mp (Finset.mem_range.mp member))
    rw [Finset.mem_powerset, ← stage.columns]
    exact basis_subset stage.shaped
  obtain ⟨a, memberA, b, memberB, different, same⟩ :=
    Finset.exists_ne_map_eq_of_card_lt_of_maps_to counted bases
  rw [Finset.mem_range] at memberA memberB
  have apart : ∀ a b, a < b → b ≤ n → (u a).basis ≠ (u b).basis := by
    intro a b less within same
    refine (walk.segment (a := a) (k := b - a) (by omega)).not_closed (by omega) ?_
    rw [Nat.add_sub_cancel' less.le]
    exact same.symm
  rcases Nat.lt_or_gt_of_ne different with less | greater
  · exact apart a b less (by omega) same
  · exact apart b a greater (by omega) same.symm

end Walk

/-- The moves of a phase are a walk to its last tableau, which spends the whole budget if the phase
runs out of it. -/
theorem runPhase_walk {start : Tableau ℚ} {columnCost : Nat → ℚ} (limit budget pivots : Nat)
    {t : Tableau ℚ} (stage : Stage start columnCost t) : ∃ u n, u 0 = t ∧ Walk start columnCost limit u n ∧
      (runPhase limit 0 budget pivots t).tableau = u n ∧
      (runPhase limit 0 budget pivots t).pivots = pivots + n ∧
      ((runPhase limit 0 budget pivots t).finish = .outOfPivots → n = budget) := by
  induction budget generalizing pivots t with
  | zero =>
    refine ⟨fun _ => t, 0, rfl, ⟨fun _ _ => stage, by simp⟩, ?_, ?_, fun _ => rfl⟩
    · unfold runPhase
      split <;> rfl
    · unfold runPhase
      split <;> rfl
  | succ budget ih =>
    have still : Walk start columnCost limit (fun _ => t) 0 := ⟨fun _ _ => stage, by simp⟩
    unfold runPhase
    split
    · exact ⟨fun _ => t, 0, rfl, still, rfl, rfl, by simp⟩
    · rename_i col enters
      dsimp only
      split
      · exact ⟨fun _ => t, 0, rfl, still, rfl, rfl, by simp⟩
      · rename_i row leaves
        obtain ⟨r, move⟩ := move_of_rule stage.shaped stage.nonneg enters leaves
        obtain ⟨u, n, first, walk, last, counted, spent⟩ := ih (pivots + 1) (stage.move move)
        refine ⟨fun i => i.casesOn t u, n + 1, rfl, ⟨?_, ?_⟩, last, ?_, ?_⟩
        · intro i within
          cases i with
          | zero => exact stage
          | succ i => exact walk.stage i (by omega)
        · intro i within
          cases i with
          | zero => exact ⟨row, col, r, move, first⟩
          | succ i => exact walk.moves i (by omega)
        · rw [counted]
          omega
        · intro out
          rw [spent out]

theorem runPhase_ends {start : Tableau ℚ} {columnCost : Nat → ℚ} (limit : Nat) {budget : Nat} (pivots : Nat)
    {t : Tableau ℚ} (stage : Stage start columnCost t) (large : 2 ^ start.columns ≤ budget) :
    (runPhase limit 0 budget pivots t).finish ≠ .outOfPivots ∧
      (runPhase limit 0 budget pivots t).pivots < pivots + 2 ^ start.columns := by
  obtain ⟨u, n, -, walk, -, counted, spent⟩ := runPhase_walk limit budget pivots stage
  have short := walk.length_lt
  constructor
  · intro out
    have := spent out
    omega
  · omega

end Tableau

namespace Program

open Tableau

theorem phaseTwo_ends {p : Program ℚ} {t : Tableau ℚ} (ready : Ready (build p) t) {s : Settings ℚ}
    (exactPivots : s.pivotTol = 0) {pivots : Nat} (large : pivots + 2 ^ (build p).columns ≤ s.maxPivots)
    (driven : Nat) (log : List (Event ℚ)) (objective : ℚ) (x : List ℚ) :
    (p.phaseTwo s t pivots driven log).solution.answer ≠ .iterationLimit objective x := by
  have budget : 2 ^ (build p).columns ≤ s.maxPivots - pivots := by omega
  have ends := (runPhase_ends t.artificial pivots (ready.price p.structuralCost) budget).1
  unfold phaseTwo
  rw [exactPivots]
  dsimp only
  split
  · simp
  · rename_i out
    exact absurd out ends
  · simp

/-- With exact scalars, twice the number of sets of columns is budget enough for a solve. -/
theorem run_ends {p : Program ℚ} (valid : p.fault? = none) {s : Settings ℚ} (exactPivots : s.pivotTol = 0)
    (exactFeasibility : s.feasTol = 0) (large : 2 * 2 ^ (build p).columns ≤ s.maxPivots) (objective : ℚ)
    (x : List ℚ) : (p.run s).solution.answer ≠ .iterationLimit objective x := by
  have ready := build_ready valid
  unfold run
  dsimp only
  split
  · have budget : 2 ^ (build p).columns ≤ s.maxPivots := by omega
    obtain ⟨ends, few⟩ := runPhase_ends (build p).columns 0 (ready.price (artificialCost (build p))) budget
    have stage := phaseOne_keeps valid s.maxPivots
    unfold phaseOne
    rw [exactPivots, exactFeasibility]
    dsimp only
    split
    · rename_i out
      exact absurd out ends
    · rename_i unbounded
      exact absurd unbounded (phaseOne_not_unbounded valid s.maxPivots)
    · rename_i finished
      split
      · simp
      · rename_i notAbove
        rw [Rational.scalar_lt, decide_eq_true_eq, not_lt] at notAbove
        have bounded := notAbove.trans_eq (zero_mul p.scale)
        obtain ⟨settled, -⟩ := driveOut_settled stage.toReady p.columns_le.2
          (artificial_zero_of_objective stage bounded)
        exact phaseTwo_ends settled exactPivots (by omega) _ _ objective x
  · exact phaseTwo_ends ready exactPivots (by omega) _ _ objective x

end Program

end BranchBound.Linear
