import BranchBound.Proofs.Violation

/-!
# Changes of a tableau

Costs may be loaded and pivots made on nonzero entries in any order. What a change keeps is `Tracks`: the
equations of the first tableau, unit columns for the basis, and a cost line that takes the value of the loaded costs
at every solution.
-/

namespace BranchBound.Linear

open Finset (range)

namespace Tableau

inductive Change where
  | price (columnCost : Nat → ℚ)
  | pivot (row col : Nat)

namespace Change

def apply (t : Tableau ℚ) : Change → Tableau ℚ
  | price columnCost => t.price columnCost
  | pivot row col => t.pivot row col

/-- The column costs that are loaded after the change. -/
def load (loaded : Nat → ℚ) : Change → Nat → ℚ
  | price columnCost => columnCost
  | pivot _ _ => loaded

/-- A pivot needs an entry that is not zero. -/
def Permitted (t : Tableau ℚ) : Change → Prop
  | price _ => True
  | pivot row col => ∃ r ∈ t.rows[row]?, r.line.entry col ≠ 0

instance (t : Tableau ℚ) : (change : Change) → Decidable (change.Permitted t)
  | price _ => inferInstanceAs (Decidable True)
  | pivot row col => inferInstanceAs (Decidable (∃ r ∈ t.rows[row]?, r.line.entry col ≠ 0))

end Change

def after (t : Tableau ℚ) (changes : List Change) : Tableau ℚ :=
  changes.foldl Change.apply t

/-- The column costs of the last loading; those of the first tableau are zero. -/
def loaded (changes : List Change) : Nat → ℚ :=
  changes.foldl Change.load fun _ => 0

/-- Each change is permitted in the tableau that it meets. -/
def Permits : Tableau ℚ → List Change → Prop
  | _, [] => True
  | t, change :: rest => change.Permitted t ∧ Permits (change.apply t) rest

instance decidablePermits : (t : Tableau ℚ) → (changes : List Change) → Decidable (t.Permits changes)
  | _, [] => inferInstanceAs (Decidable True)
  | t, change :: rest =>
    have := decidablePermits (change.apply t) rest
    inferInstanceAs (Decidable (change.Permitted t ∧ Permits (change.apply t) rest))

/-! ### What every change keeps -/

/-- A canonical tableau with the equations of `start` whose cost line stands for the column costs. -/
structure Tracks (start : Tableau ℚ) (columnCost : Nat → ℚ) (t : Tableau ℚ) : Prop extends Derived start t where
  reduced : t.Reduced
  priced : ∀ z, t.Solves z → t.cost.gap z = start.total columnCost z

section Tracks
variable {start t : Tableau ℚ} {columnCost : Nat → ℚ} {p : Program ℚ}

theorem Tracks.price (tracks : Tracks start columnCost t) (costs : Nat → ℚ) : Tracks start costs (t.price costs) where
  toDerived := tracks.toDerived.price costs
  reduced := price_reduced tracks.canonical costs
  priced z solved := by
    rw [price_gap tracks.canonical.toShaped costs solved, tracks.columns]
    rfl

theorem Tracks.pivot {row col : Nat} {r : Row ℚ} (tracks : Tracks start columnCost t) (read : t.rows[row]? = some r)
    (nonzero : r.line.entry col ≠ 0) : Tracks start columnCost (t.pivot row col) := by
  have shaped := tracks.canonical.toShaped
  have inside : col < t.columns := by
    by_contra outside
    apply nonzero
    apply Line.entry_of_le
    rw [shaped.rows r (List.mem_of_getElem? read)]
    exact not_lt.mp outside
  refine ⟨tracks.toDerived.pivot read nonzero inside, pivot_reduced tracks.canonical tracks.reduced read nonzero, ?_⟩
  intro z solved
  have before := (pivot_solves shaped read nonzero z).mp solved
  rw [pivot_cost_gap shaped read nonzero before]
  exact tracks.priced z before

theorem Tracks.apply {change : Change} (tracks : Tracks start columnCost t) (permitted : change.Permitted t) :
    Tracks start (change.load columnCost) (change.apply t) := by
  cases change with
  | price costs => exact tracks.price costs
  | pivot row col =>
    obtain ⟨r, read, nonzero⟩ := permitted
    exact tracks.pivot read nonzero

theorem Tracks.foldl {changes : List Change} (tracks : Tracks start columnCost t) (permitted : t.Permits changes) :
    Tracks start (changes.foldl Change.load columnCost) (t.after changes) := by
  induction changes generalizing t columnCost with
  | nil => exact tracks
  | cons change rest ih => exact ih (tracks.apply permitted.1) permitted.2

theorem tracks_build (counted : p.rows.length = p.rhs.length) : Tracks (build p) (fun _ => 0) (build p) := by
  have flat : ∀ j, (build p).cost.entry j = 0 := by
    intro j
    unfold build Line.entry
    rw [List.getD_eq_getElem?_getD, List.getElem?_replicate]
    split <;> rfl
  refine ⟨⟨build_canonical counted, rfl, rfl, fun _ => Iff.rfl⟩, fun row _ => flat row.basic, ?_⟩
  intro z _
  unfold Line.gap Line.slope total
  simp only [flat]
  simp [build]

theorem tracks_after (counted : p.rows.length = p.rhs.length) {changes : List Change}
    (permitted : (build p).Permits changes) : Tracks (build p) (loaded changes) ((build p).after changes) :=
  (tracks_build counted).foldl permitted

theorem Tracks.cost_eq (tracks : Tracks start columnCost t) {z : ℕ → ℝ} (solved : t.Solves z) :
    ∑ j ∈ range t.columns, (t.cost.entry j : ℝ) * z j =
      ∑ j ∈ range t.columns, (columnCost j : ℝ) * z j + t.cost.rhs := by
  have gap := tracks.priced z solved
  unfold Line.gap Line.slope total at gap
  rw [tracks.canonical.cost, ← tracks.columns] at gap
  linarith

/-- At the basic point the cost line is zero without its right-hand side. -/
theorem Tracks.objective_eq (tracks : Tracks start columnCost t) :
    t.objective = ∑ j ∈ range t.columns, columnCost j * t.basicPoint j := by
  have flat : t.cost.slope (fun j => (t.basicPoint j : ℝ)) = 0 := cost_slope_spread tracks.reduced _
  unfold Line.slope at flat
  rw [tracks.canonical.cost, tracks.cost_eq (solves_basicPoint tracks.canonical)] at flat
  have cast : ((∑ j ∈ range t.columns, columnCost j * t.basicPoint j + t.cost.rhs : ℚ) : ℝ) = 0 := by
    push_cast
    exact flat
  have zero := Rat.cast_eq_zero.mp cast
  show -t.cost.rhs = _
  linarith

end Tracks

theorem Canonical.nodup_basic {t : Tableau ℚ} (canonical : t.Canonical) : (t.rows.map Row.basic).Nodup := by
  apply List.nodup_iff_getElem?_ne_getElem?.mpr
  intro i k before inside same
  rw [List.length_map] at inside
  simp only [List.getElem?_map, List.getElem?_eq_getElem inside, List.getElem?_eq_getElem (before.trans inside),
    Option.map_some, Option.some.injEq] at same
  have position := canonical.basic_inj (List.getElem?_eq_getElem _) (List.getElem?_eq_getElem inside) same
  omega

/-- The points of a program are the solutions of its first tableau from zero up without artificial part, on the first
columns. -/
theorem feasible_iff_solves {p : Program ℚ} (counted : p.rows.length = p.rhs.length)
    (wide : ∀ row ∈ p.rows, row.length = p.objective.length) {y : List ℝ} :
    p.Feasible y ↔ ∃ z, (build p).Solves z ∧ (∀ j < (build p).columns, 0 ≤ z j) ∧
      (∀ j, (build p).artificial ≤ j → j < (build p).columns → z j = 0) ∧
      (List.range p.objective.length).map z = y := by
  constructor
  · intro feasible
    refine ⟨extend p y, solves_extend counted wide feasible, fun j _ => extend_nonneg feasible j,
      fun j high _ => extend_artificial high, ?_⟩
    have length : y.length = p.objective.length := feasible.length
    apply List.ext_getElem (by simpa using length.symm)
    intro j _ inside
    rw [List.getElem_map, List.getElem_range, extend_low (length ▸ inside)]
    simp [List.getD_eq_getElem?_getD, inside]
  · rintro ⟨z, solved, nonneg, noArtificial, rfl⟩
    exact feasible_of_solves counted wide solved nonneg noArtificial

/-- A pivot on the least ratio raises the objective only if the column has a positive cost and can grow. -/
theorem pivot_of_ratioTest {t : Tableau ℚ} {row col : Nat} (nonneg : ∀ s ∈ t.rows, 0 ≤ s.line.rhs)
    (leaves : t.ratioTest col 0 = some row) :
    (∀ s ∈ (t.pivot row col).rows, 0 ≤ s.line.rhs) ∧ ∃ r, t.rows[row]? = some r ∧ 0 < r.line.entry col ∧
      (t.pivot row col).objective = t.objective + t.cost.entry col * (r.line.rhs / r.line.entry col) ∧
      ((t.pivot row col).objective ≤ t.objective ↔ t.cost.entry col ≤ 0 ∨ r.line.rhs = 0) := by
  obtain ⟨r, read, positive, least⟩ := ratioTest_least nonneg leaves
  have start := nonneg r (List.mem_of_getElem? read)
  refine ⟨pivot_nonneg read positive nonneg least, r, read, positive, objective_pivot read, ?_⟩
  rw [objective_pivot read, add_le_iff_nonpos_right]
  constructor
  · intro falls
    by_contra rises
    rw [not_or] at rises
    have grows : 0 < r.line.rhs / r.line.entry col := div_pos (lt_of_le_of_ne start (Ne.symm rises.2)) positive
    exact absurd (mul_pos (not_le.mp rises.1) grows) (not_lt.mpr falls)
  · rintro (cheap | empty)
    · exact mul_nonpos_of_nonpos_of_nonneg cheap (div_nonneg start positive.le)
    · rw [empty, zero_div, mul_zero]

/-- Whatever changes were made to the first tableau of a program, the tableau has the solutions of the first one, of
which those from zero up without artificial part are the points of the program. Its basic columns are distinct unit
vectors without cost, the cost line stands for the loaded costs at every solution, and the objective is their value
at the basic solution. A pivot by the ratio test keeps nonnegative right-hand sides so, and does not raise the
objective if the column has no positive cost. -/
theorem changes_keep_program {p : Program ℚ} (valid : p.fault? = none) {changes : List Change}
    (permitted : (build p).Permits changes) {t : Tableau ℚ} (reached : (build p).after changes = t) :
    t.Shaped ∧ t.columns = (build p).columns ∧ (∀ z, t.Solves z ↔ (build p).Solves z) ∧
      (∀ y : List ℝ, p.Feasible y ↔ ∃ z, (build p).Solves z ∧ (∀ j < (build p).columns, 0 ≤ z j) ∧
        (∀ j, (build p).artificial ≤ j → j < (build p).columns → z j = 0) ∧
        (List.range p.objective.length).map z = y) ∧
      (t.rows.map Row.basic).Nodup ∧
      (∀ (i k : Nat) (r s : Row ℚ), t.rows[i]? = some r → t.rows[k]? = some s →
        s.line.entry r.basic = if k = i then 1 else 0) ∧
      (∀ r ∈ t.rows, t.cost.entry r.basic = 0) ∧
      (∀ z, t.Solves z → ∑ j ∈ range t.columns, (t.cost.entry j : ℝ) * z j =
        ∑ j ∈ range t.columns, (loaded changes j : ℝ) * z j + t.cost.rhs) ∧
      (t.Solves fun j => (t.basicPoint j : ℝ)) ∧
      t.objective = ∑ j ∈ range t.columns, loaded changes j * t.basicPoint j ∧
      ∀ row col, (∀ s ∈ t.rows, 0 ≤ s.line.rhs) → t.ratioTest col 0 = some row →
        (∀ s ∈ (t.pivot row col).rows, 0 ≤ s.line.rhs) ∧ ∃ r, t.rows[row]? = some r ∧ 0 < r.line.entry col ∧
          (t.pivot row col).objective = t.objective + t.cost.entry col * (r.line.rhs / r.line.entry col) ∧
          ((t.pivot row col).objective ≤ t.objective ↔ t.cost.entry col ≤ 0 ∨ r.line.rhs = 0) := by
  obtain ⟨-, counted, wide⟩ := Program.fault?_none valid
  have tracks := tracks_after counted permitted
  rw [reached] at tracks
  exact ⟨tracks.canonical.toShaped, tracks.columns, tracks.solves, fun _ => feasible_iff_solves counted wide,
    tracks.canonical.nodup_basic, tracks.canonical.unit, tracks.reduced, fun _ => tracks.cost_eq,
    solves_basicPoint tracks.canonical, tracks.objective_eq, fun _ _ => pivot_of_ratioTest⟩

/-- The course of the least `x₀ + x₁` under `x₀ + 2 x₁ ≤ 5` and `1 ≤ x₀`, and a further pivot on `x₁`: its cost is
positive, and the objective rises by it. -/
theorem changes_keep_program_two_phases : ∃ (p : Program ℚ) (changes : List Change) (t : Tableau ℚ) (r : Row ℚ),
    p = ⟨[1, 1], [[1, 2], [-1, 0]], [5, -1]⟩ ∧
      changes = [.price (Program.artificialCost (build p)), .pivot 1 0, .price p.structuralCost] ∧
      p.fault? = none ∧ (build p).Permits changes ∧ (build p).after changes = t ∧ t.rows.map Row.basic = [2, 0] ∧
      t.objective = ∑ j ∈ range t.columns, loaded changes j * t.basicPoint j ∧ t.objective = 1 ∧
      (∀ s ∈ t.rows, 0 ≤ s.line.rhs) ∧ t.ratioTest 1 0 = some 0 ∧ t.rows[0]? = some r ∧
      (∀ s ∈ (t.pivot 0 1).rows, 0 ≤ s.line.rhs) ∧
      ((t.pivot 0 1).objective ≤ t.objective ↔ t.cost.entry 1 ≤ 0 ∨ r.line.rhs = 0) ∧ (t.pivot 0 1).objective = 3 := by
  obtain ⟨p, built⟩ : ∃ p : Program ℚ, p = ⟨[1, 1], [[1, 2], [-1, 0]], [5, -1]⟩ := ⟨_, rfl⟩
  have valid : p.fault? = none := by rw [built]; decide +kernel
  have permitted : (build p).Permits
      [.price (Program.artificialCost (build p)), .pivot 1 0, .price p.structuralCost] := by
    rw [built]
    decide +kernel
  obtain ⟨-, -, -, -, -, -, -, -, -, objective, leaving⟩ := changes_keep_program valid permitted rfl
  have nonneg : ∀ s ∈ ((build p).after
      [.price (Program.artificialCost (build p)), .pivot 1 0, .price p.structuralCost]).rows, 0 ≤ s.line.rhs := by
    rw [built]
    decide +kernel
  obtain ⟨after, r, read, -, -, rises⟩ := leaving 0 1 nonneg (by rw [built]; decide +kernel)
  refine ⟨p, _, _, r, built, rfl, valid, permitted, rfl, ?_, objective, ?_, nonneg, ?_, read, after, rises, ?_⟩ <;>
    rw [built] <;> decide +kernel

end Tableau

end BranchBound.Linear
