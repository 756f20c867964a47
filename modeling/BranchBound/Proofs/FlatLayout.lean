import BranchBound.Proofs.FirstTableau
import BranchBound.Proofs.Grids

/-!
# The flat layout of a tableau

`Tableau.grid` writes a tableau in flat lists. Each operation on the grid of a shaped tableau finds every position that
it reads or writes, and gives the grid of what the operation on the tableau gives: `build_grid`, `price_grid`,
`pivot_grid`, `primal_grid` and the searches for a column and a row.
-/

namespace BranchBound.Linear

open Integer (OutOfRange)

variable {α : Type} [Scalar α]

/-! ### Lines as flat lists -/

namespace Line

section
omit [Scalar α]

/-- The entries of a line and its right-hand side after them. -/
def cells (l : Line α) : List α :=
  l.coeffs ++ [l.rhs]

theorem length_cells (l : Line α) : l.cells.length = l.coeffs.length + 1 := by
  simp [cells]

theorem cells_getElem?_rhs (l : Line α) : l.cells[l.coeffs.length]? = some l.rhs := by
  simp [cells]

end

variable {l other lead : Line α} {col : Nat}

theorem cells_getElem? {j : Nat} (inside : j < l.coeffs.length) : l.cells[j]? = some (l.entry j) := by
  rw [cells, List.getElem?_append_left inside]
  simp [entry, inside]

theorem cells_divide (l : Line α) (p : α) : (l.divide p).cells = l.cells.map (· / p) := by
  simp [cells, divide]

theorem subtract_cells (factor : α) (same : other.coeffs.length = l.coeffs.length) :
    Grid.subtract (l.coeffs.length + 1) l.cells factor other.cells = .ok (l.subtract factor other).cells := by
  unfold Grid.subtract
  rw [updateBelow_eq_ok (fun j v => v - factor * (other.cells[j]?).getD 0) (by rw [length_cells])]
  · refine congrArg Except.ok (List.ext_getElem ?_ ?_)
    · simp [length_cells, length_subtract _ same]
    · intro j bound _
      rw [List.length_mapIdx] at bound
      have otherBound : j < other.cells.length := by rw [length_cells, same, ← length_cells]; exact bound
      have low : j < l.coeffs.length + 1 := by rw [← length_cells]; exact bound
      have zipped : (l.subtract factor other).cells =
          List.zipWith (fun v p => v - factor * p) l.cells other.cells := by
        simp [cells, subtract, List.zipWith_append same.symm]
      simp only [zipped, List.getElem_mapIdx, List.getElem_zipWith, if_pos low, List.getElem?_eq_getElem otherBound,
        Option.getD_some]
  · intro j v low _
    have bound : j < other.cells.length := by rw [length_cells]; omega
    rw [readAt_eq_ok (List.getElem?_eq_getElem bound)]
    simp [ok_bind, bound]

theorem clear_cells (same : lead.coeffs.length = l.coeffs.length) (inside : col < l.coeffs.length) :
    Grid.clear (l.coeffs.length + 1) l.cells col lead.cells = .ok (l.clear col lead).cells := by
  have length := length_subtract (l.entry col) same
  unfold Grid.clear clear
  rw [readAt_eq_ok (cells_getElem? inside), ok_bind]
  split
  · rfl
  · rw [subtract_cells _ same, ok_bind, writeAt_eq_ok (by rw [length_cells]; omega)]
    simp [cells, List.set_append_left, length, inside]

end Line

namespace Tableau

/-! ### The flat layout -/

section
omit [Scalar α]

def grid (t : Tableau α) : Grid α where
  rows := t.rows.map (·.line.cells)
  basis := t.rows.map Row.basic
  cost := t.cost.cells
  columns := t.columns
  artificial := t.artificial

@[simp] theorem grid_cost (t : Tableau α) : t.grid.cost = t.cost.cells := rfl

@[simp] theorem grid_columns (t : Tableau α) : t.grid.columns = t.columns := rfl

@[simp] theorem grid_artificial (t : Tableau α) : t.grid.artificial = t.artificial := rfl

@[simp] theorem length_grid_rows (t : Tableau α) : t.grid.rows.length = t.rows.length := List.length_map _

@[simp] theorem length_grid_basis (t : Tableau α) : t.grid.basis.length = t.rows.length := List.length_map _

variable {t : Tableau α} {i : Nat} {r : Row α}

theorem readAt_rows (read : t.rows[i]? = some r) : readAt t.grid.rows i = .ok r.line.cells :=
  readAt_eq_ok (by simp [grid, read])

theorem readAt_basis (read : t.rows[i]? = some r) : readAt t.grid.basis i = .ok r.basic :=
  readAt_eq_ok (by simp [grid, read])

theorem readAt_rhs (shaped : t.Shaped) (member : r ∈ t.rows) : readAt r.line.cells t.columns = .ok r.line.rhs := by
  rw [← shaped.rows r member]
  exact readAt_eq_ok r.line.cells_getElem?_rhs

end

theorem readAt_entry {t : Tableau α} {r : Row α} {j : Nat} (shaped : t.Shaped) (member : r ∈ t.rows)
    (inside : j < t.columns) : readAt r.line.cells j = .ok (r.line.entry j) :=
  readAt_eq_ok (Line.cells_getElem? (by rw [shaped.rows r member]; exact inside))

/-! ### The first tableau -/

section Start
variable {vars columns index art : Nat} {coeffs : List α} {rhs : α}

theorem cells_startRow {sign : α} (signed : sign = if Scalar.lt rhs 0 then -1 else 1) (j : Nat) :
    (startRow vars columns index art coeffs rhs).line.cells[j]? =
      if j < columns then some (if j < vars then sign * coeffs.getD j 0
        else if j = vars + index then sign
        else if Scalar.lt rhs 0 = true ∧ j = art then 1 else 0)
      else if j = columns then some (sign * rhs) else none := by
  unfold startRow Line.cells
  dsimp only
  rw [← signed, List.getElem?_append, List.length_map, List.length_range]
  by_cases inside : j < columns
  · simp [inside]
  · rw [if_neg inside, if_neg inside, List.getElem?_singleton]
    split <;> split <;> first | rfl | omega

theorem startRow_cells (wide : coeffs.length = vars) (slack : vars + index < columns)
    (free : Scalar.lt rhs 0 = true → vars + index < art ∧ art < columns) :
    Grid.startRow vars columns index art coeffs rhs = .ok (startRow vars columns index art coeffs rhs).line.cells := by
  obtain ⟨sign, signed⟩ : ∃ sign : α, sign = if Scalar.lt rhs 0 then -1 else 1 := ⟨_, rfl⟩
  have scaled : ∀ j v, j < coeffs.length → (List.replicate (columns + 1) (0 : α))[j]? = some v →
      (readAt coeffs j >>= fun v => .ok (sign * v)) = .ok ((fun j _ => sign * coeffs.getD j 0) j v) := by
    intro j v low _
    rw [readAt_eq_ok (List.getElem?_eq_getElem low)]
    simp [ok_bind, low]
  unfold Grid.startRow
  dsimp only
  rw [← signed, updateBelow_eq_ok _ (by simp; omega) scaled, ok_bind, writeAt_eq_ok (by simp; omega), ok_bind,
    writeAt_eq_ok (by simp), ok_bind]
  -- no write hits an entry that an earlier one has set
  cases negative : Scalar.lt rhs 0 with
  | false =>
    refine congrArg Except.ok (List.ext_getElem? fun j => ?_)
    rw [cells_startRow signed, negative]
    simp only [List.getElem?_set, List.getElem?_mapIdx, List.getElem?_replicate, List.length_set, List.length_mapIdx,
      List.length_replicate]
    grind
  | true =>
    obtain ⟨later, below⟩ := free negative
    rw [if_pos rfl, writeAt_eq_ok (by simp; omega)]
    refine congrArg Except.ok (List.ext_getElem? fun j => ?_)
    rw [cells_startRow signed, negative]
    simp only [List.getElem?_set, List.getElem?_mapIdx, List.getElem?_replicate, List.length_set, List.length_mapIdx,
      List.length_replicate]
    grind

theorem startRows_cells (vars columns index art : Nat) (pairs : List (List α × α))
    (wide : ∀ pair ∈ pairs, pair.1.length = vars) (slacks : vars + index + pairs.length ≤ art)
    (room : art + pairs.countP (fun pair => Scalar.lt pair.2 0) ≤ columns) :
    Grid.startRows vars columns index art pairs =
      .ok ((startRows vars columns index art pairs).map (·.line.cells),
        (startRows vars columns index art pairs).map Row.basic) := by
  induction pairs generalizing index art with
  | nil => rfl
  | cons pair rest ih =>
    obtain ⟨coeffs, rhs⟩ := pair
    rw [List.forall_mem_cons] at wide
    rw [List.length_cons] at slacks
    rw [List.countP_cons] at room
    have row : Grid.startRow vars columns index art coeffs rhs =
        .ok (startRow vars columns index art coeffs rhs).line.cells := by
      apply startRow_cells wide.1 (by omega)
      intro negative
      rw [if_pos negative] at room
      omega
    have others := ih (index + 1) (if Scalar.lt rhs 0 then art + 1 else art) wide.2 (by split <;> omega) (by grind)
    rw [Grid.startRows, row, ok_bind, others, ok_bind]
    rfl

theorem length_startRows (vars columns index art : Nat) (pairs : List (List α × α)) :
    (startRows vars columns index art pairs).length = pairs.length := by
  induction pairs generalizing index art with
  | nil => rfl
  | cons pair rest ih => exact congrArg Nat.succ (ih _ _)

/-- The artificial columns are given out one after another. -/
theorem artificials_startRows (vars columns index art : Nat) (pairs : List (List α × α)) {bound : Nat}
    (slacks : vars + index + pairs.length ≤ bound) (later : bound ≤ art) :
    ((startRows vars columns index art pairs).map Row.basic).filter (bound ≤ ·) =
      List.range' art (pairs.countP fun pair => Scalar.lt pair.2 0) := by
  induction pairs generalizing index art with
  | nil => rfl
  | cons pair rest ih =>
    obtain ⟨coeffs, rhs⟩ := pair
    rw [List.length_cons] at slacks
    have others := ih (index + 1) (if Scalar.lt rhs 0 then art + 1 else art) (by omega) (by split <;> omega)
    rw [startRows, List.map_cons, List.filter_cons, others, List.countP_cons]
    cases negative : Scalar.lt rhs 0 with
    | false =>
      have low : ¬bound ≤ vars + index := by omega
      simp [startRow, negative, low]
    | true => simp [startRow, negative, later, List.range'_succ]

end Start

section Build
variable {p : Program α}

theorem build_grid (counted : p.rows.length = p.rhs.length)
    (wide : ∀ row ∈ p.rows, row.length = p.objective.length) : Grid.build p = .ok (build p).grid := by
  have rows := startRows_cells p.objective.length
    (p.objective.length + p.rhs.length + p.rhs.countP (Scalar.lt · 0)) 0 (p.objective.length + p.rhs.length)
    (p.rows.zip p.rhs) (fun pair member => wide pair.1 (List.of_mem_zip member).1) (by simp [counted])
    (by rw [countP_zip counted])
  unfold Grid.build
  dsimp only
  rw [rows, ok_bind]
  simp [build, grid, Line.cells, List.replicate_succ']

theorem artificials_build (counted : p.rows.length = p.rhs.length) :
    (build p).grid.basis.filter ((build p).artificial ≤ ·) =
      List.range' (build p).artificial ((build p).columns - (build p).artificial) := by
  have given := artificials_startRows p.objective.length (build p).columns 0 (build p).artificial (p.rows.zip p.rhs)
    (by simp [build, counted]) (le_refl (build p).artificial)
  rw [countP_zip counted] at given
  rw [build_columns, Nat.add_sub_cancel_left]
  exact given

end Build

/-! ### Operations -/

section Operations
variable {t : Tableau α} {col row : Nat} {tol : α}

theorem priceOut_grid {columnCost : Nat → α} {costs : Nat → Except OutOfRange α} {cost : Line α} {i : Nat} {r : Row α}
    (shaped : t.Shaped) (loads : ∀ j, costs j = .ok (columnCost j)) (read : t.rows[i]? = some r)
    (width : cost.coeffs.length = t.columns) :
    t.grid.priceOut costs cost.cells i = .ok (priceOut columnCost cost r).cells := by
  have same := (shaped.rows r (List.mem_of_getElem? read)).trans width.symm
  unfold Grid.priceOut priceOut
  rw [readAt_basis read, ok_bind, loads, ok_bind]
  split
  · rfl
  · rw [readAt_rows read, ok_bind]
    show Grid.subtract (t.columns + 1) _ _ _ = _
    rw [← width]
    exact Line.subtract_cells _ same

theorem load_grid {columnCost : Nat → α} {costs : Nat → Except OutOfRange α} (shaped : t.Shaped)
    (loads : ∀ j, costs j = .ok (columnCost j)) :
    t.grid.load costs = .ok (Line.mk ((List.range t.columns).map columnCost) 0).cells := by
  have width := shaped.cost
  have length : t.cost.cells.length = t.columns + 1 := by rw [Line.length_cells, width]
  show (updateBelow t.columns (fun j _ => costs j) t.cost.cells >>= fun loaded => writeAt loaded t.columns 0) = _
  rw [updateBelow_eq_ok (fun j _ => columnCost j) (by omega) fun j _ _ _ => loads j, ok_bind,
    writeAt_eq_ok (by simp [length])]
  refine congrArg Except.ok (List.ext_getElem? fun j => ?_)
  simp only [List.getElem?_set, List.getElem?_mapIdx, List.length_mapIdx, Line.cells, List.getElem?_append,
    List.length_map, List.length_range, List.length_append, List.length_singleton]
  grind

theorem price_grid {columnCost : Nat → α} {costs : Nat → Except OutOfRange α} (shaped : t.Shaped)
    (loads : ∀ j, costs j = .ok (columnCost j)) : t.grid.price costs = .ok (t.price columnCost).grid := by
  have priced : (List.range t.rows.length).foldlM (t.grid.priceOut costs)
      (Line.mk ((List.range t.columns).map columnCost) 0).cells = .ok (t.price columnCost).cost.cells := by
    rw [cost_price, range_length, List.foldlM_map, ← foldl_zipIdx]
    refine (foldlM_eq_ok Line.cells (fun cost => cost.coeffs.length = t.columns) ?_ ?_).1
    · rintro ⟨r, i⟩ member cost width
      have read := List.mem_zipIdx_iff_getElem?.mp member
      have same := shaped.rows r (List.mem_of_getElem? read)
      exact ⟨priceOut_grid shaped loads read width, by rw [length_priceOut (same.trans width.symm), width]⟩
    · simp
  unfold Grid.price
  rw [load_grid shaped loads, ok_bind, length_grid_rows, priced]
  rfl

theorem objective_grid (shaped : t.Shaped) : t.grid.objective = .ok t.objective := by
  have read : t.grid.cost[t.columns]? = some t.cost.rhs := by
    rw [← shaped.cost]
    exact t.cost.cells_getElem?_rhs
  unfold Grid.objective
  rw [grid_columns, readAt_eq_ok read]
  rfl

section Pivot
variable {r : Row α}

theorem grid_pivot_rows (read : t.rows[row]? = some r) (k : Nat) : (t.pivot row col).grid.rows[k]? =
    (t.rows[k]?).map fun other =>
      if k = row then (leading r col).cells else (other.line.clear col (leading r col)).cells := by
  show ((t.pivot row col).rows.map (·.line.cells))[k]? = _
  rw [List.getElem?_map, rows_pivot read, Option.map_map]
  congr 1
  funext other
  split <;> simp_all

theorem grid_pivot_basis (read : t.rows[row]? = some r) : (t.pivot row col).grid.basis = t.grid.basis.set row col := by
  have inside := (List.getElem?_eq_some_iff.mp read).1
  refine List.ext_getElem? fun k => ?_
  show ((t.pivot row col).rows.map Row.basic)[k]? = (List.set (t.rows.map Row.basic) row col)[k]?
  rw [List.getElem?_map, rows_pivot read, Option.map_map, List.getElem?_set, List.length_map]
  by_cases here : row = k
  · subst k
    simp [inside]
  · simp only [here, Ne.symm here, if_false, List.getElem?_map]
    rfl

/-- With the pivot row taken out, the other rows are cleared as the pivot clears them. -/
theorem clear_others (shaped : t.Shaped) (read : t.rows[row]? = some r) (low : col < t.columns) :
    ((t.grid.rows.set row []).zipIdx.mapM fun (other, index) =>
      if index = row then Except.ok other else Grid.clear (t.columns + 1) other col (leading r col).cells) =
        .ok ((t.pivot row col).grid.rows.set row []) := by
  rw [mapM_eq_ok (g := fun place =>
    if place.2 = row then place.1 else ((t.pivot row col).grid.rows[place.2]?).getD [])]
  · refine congrArg Except.ok (List.ext_getElem (by simp [length_rows_pivot]) fun k bound _ => ?_)
    have inside : k < (t.pivot row col).grid.rows.length := by
      simpa [length_rows_pivot] using bound
    simp only [List.getElem_map, List.getElem_zipIdx, List.getElem_set, zero_add]
    grind
  · rintro ⟨cells, index⟩ member
    have found := List.mem_zipIdx_iff_getElem?.mp member
    dsimp only at found ⊢
    by_cases here : index = row
    · rw [if_pos here, if_pos here]
    · rw [List.getElem?_set_ne (Ne.symm here)] at found
      obtain ⟨other, present, rfl⟩ := Option.map_eq_some_iff.mp ((List.getElem?_map ..).symm.trans found)
      have width := shaped.rows other (List.mem_of_getElem? present)
      have lead := (length_leading shaped read col).trans width.symm
      rw [if_neg here, if_neg here, grid_pivot_rows read, present, ← width, Line.clear_cells lead (by omega)]
      simp [here]

theorem pivot_grid (shaped : t.Shaped) (inside : row < t.rows.length) (low : col < t.columns) :
    t.grid.pivot row col = .ok (t.pivot row col).grid := by
  obtain ⟨r, read⟩ : ∃ r, t.rows[row]? = some r := ⟨_, List.getElem?_eq_getElem inside⟩
  have cost : Grid.clear (t.columns + 1) t.cost.cells col (leading r col).cells =
      .ok (t.pivot row col).cost.cells := by
    have lead := (length_leading shaped read col).trans shaped.cost.symm
    rw [cost_pivot read, ← shaped.cost]
    exact Line.clear_cells lead (by rw [shaped.cost]; exact low)
  have back : ((t.pivot row col).grid.rows.set row []).set row (leading r col).cells = (t.pivot row col).grid.rows := by
    have here : (t.pivot row col).grid.rows[row]? = some (leading r col).cells := by simp [grid_pivot_rows read, read]
    obtain ⟨bound, same⟩ := List.getElem?_eq_some_iff.mp here
    rw [List.set_set, ← same, List.set_getElem_self]
  unfold Grid.pivot
  rw [readAt_rows read, ok_bind, writeAt_eq_ok (by simpa using inside), ok_bind,
    readAt_entry shaped (List.mem_of_getElem? read) low, ok_bind]
  dsimp only
  rw [← Line.cells_divide, grid_columns, show r.line.divide (r.line.entry col) = leading r col from rfl,
    clear_others shaped read low, ok_bind, grid_cost, cost, ok_bind,
    writeAt_eq_ok (by simpa [length_rows_pivot] using inside), ok_bind, writeAt_eq_ok (by simpa using inside), ok_bind,
    back, ← grid_pivot_basis read]
  simp [grid, columns_pivot, artificial_pivot]

end Pivot

theorem entering_grid {limit : Nat} (shaped : t.Shaped) (within : limit ≤ t.columns) :
    t.grid.entering limit tol = .ok (t.entering limit tol) := by
  unfold Grid.entering entering
  apply findM?_range (by rw [shaped.cost]; exact within)
  intro j v low read
  have cell : t.grid.cost[j]? = some v := by
    show (t.cost.coeffs ++ _)[j]? = _
    rw [List.getElem?_append_left (by rw [shaped.cost]; omega), read]
  rw [readAt_eq_ok cell, ok_bind]

/-- The row of the best candidate so far has the basic column that is kept for it. -/
def Placed (t : Tableau α) (best : Option (Candidate α)) : Prop :=
  ∀ c ∈ best, ∃ r, t.rows[c.row]? = some r ∧ r.basic = c.basic

theorem improves_grid {c best : Candidate α} {r s : Row α} (tol : α) (read : t.rows[c.row]? = some r)
    (basic : r.basic = c.basic) (readBest : t.rows[best.row]? = some s) (basicBest : s.basic = best.basic) :
    t.grid.improves tol c.row c.ratio (best.row, best.ratio) = .ok (c.improves best tol) := by
  unfold Grid.improves Candidate.improves
  dsimp only
  rw [readAt_basis read, readAt_basis readBest, basic, basicBest]
  cases Scalar.lt c.ratio (best.ratio - tol) with
  | true => rfl
  | false => cases Scalar.le (Scalar.abs (c.ratio - best.ratio)) tol <;> rfl

theorem consider_grid {best : Option (Candidate α)} {i : Nat} {r : Row α} (shaped : t.Shaped) (low : col < t.columns)
    (read : t.rows[i]? = some r) (placed : t.Placed best) :
    t.grid.consider col tol (best.map fun c => (c.row, c.ratio)) r.line.cells i =
        .ok ((Candidate.consider col tol best r i).map fun c => (c.row, c.ratio)) ∧
      t.Placed (Candidate.consider col tol best r i) := by
  have member := List.mem_of_getElem? read
  unfold Grid.consider Candidate.consider
  rw [readAt_entry shaped member low, ok_bind]
  split
  · exact ⟨rfl, placed⟩
  · rw [grid_columns, readAt_rhs shaped member, ok_bind]
    cases best with
    | none =>
      refine ⟨rfl, ?_⟩
      rintro c ⟨⟩
      exact ⟨r, read, rfl⟩
    | some b =>
      obtain ⟨s, readBest, basicBest⟩ := placed b rfl
      have better := improves_grid tol (c := ⟨i, r.basic, Scalar.max (r.line.rhs / r.line.entry col) 0⟩) read rfl
        readBest basicBest
      dsimp only [Option.map_some] at better ⊢
      rw [better, ok_bind]
      split
      · refine ⟨rfl, ?_⟩
        rintro c ⟨⟩
        exact ⟨r, read, rfl⟩
      · exact ⟨rfl, placed⟩

theorem ratioTest_grid (shaped : t.Shaped) (low : col < t.columns) (tol : α) :
    t.grid.ratioTest col tol = .ok (t.ratioTest col tol) ∧ ∀ row ∈ t.ratioTest col tol, row < t.rows.length := by
  have places : t.grid.rows.zipIdx = t.rows.zipIdx.map (Prod.map (·.line.cells) id) := List.zipIdx_map
  -- the scan of the grid keeps no basic column and reads it again at a tie
  obtain ⟨scanned, placed⟩ := foldlM_eq_ok (fun best : Option (Candidate α) => best.map fun c => (c.row, c.ratio))
    t.Placed (f := fun best place => t.grid.consider col tol best place.1.line.cells place.2)
    (g := fun best place => Candidate.consider col tol best place.1 place.2) (t := none)
    (fun place (member : place ∈ t.rows.zipIdx) best placed =>
      consider_grid shaped low (List.mem_zipIdx_iff_getElem?.mp member) placed)
    (by rintro c ⟨⟩)
  refine ⟨?_, ?_⟩
  · unfold Grid.ratioTest ratioTest
    rw [places, List.foldlM_map]
    refine (congrArg (· >>= fun best => Except.ok (best.map Prod.fst)) scanned).trans ?_
    rw [ok_bind, Option.map_map]
    rfl
  · intro row found
    obtain ⟨c, kept, rfl⟩ := Option.map_eq_some_iff.mp found
    obtain ⟨r, read, -⟩ := placed c kept
    exact (List.getElem?_eq_some_iff.mp read).1

theorem outlet_grid (shaped : t.Shaped) (within : t.artificial ≤ t.columns) (inside : row < t.rows.length) :
    t.grid.outlet row tol = .ok (t.outlet row tol) := by
  have read : t.rows[row]? = some t.rows[row] := List.getElem?_eq_getElem inside
  have width := shaped.rows _ (List.getElem_mem inside)
  unfold Grid.outlet outlet
  rw [readAt_basis read, ok_bind, read, grid_artificial]
  dsimp only
  split
  · rfl
  · apply findM?_range (by omega)
    intro j v low found
    have cell : (t.rows[row]).line.cells[j]? = some v := by
      rw [Line.cells, List.getElem?_append_left (by omega), found]
    rw [readAt_rows read, ok_bind, readAt_eq_ok cell, ok_bind]

theorem outlet_lt (within : t.artificial ≤ t.columns) (found : t.outlet row tol = some col) : col < t.columns := by
  unfold outlet at found
  split at found
  · cases found
  · split at found
    · cases found
    · obtain ⟨bound, -⟩ := List.findIdx?_eq_some_iff_getElem.mp found
      rw [List.length_take] at bound
      omega

theorem primal_grid (shaped : t.Shaped) (vars : Nat) : t.grid.primal vars = .ok (t.primal vars) := by
  have places : t.grid.basis.zipIdx = t.rows.zipIdx.map (Prod.map Row.basic id) := List.zipIdx_map
  unfold Grid.primal primal
  rw [places, List.foldlM_map, ← foldl_zipIdx]
  refine (foldlM_eq_ok id (fun x : List α => x.length = vars) ?_ ?_).1
  · rintro ⟨r, i⟩ member x length
    have read := List.mem_zipIdx_iff_getElem?.mp member
    dsimp only [Prod.map_apply, id, place]
    by_cases low : r.basic < vars
    · rw [if_pos low, if_pos low, readAt_rows read, ok_bind, grid_columns,
        readAt_rhs shaped (List.mem_of_getElem? read), ok_bind, writeAt_eq_ok (by omega)]
      exact ⟨rfl, by simpa using length⟩
    · rw [if_neg low, if_neg low]
      exact ⟨rfl, length⟩
  · exact List.length_replicate

end Operations

end Tableau

end BranchBound.Linear
