import BranchBound.Proofs.Pivot
import BranchBound.Proofs.Points

/-!
# The first tableau and its costs

The first tableau of a program without faults is canonical with right-hand sides from zero up. Its
solutions from zero up without artificial part are the points of the program with their slacks
(`solves_extend`, `feasible_of_solves`). Pricing makes any column costs a reduced cost line.
-/

namespace BranchBound.Linear

open Finset (range)

namespace Tableau

/-! ### Rows of the first tableau -/

section Rows
variable {α : Type} [Scalar α]

/-- The artificial variables of the rows before row `i`. -/
def artificialsBefore (pairs : List (List α × α)) (i : Nat) : Nat :=
  (pairs.take i).countP fun pair => Scalar.lt pair.2 0

theorem startRows_getElem? (vars columns index art : Nat) (pairs : List (List α × α)) (i : Nat) :
    (startRows vars columns index art pairs)[i]? = (pairs[i]?).map fun pair =>
      startRow vars columns (index + i) (art + artificialsBefore pairs i) pair.1 pair.2 := by
  induction pairs generalizing index art i with
  | nil => simp [startRows]
  | cons pair rest ih =>
    obtain ⟨coeffs, rhs⟩ := pair
    cases i with
    | zero => simp [startRows, artificialsBefore]
    | succ i =>
      rw [startRows, List.getElem?_cons_succ, ih, List.getElem?_cons_succ]
      have index_eq : index + 1 + i = index + (i + 1) := by omega
      have art_eq : (if Scalar.lt rhs 0 then art + 1 else art) + artificialsBefore rest i =
          art + artificialsBefore ((coeffs, rhs) :: rest) (i + 1) := by
        unfold artificialsBefore
        rw [List.take_succ_cons, List.countP_cons]
        cases Scalar.lt rhs 0 with
        | false => simp
        | true => simp; omega
      rw [index_eq, art_eq]

theorem artificialsBefore_lt {pairs : List (List α × α)} {i k : Nat} {pair : List α × α} (earlier : i < k)
    (read : pairs[i]? = some pair) (negative : Scalar.lt pair.2 0 = true) :
    artificialsBefore pairs i < artificialsBefore pairs k := by
  have inside : i < pairs.length := (List.getElem?_eq_some_iff.mp read).1
  have step : pairs.take (i + 1) = pairs.take i ++ [pair] := by
    rw [List.take_add_one, read]
    rfl
  have grows : (pairs.take (i + 1)).Sublist (pairs.take k) := List.take_sublist_take_left (by omega)
  have counted := grows.countP_le (p := fun pair => Scalar.lt pair.2 0)
  rw [step, List.countP_append] at counted
  unfold artificialsBefore
  simp only [List.countP_cons, List.countP_nil, negative] at counted
  simp at counted
  omega

theorem countP_zip {rows : List (List α)} {rhs : List α} (counted : rows.length = rhs.length) :
    (rows.zip rhs).countP (fun pair => Scalar.lt pair.2 0) = rhs.countP (Scalar.lt · 0) := by
  have mapped : rhs = (rows.zip rhs).map Prod.snd := (List.map_snd_zip (by omega)).symm
  conv_rhs => rw [mapped, List.countP_map]
  rfl

theorem artificialsBefore_total {rows : List (List α)} {rhs : List α} (counted : rows.length = rhs.length)
    {i : Nat} {pair : List α × α} (read : (rows.zip rhs)[i]? = some pair)
    (negative : Scalar.lt pair.2 0 = true) :
    artificialsBefore (rows.zip rhs) i < rhs.countP (Scalar.lt · 0) := by
  have inside : i < (rows.zip rhs).length := (List.getElem?_eq_some_iff.mp read).1
  have less := artificialsBefore_lt inside read negative
  unfold artificialsBefore at less ⊢
  rw [List.take_length] at less
  have all := countP_zip counted
  omega

theorem build_getElem? (p : Program α) (i : Nat) :
    (build p).rows[i]? = ((p.rows.zip p.rhs)[i]?).map fun pair =>
      startRow p.objective.length (build p).columns i
        ((build p).artificial + artificialsBefore (p.rows.zip p.rhs) i) pair.1 pair.2 := by
  have rows := startRows_getElem? p.objective.length (build p).columns 0 (build p).artificial
    (p.rows.zip p.rhs) i
  rw [Nat.zero_add] at rows
  exact rows

theorem build_columns (p : Program α) :
    (build p).columns = (build p).artificial + p.rhs.countP (Scalar.lt · 0) := rfl

theorem build_artificial (p : Program α) : (build p).artificial = p.objective.length + p.rhs.length := rfl

omit [Scalar α] in
theorem lt_length_rhs {p : Program α} {i : Nat} {pair : List α × α} (read : (p.rows.zip p.rhs)[i]? = some pair) :
    i < p.rhs.length := by
  have inside := (List.getElem?_eq_some_iff.mp read).1
  rw [List.length_zip] at inside
  omega

theorem build_shaped {p : Program α} (counted : p.rows.length = p.rhs.length) : (build p).Shaped := by
  have each : ∀ row ∈ (build p).rows,
      row.line.coeffs.length = (build p).columns ∧ row.basic < (build p).columns := by
    intro row member
    obtain ⟨i, found⟩ := List.getElem?_of_mem member
    rw [build_getElem?] at found
    obtain ⟨pair, read, rfl⟩ := Option.map_eq_some_iff.mp found
    refine ⟨by simp [startRow], ?_⟩
    have inside := lt_length_rhs read
    rw [build_columns]
    unfold startRow
    dsimp only
    split
    · rename_i negative
      have total := artificialsBefore_total counted read negative
      omega
    · rw [build_artificial]
      omega
  exact ⟨fun row member => (each row member).1, by simp [build], fun row member => (each row member).2⟩

end Rows

/-! ### The first tableau is canonical -/

section Exact
variable {p : Program ℚ}

/-- The sign that makes a right-hand side nonnegative. -/
def sign (rhs : ℚ) : ℚ :=
  if rhs < 0 then -1 else 1

theorem entry_startRow {vars columns index art : Nat} {coeffs : List ℚ} {rhs : ℚ} {j : Nat}
    (inside : j < columns) :
    (startRow vars columns index art coeffs rhs).line.entry j =
      if j < vars then sign rhs * coeffs.getD j 0
      else if j = vars + index then sign rhs
      else if rhs < 0 ∧ j = art then 1 else 0 := by
  unfold startRow Line.entry sign
  simp only [List.getD_eq_getElem?_getD, List.getElem?_map, List.getElem?_range inside, Option.map_some,
    Option.getD_some, Rational.scalar_lt, decide_eq_true_eq]

theorem rhs_startRow (vars columns index art : Nat) (coeffs : List ℚ) (rhs : ℚ) :
    (startRow vars columns index art coeffs rhs).line.rhs = sign rhs * rhs := by
  unfold startRow sign
  simp only [Rational.scalar_lt, decide_eq_true_eq]

theorem basic_startRow (vars columns index art : Nat) (coeffs : List ℚ) (rhs : ℚ) :
    (startRow vars columns index art coeffs rhs).basic = if rhs < 0 then art else vars + index := by
  unfold startRow
  simp only [Rational.scalar_lt, decide_eq_true_eq]

theorem build_nonneg (p : Program ℚ) : ∀ row ∈ (build p).rows, 0 ≤ row.line.rhs := by
  intro row member
  obtain ⟨i, found⟩ := List.getElem?_of_mem member
  rw [build_getElem?] at found
  obtain ⟨pair, -, rfl⟩ := Option.map_eq_some_iff.mp found
  rw [rhs_startRow]
  unfold sign
  split
  · linarith
  · rename_i notNegative
    linarith [not_lt.mp notNegative]

theorem build_canonical (counted : p.rows.length = p.rhs.length) : (build p).Canonical := by
  have shaped := build_shaped counted
  refine ⟨shaped, ?_⟩
  intro i k r s foundR foundS
  have inside := shaped.basic r (List.mem_of_getElem? foundR)
  have artificial := build_artificial p
  rw [build_getElem?] at foundR foundS
  obtain ⟨a, readA, rfl⟩ := Option.map_eq_some_iff.mp foundR
  obtain ⟨b, readB, rfl⟩ := Option.map_eq_some_iff.mp foundS
  have rowA := lt_length_rhs readA
  have rowB := lt_length_rhs readB
  rw [entry_startRow inside, basic_startRow]
  by_cases negative : a.2 < 0
  · -- The basic column is artificial: two negative rows have different ones.
    rw [if_pos negative, if_neg (by omega), if_neg (by omega)]
    by_cases same : k = i
    · subst k
      obtain rfl : a = b := Option.some.inj (readA.symm.trans readB)
      simp [negative]
    · rw [if_neg same, if_neg]
      rintro ⟨negativeB, clash⟩
      rcases Nat.lt_or_gt_of_ne same with before | after
      · have := artificialsBefore_lt before readB (by simpa using negativeB)
        omega
      · have := artificialsBefore_lt after readA (by simpa using negative)
        omega
  · -- The basic column is the slack of the row.
    rw [if_neg negative, if_neg (by omega)]
    by_cases same : k = i
    · subst k
      obtain rfl : a = b := Option.some.inj (readA.symm.trans readB)
      simp [sign, negative]
    · rw [if_neg (by omega), if_neg (by omega), if_neg same]

/-! ### Solutions of the first tableau -/

theorem gap_startRow {vars columns index art : Nat} {coeffs : List ℚ} {rhs : ℚ} (z : ℕ → ℝ)
    (slack : vars + index < art) (inside : vars + index < columns) (artInside : rhs < 0 → art < columns) :
    (startRow vars columns index art coeffs rhs).line.gap z =
      sign rhs * (∑ j ∈ range vars, (coeffs.getD j 0 : ℝ) * z j + z (vars + index) - rhs) +
        if rhs < 0 then z art else 0 := by
  have length : (startRow vars columns index art coeffs rhs).line.coeffs.length = columns := by simp [startRow]
  have split : ∀ j ∈ range columns,
      ((startRow vars columns index art coeffs rhs).line.entry j : ℝ) * z j =
        (if j < vars then (sign rhs : ℝ) * (coeffs.getD j 0 * z j) else 0) +
        (if j = vars + index then (sign rhs : ℝ) * z j else 0) +
        (if j = art then if rhs < 0 then z j else 0 else 0) := by
    intro j member
    rw [entry_startRow (Finset.mem_range.mp member)]
    by_cases low : j < vars
    · rw [if_pos low, if_pos low, if_neg (by omega), if_neg (by omega)]
      push_cast
      ring
    · rw [if_neg low, if_neg low]
      by_cases here : j = vars + index
      · rw [if_pos here, if_pos here, if_neg (by omega)]
        ring
      · rw [if_neg here, if_neg here]
        by_cases last : j = art <;> by_cases negative : rhs < 0 <;> simp [last, negative]
  have low : ∑ j ∈ range columns, (if j < vars then (sign rhs : ℝ) * (coeffs.getD j 0 * z j) else 0) =
      sign rhs * ∑ j ∈ range vars, (coeffs.getD j 0 : ℝ) * z j := by
    rw [← Finset.sum_filter, Finset.mul_sum]
    refine Finset.sum_congr ?_ fun _ _ => rfl
    ext j
    simp only [Finset.mem_filter, Finset.mem_range]
    omega
  have last : ∑ j ∈ range columns, (if j = art then if rhs < 0 then z j else 0 else 0) =
      if rhs < 0 then z art else 0 := by
    by_cases negative : rhs < 0
    · simp only [if_pos negative]
      rw [Finset.sum_ite_eq' (range columns) art z, if_pos (Finset.mem_range.mpr (artInside negative))]
    · simp [negative]
  unfold Line.gap Line.slope
  rw [length, Finset.sum_congr rfl split, Finset.sum_add_distrib, Finset.sum_add_distrib, low, last,
    Finset.sum_ite_eq' (range columns) (vars + index), if_pos (Finset.mem_range.mpr inside), rhs_startRow]
  push_cast
  ring

theorem sign_ne_zero (rhs : ℚ) : ((sign rhs : ℚ) : ℝ) ≠ 0 := by
  unfold sign
  split <;> norm_num

/-- A solution without artificial part satisfies each row with its slack. -/
theorem build_row_iff (counted : p.rows.length = p.rhs.length) {z : ℕ → ℝ}
    (noArtificial : ∀ j, (build p).artificial ≤ j → j < (build p).columns → z j = 0) :
    (build p).Solves z ↔ ∀ (i : Nat) (pair : List ℚ × ℚ), (p.rows.zip p.rhs)[i]? = some pair →
      ∑ j ∈ range p.objective.length, (pair.1.getD j 0 : ℝ) * z j + z (p.objective.length + i) = pair.2 := by
  have artificial := build_artificial p
  have columns := build_columns p
  have gapOf : ∀ (i : Nat) (pair : List ℚ × ℚ), (p.rows.zip p.rhs)[i]? = some pair →
      (startRow p.objective.length (build p).columns i
        ((build p).artificial + artificialsBefore (p.rows.zip p.rhs) i) pair.1 pair.2).line.gap z =
      sign pair.2 * (∑ j ∈ range p.objective.length, (pair.1.getD j 0 : ℝ) * z j +
        z (p.objective.length + i) - pair.2) := by
    intro i pair read
    have inside := lt_length_rhs read
    have artInside : pair.2 < 0 →
        (build p).artificial + artificialsBefore (p.rows.zip p.rhs) i < (build p).columns := by
      intro negative
      have := artificialsBefore_total counted read (by simpa using negative)
      omega
    rw [gap_startRow z (by omega) (by omega) artInside]
    by_cases negative : pair.2 < 0
    · rw [if_pos negative, noArtificial _ (by omega) (artInside negative), add_zero]
    · rw [if_neg negative, add_zero]
  constructor
  · intro solved i pair read
    have found := build_getElem? p i
    rw [read, Option.map_some] at found
    have zero := solved _ (List.mem_of_getElem? found)
    rw [gapOf i pair read] at zero
    rcases mul_eq_zero.mp zero with bad | good
    · exact absurd bad (sign_ne_zero _)
    · linarith
  · intro rows row member
    obtain ⟨i, found⟩ := List.getElem?_of_mem member
    rw [build_getElem?] at found
    obtain ⟨pair, read, rfl⟩ := Option.map_eq_some_iff.mp found
    rw [gapOf i pair read, rows i pair read, sub_self, mul_zero]

/-- A point of a program with its slacks, and no artificial part. -/
noncomputable def extend (p : Program ℚ) (y : List ℝ) (j : Nat) : ℝ :=
  if j < p.objective.length then y.getD j 0
  else match (p.rows.zip p.rhs)[j - p.objective.length]? with
    | some pair => pair.2 - form pair.1 y
    | none => 0

theorem extend_low {y : List ℝ} {j : Nat} (low : j < p.objective.length) : extend p y j = y.getD j 0 := by
  unfold extend
  rw [if_pos low]

theorem extend_nonneg {y : List ℝ} (feasible : p.Feasible y) (j : Nat) : 0 ≤ extend p y j := by
  unfold extend
  split
  · rw [List.getD_eq_getElem?_getD]
    cases read : y[j]? with
    | none => simp
    | some v => exact feasible.nonneg v (List.mem_of_getElem? read)
  · split
    · rename_i pair read
      linarith [feasible.rows pair (List.mem_of_getElem? read)]
    · exact le_refl _

theorem extend_artificial {y : List ℝ} {j : Nat} (high : (build p).artificial ≤ j) : extend p y j = 0 := by
  rw [build_artificial] at high
  unfold extend
  rw [if_neg (by omega), List.getElem?_eq_none]
  rw [List.length_zip]
  omega

theorem solves_extend (counted : p.rows.length = p.rhs.length)
    (wide : ∀ row ∈ p.rows, row.length = p.objective.length) {y : List ℝ} (feasible : p.Feasible y) :
    (build p).Solves (extend p y) := by
  rw [build_row_iff counted fun j high _ => extend_artificial high]
  intro i pair read
  have length : y.length = p.objective.length := feasible.length
  have rowWide : pair.1.length = y.length :=
    (wide pair.1 (List.of_mem_zip (List.mem_of_getElem? read)).1).trans length.symm
  have slack : extend p y (p.objective.length + i) = pair.2 - form pair.1 y := by
    unfold extend
    rw [if_neg (by omega), Nat.add_sub_cancel_left, read]
  have low : ∑ j ∈ range p.objective.length, (pair.1.getD j 0 : ℝ) * extend p y j = form pair.1 y := by
    rw [form_eq_sum rowWide, length]
    refine Finset.sum_congr rfl fun j member => ?_
    rw [extend_low (Finset.mem_range.mp member)]
  rw [slack, low]
  ring

/-- The first coordinates of a nonnegative solution without artificial part are a point. -/
theorem feasible_of_solves (counted : p.rows.length = p.rhs.length)
    (wide : ∀ row ∈ p.rows, row.length = p.objective.length) {z : ℕ → ℝ} (solved : (build p).Solves z)
    (nonneg : ∀ j < (build p).columns, 0 ≤ z j)
    (noArtificial : ∀ j, (build p).artificial ≤ j → j < (build p).columns → z j = 0) :
    p.Feasible ((List.range p.objective.length).map z) := by
  have columns := build_columns p
  have artificial := build_artificial p
  have rows := (build_row_iff counted noArtificial).mp solved
  refine ⟨by simp, ?_, ?_⟩
  · intro v member
    obtain ⟨j, inside, rfl⟩ := List.mem_map.mp member
    exact nonneg j (by have := List.mem_range.mp inside; omega)
  · intro pair member
    obtain ⟨i, read⟩ := List.getElem?_of_mem member
    have inside := lt_length_rhs read
    have rowWide := wide pair.1 (List.of_mem_zip member).1
    have value : form pair.1 ((List.range p.objective.length).map z) =
        ∑ j ∈ range p.objective.length, (pair.1.getD j 0 : ℝ) * z j := by
      rw [← rowWide]
      exact form_map_range _ _
    have slack := nonneg (p.objective.length + i) (by omega)
    rw [value]
    linarith [rows i pair read]

end Exact

/-! ### Pricing -/

section Pricing
variable {α : Type} [Scalar α]

theorem cost_price (t : Tableau α) (columnCost : Nat → α) : (t.price columnCost).cost =
    t.rows.foldl (priceOut columnCost) ⟨(List.range t.columns).map columnCost, 0⟩ := rfl

theorem rows_price (t : Tableau α) (columnCost : Nat → α) : (t.price columnCost).rows = t.rows := rfl

theorem columns_price (t : Tableau α) (columnCost : Nat → α) : (t.price columnCost).columns = t.columns := rfl

theorem length_priceOut {columnCost : Nat → α} {cost : Line α} {row : Row α}
    (same : row.line.coeffs.length = cost.coeffs.length) :
    (priceOut columnCost cost row).coeffs.length = cost.coeffs.length := by
  unfold priceOut
  split
  · rfl
  · exact Line.length_subtract _ same

theorem length_foldl_priceOut {columnCost : Nat → α} {cost : Line α} {rows : List (Row α)}
    (same : ∀ row ∈ rows, row.line.coeffs.length = cost.coeffs.length) :
    (rows.foldl (priceOut columnCost) cost).coeffs.length = cost.coeffs.length := by
  induction rows generalizing cost with
  | nil => rfl
  | cons row rest ih =>
    have first : (priceOut columnCost cost row).coeffs.length = cost.coeffs.length :=
      length_priceOut (same row List.mem_cons_self)
    rw [List.foldl_cons, ih, first]
    intro other member
    rw [first]
    exact same other (List.mem_cons_of_mem _ member)

theorem price_shaped {t : Tableau α} (shaped : t.Shaped) (columnCost : Nat → α) :
    (t.price columnCost).Shaped := by
  refine ⟨shaped.rows, ?_, shaped.basic⟩
  rw [cost_price, length_foldl_priceOut]
  · simp [columns_price]
  · intro row member
    simpa using shaped.rows row member

end Pricing

section ExactPricing
variable {t : Tableau ℚ} {columnCost : Nat → ℚ}

theorem entry_priceOut {cost : Line ℚ} {row : Row ℚ} (same : row.line.coeffs.length = cost.coeffs.length)
    (j : Nat) :
    (priceOut columnCost cost row).entry j = cost.entry j - columnCost row.basic * row.line.entry j := by
  unfold priceOut
  split
  · rename_i zero
    have zero : columnCost row.basic = 0 := by simpa using zero
    rw [zero]
    ring
  · exact Line.entry_subtract _ same j

theorem gap_priceOut {cost : Line ℚ} {row : Row ℚ} (same : row.line.coeffs.length = cost.coeffs.length)
    (z : ℕ → ℝ) :
    (priceOut columnCost cost row).gap z = cost.gap z - columnCost row.basic * row.line.gap z := by
  unfold priceOut
  split
  · rename_i zero
    have zero : columnCost row.basic = 0 := by simpa using zero
    rw [zero]
    push_cast
    ring
  · exact Line.gap_subtract _ same z

theorem entry_foldl_priceOut {cost : Line ℚ} {rows : List (Row ℚ)} {j : Nat}
    (same : ∀ row ∈ rows, row.line.coeffs.length = cost.coeffs.length)
    (zero : ∀ row ∈ rows, row.line.entry j = 0) :
    (rows.foldl (priceOut columnCost) cost).entry j = cost.entry j := by
  induction rows generalizing cost with
  | nil => rfl
  | cons row rest ih =>
    have width := same row List.mem_cons_self
    rw [List.foldl_cons, ih, entry_priceOut width, zero row List.mem_cons_self]
    · ring
    · intro other member
      rw [length_priceOut width]
      exact same other (List.mem_cons_of_mem _ member)
    · exact fun other member => zero other (List.mem_cons_of_mem _ member)

theorem gap_foldl_priceOut {cost : Line ℚ} {rows : List (Row ℚ)} {z : ℕ → ℝ}
    (same : ∀ row ∈ rows, row.line.coeffs.length = cost.coeffs.length)
    (zero : ∀ row ∈ rows, row.line.gap z = 0) :
    (rows.foldl (priceOut columnCost) cost).gap z = cost.gap z := by
  induction rows generalizing cost with
  | nil => rfl
  | cons row rest ih =>
    have width := same row List.mem_cons_self
    rw [List.foldl_cons, ih, gap_priceOut width, zero row List.mem_cons_self]
    · ring
    · intro other member
      rw [length_priceOut width]
      exact same other (List.mem_cons_of_mem _ member)
    · exact fun other member => zero other (List.mem_cons_of_mem _ member)

theorem entry_loaded (columnCost : Nat → ℚ) (columns : Nat) {j : Nat} (inside : j < columns) :
    (Line.mk ((List.range columns).map columnCost) 0).entry j = columnCost j := by
  unfold Line.entry
  rw [List.getD_eq_getElem?_getD, List.getElem?_map, List.getElem?_range inside]
  rfl

theorem price_canonical (canonical : t.Canonical) (columnCost : Nat → ℚ) : (t.price columnCost).Canonical :=
  ⟨price_shaped canonical.toShaped columnCost, canonical.unit⟩

theorem price_reduced (canonical : t.Canonical) (columnCost : Nat → ℚ) : (t.price columnCost).Reduced := by
  intro s member
  obtain ⟨k, read⟩ := List.getElem?_of_mem member
  rw [rows_price] at read
  have inside := canonical.basic s (List.mem_of_getElem? read)
  have cut : t.rows = t.rows.take k ++ s :: t.rows.drop (k + 1) := by
    obtain ⟨bound, found⟩ := List.getElem?_eq_some_iff.mp read
    rw [← found, List.getElem_cons_drop, List.take_append_drop]
  have width : ∀ row ∈ t.rows, row.line.coeffs.length =
      (Line.mk ((List.range t.columns).map columnCost) 0).coeffs.length := by
    intro row present
    simpa using canonical.rows row present
  -- Only row `k` has an entry in the basic column of row `k`.
  have before : ∀ row ∈ t.rows.take k, row.line.entry s.basic = 0 := by
    intro row present
    obtain ⟨i, found⟩ := List.getElem?_of_mem present
    rw [List.getElem?_take] at found
    split at found
    · rename_i earlier
      rw [canonical.unit k i s row read found, if_neg (by omega)]
    · exact absurd found (by simp)
  have after : ∀ row ∈ t.rows.drop (k + 1), row.line.entry s.basic = 0 := by
    intro row present
    obtain ⟨i, found⟩ := List.getElem?_of_mem present
    rw [List.getElem?_drop] at found
    rw [canonical.unit k (k + 1 + i) s row read found, if_neg (by omega)]
  have memberBefore : ∀ row ∈ t.rows.take k, row ∈ t.rows := fun row => List.mem_of_mem_take
  have memberAfter : ∀ row ∈ t.rows.drop (k + 1), row ∈ t.rows := fun row => List.mem_of_mem_drop
  have lengthBefore : ((t.rows.take k).foldl (priceOut columnCost)
      ⟨(List.range t.columns).map columnCost, 0⟩).coeffs.length = _ :=
    length_foldl_priceOut fun row present => width row (memberBefore row present)
  have widthS := (width s (List.mem_of_getElem? read)).trans lengthBefore.symm
  rw [cost_price]
  conv_lhs => rw [cut]
  rw [List.foldl_append, List.foldl_cons, entry_foldl_priceOut _ after, entry_priceOut widthS,
    entry_foldl_priceOut (fun row present => width row (memberBefore row present)) before,
    entry_loaded _ _ inside, canonical.unit_self (List.mem_of_getElem? read)]
  · ring
  · intro row present
    rw [length_priceOut widthS, lengthBefore]
    exact width row (memberAfter row present)

theorem price_gap (shaped : t.Shaped) (columnCost : Nat → ℚ) {z : ℕ → ℝ} (solved : t.Solves z) :
    (t.price columnCost).cost.gap z = ∑ j ∈ range t.columns, (columnCost j : ℝ) * z j := by
  rw [cost_price, gap_foldl_priceOut _ solved]
  · unfold Line.gap Line.slope
    simp only [List.length_map, List.length_range]
    rw [Finset.sum_congr rfl fun j member => by rw [entry_loaded _ _ (Finset.mem_range.mp member)]]
    push_cast
    ring
  · intro row member
    simpa using shaped.rows row member

end ExactPricing

end Tableau

end BranchBound.Linear
