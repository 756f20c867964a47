import Mathlib.Data.Real.Basic
import BranchBound.Proofs.Rational
import BranchBound.Linear.Tableau

/-!
# Pivots

A pivot on a nonzero entry is a change of equations and no more: the new tableau has the solutions
of the old one (`pivot_solves`), its cost line takes the same value at each of them
(`pivot_cost_gap`), and the columns of its basis are again unit vectors (`pivot_canonical`).
-/

namespace BranchBound.Linear

open Finset (range)

/-! ### Lines -/

namespace Line

section Shape
variable {α : Type} [Scalar α]

theorem length_divide (l : Line α) (p : α) : (l.divide p).coeffs.length = l.coeffs.length := by
  simp [divide]

theorem length_subtract {l other : Line α} (factor : α) (same : other.coeffs.length = l.coeffs.length) :
    (l.subtract factor other).coeffs.length = l.coeffs.length := by
  simp [subtract, same]

theorem length_clear {l lead : Line α} (col : Nat) (same : lead.coeffs.length = l.coeffs.length) :
    (l.clear col lead).coeffs.length = l.coeffs.length := by
  unfold clear
  split
  · rfl
  · simpa using length_subtract _ same

end Shape

theorem entry_of_le {l : Line ℚ} {j : Nat} (outside : l.coeffs.length ≤ j) : l.entry j = 0 := by
  unfold entry
  rw [List.getD_eq_getElem?_getD, List.getElem?_eq_none outside]
  rfl

theorem entry_divide (l : Line ℚ) (p : ℚ) (j : Nat) : (l.divide p).entry j = l.entry j / p := by
  unfold divide entry
  simp only [List.getD_eq_getElem?_getD, List.getElem?_map]
  cases l.coeffs[j]? with
  | none => simp
  | some v => simp

theorem entry_subtract {l other : Line ℚ} (factor : ℚ) (same : other.coeffs.length = l.coeffs.length)
    (j : Nat) : (l.subtract factor other).entry j = l.entry j - factor * other.entry j := by
  by_cases inside : j < l.coeffs.length
  · have otherInside : j < other.coeffs.length := same ▸ inside
    unfold subtract entry
    simp only [List.getD_eq_getElem?_getD, List.getElem?_zipWith, List.getElem?_eq_getElem inside,
      List.getElem?_eq_getElem otherInside, Option.getD_some]
  · have outside := not_lt.mp inside
    have otherOutside : other.coeffs.length ≤ j := same ▸ outside
    have length := length_subtract factor same
    rw [entry_of_le outside, entry_of_le otherOutside, entry_of_le (length ▸ outside)]
    ring

theorem entry_clear {l lead : Line ℚ} {col : Nat} (same : lead.coeffs.length = l.coeffs.length)
    (unit : lead.entry col = 1) (j : Nat) :
    (l.clear col lead).entry j = l.entry j - l.entry col * lead.entry j := by
  unfold clear
  split
  · rename_i zero
    have zero : l.entry col = 0 := by simpa using zero
    rw [zero]
    ring
  · by_cases here : j = col
    · subst j
      rw [unit]
      unfold entry
      simp only [List.getD_eq_getElem?_getD, List.getElem?_set_self']
      cases (l.subtract ((l.coeffs[col]?).getD 0) lead).coeffs[col]? with
      | none => simp
      | some v => simp
    · rw [← entry_subtract (l.entry col) same j]
      unfold entry
      simp only [List.getD_eq_getElem?_getD]
      rw [List.getElem?_set_ne (Ne.symm here)]

theorem rhs_clear (l lead : Line ℚ) (col : Nat) :
    (l.clear col lead).rhs = l.rhs - l.entry col * lead.rhs := by
  unfold clear
  split
  · rename_i zero
    have zero : l.entry col = 0 := by simpa using zero
    rw [zero]
    ring
  · rfl

/-- The value of a line along `w`, without its right-hand side. -/
def slope (l : Line ℚ) (w : ℕ → ℝ) : ℝ :=
  ∑ j ∈ range l.coeffs.length, (l.entry j : ℝ) * w j

/-- By how much `z` misses the equation of a line. -/
def gap (l : Line ℚ) (z : ℕ → ℝ) : ℝ :=
  l.slope z - l.rhs

theorem slope_add (l : Line ℚ) (z w : ℕ → ℝ) : l.slope (fun j => z j + w j) = l.slope z + l.slope w := by
  unfold slope
  rw [← Finset.sum_add_distrib]
  exact Finset.sum_congr rfl fun j _ => mul_add _ _ _

theorem slope_smul (l : Line ℚ) (θ : ℝ) (w : ℕ → ℝ) : l.slope (fun j => θ * w j) = θ * l.slope w := by
  unfold slope
  rw [Finset.mul_sum]
  exact Finset.sum_congr rfl fun j _ => by ring

theorem gap_divide (l : Line ℚ) (p : ℚ) (z : ℕ → ℝ) : (l.divide p).gap z = l.gap z / p := by
  unfold gap slope
  rw [length_divide, sub_div, Finset.sum_div]
  have rhs : (((l.divide p).rhs : ℚ) : ℝ) = l.rhs / p := by
    show ((l.rhs / p : ℚ) : ℝ) = _
    push_cast
    rfl
  rw [rhs]
  congr 1
  refine Finset.sum_congr rfl fun j _ => ?_
  rw [entry_divide]
  push_cast
  ring

theorem gap_of_entries {l other combined : Line ℚ} {factor : ℚ}
    (same : other.coeffs.length = l.coeffs.length) (length : combined.coeffs.length = l.coeffs.length)
    (entries : ∀ j, combined.entry j = l.entry j - factor * other.entry j)
    (rhs : combined.rhs = l.rhs - factor * other.rhs) (z : ℕ → ℝ) :
    combined.gap z = l.gap z - factor * other.gap z := by
  have slopes : combined.slope z = l.slope z - factor * other.slope z := by
    unfold slope
    rw [length, same, Finset.mul_sum, ← Finset.sum_sub_distrib]
    refine Finset.sum_congr rfl fun j _ => ?_
    rw [entries]
    push_cast
    ring
  unfold gap
  rw [slopes, rhs]
  push_cast
  ring

theorem gap_subtract {l other : Line ℚ} (factor : ℚ) (same : other.coeffs.length = l.coeffs.length)
    (z : ℕ → ℝ) : (l.subtract factor other).gap z = l.gap z - factor * other.gap z :=
  gap_of_entries same (length_subtract _ same) (entry_subtract _ same) rfl z

theorem gap_clear {l lead : Line ℚ} {col : Nat} (same : lead.coeffs.length = l.coeffs.length)
    (unit : lead.entry col = 1) (z : ℕ → ℝ) :
    (l.clear col lead).gap z = l.gap z - l.entry col * lead.gap z :=
  gap_of_entries same (length_clear _ same) (entry_clear same unit) (rhs_clear _ _ _) z

end Line

namespace Tableau

/-! ### Shape -/

section Shape
variable {α : Type}

/-- Every line has an entry for each column, and every basic column exists. -/
structure Shaped (t : Tableau α) : Prop where
  rows : ∀ row ∈ t.rows, row.line.coeffs.length = t.columns
  cost : t.cost.coeffs.length = t.columns
  basic : ∀ row ∈ t.rows, row.basic < t.columns

variable [Scalar α]

def leading (r : Row α) (col : Nat) : Line α :=
  r.line.divide (r.line.entry col)

theorem columns_pivot (t : Tableau α) (row col : Nat) : (t.pivot row col).columns = t.columns := by
  unfold pivot
  split <;> rfl

theorem artificial_pivot (t : Tableau α) (row col : Nat) : (t.pivot row col).artificial = t.artificial := by
  unfold pivot
  split <;> rfl

theorem rows_pivot {t : Tableau α} {row col : Nat} {r : Row α} (read : t.rows[row]? = some r) (k : Nat) :
    (t.pivot row col).rows[k]? = (t.rows[k]?).map fun other =>
      if k = row then ⟨leading r col, col⟩ else { other with line := other.line.clear col (leading r col) } := by
  unfold pivot
  rw [read]
  simp only [List.getElem?_map, List.getElem?_zipIdx, Option.map_map]
  cases t.rows[k]? with
  | none => rfl
  | some other => simp [leading]

theorem cost_pivot {t : Tableau α} {row col : Nat} {r : Row α} (read : t.rows[row]? = some r) :
    (t.pivot row col).cost = t.cost.clear col (leading r col) := by
  unfold pivot
  rw [read]
  rfl

theorem length_rows_pivot (t : Tableau α) (row col : Nat) : (t.pivot row col).rows.length = t.rows.length := by
  unfold pivot
  split <;> simp

theorem pivot_of_none {t : Tableau α} {row : Nat} (absent : t.rows[row]? = none) (col : Nat) :
    t.pivot row col = t := by
  unfold pivot
  rw [absent]

theorem length_leading {t : Tableau α} (shaped : t.Shaped) {row : Nat} {r : Row α}
    (read : t.rows[row]? = some r) (col : Nat) : (leading r col).coeffs.length = t.columns := by
  rw [leading, Line.length_divide]
  exact shaped.rows r (List.mem_of_getElem? read)

theorem pivot_shaped {t : Tableau α} (shaped : t.Shaped) (row : Nat) {col : Nat} (inside : col < t.columns) :
    (t.pivot row col).Shaped := by
  cases read : t.rows[row]? with
  | none => rw [pivot_of_none read]; exact shaped
  | some r =>
    have lead := length_leading shaped read col
    have each : ∀ other ∈ (t.pivot row col).rows,
        other.line.coeffs.length = t.columns ∧ other.basic < t.columns := by
      intro other member
      obtain ⟨k, found⟩ := List.getElem?_of_mem member
      rw [rows_pivot read] at found
      obtain ⟨before, present, rfl⟩ := Option.map_eq_some_iff.mp found
      have old := List.mem_of_getElem? present
      split
      · exact ⟨lead, inside⟩
      · refine ⟨?_, shaped.basic before old⟩
        rw [Line.length_clear _ (lead.trans (shaped.rows before old).symm)]
        exact shaped.rows before old
    refine ⟨?_, ?_, ?_⟩
    · intro other member
      rw [columns_pivot]
      exact (each other member).1
    · rw [cost_pivot read, columns_pivot, Line.length_clear _ (lead.trans shaped.cost.symm)]
      exact shaped.cost
    · intro other member
      rw [columns_pivot]
      exact (each other member).2

end Shape

/-! ### Solutions -/

/-- The points that satisfy every equation of a tableau. -/
def Solves (t : Tableau ℚ) (z : ℕ → ℝ) : Prop :=
  ∀ row ∈ t.rows, row.line.gap z = 0

section Pivot
variable {t : Tableau ℚ} {row col : Nat} {r : Row ℚ}

theorem entry_leading (r : Row ℚ) (col j : Nat) : (leading r col).entry j = r.line.entry j / r.line.entry col :=
  Line.entry_divide _ _ _

theorem entry_leading_self (nonzero : r.line.entry col ≠ 0) : (leading r col).entry col = 1 := by
  rw [entry_leading, div_self nonzero]

theorem rhs_leading (r : Row ℚ) (col : Nat) : (leading r col).rhs = r.line.rhs / r.line.entry col := rfl

theorem mem_pivot (read : t.rows[row]? = some r) {k : Nat} {after : Row ℚ}
    (found : (t.pivot row col).rows[k]? = some after) :
    (k = row ∧ after = ⟨leading r col, col⟩) ∨
      ∃ before, k ≠ row ∧ t.rows[k]? = some before ∧
        after = { before with line := before.line.clear col (leading r col) } := by
  rw [rows_pivot read] at found
  obtain ⟨before, present, rfl⟩ := Option.map_eq_some_iff.mp found
  by_cases here : k = row
  · exact Or.inl ⟨here, by rw [if_pos here]⟩
  · exact Or.inr ⟨before, here, present, by rw [if_neg here]⟩

theorem pivot_lead (read : t.rows[row]? = some r) : (t.pivot row col).rows[row]? = some ⟨leading r col, col⟩ := by
  rw [rows_pivot read, read]
  simp

theorem pivot_other (read : t.rows[row]? = some r) {k : Nat} {before : Row ℚ} (different : k ≠ row)
    (present : t.rows[k]? = some before) :
    (t.pivot row col).rows[k]? = some { before with line := before.line.clear col (leading r col) } := by
  rw [rows_pivot read, present]
  simp [different]

theorem gap_pivot_other (shaped : t.Shaped) (read : t.rows[row]? = some r) (nonzero : r.line.entry col ≠ 0)
    {before : Row ℚ} (member : before ∈ t.rows) (z : ℕ → ℝ) :
    (before.line.clear col (leading r col)).gap z =
      before.line.gap z - before.line.entry col * (leading r col).gap z :=
  Line.gap_clear ((length_leading shaped read col).trans (shaped.rows before member).symm)
    (entry_leading_self nonzero) z

/-- A pivot keeps the solutions. -/
theorem pivot_solves (shaped : t.Shaped) (read : t.rows[row]? = some r) (nonzero : r.line.entry col ≠ 0)
    (z : ℕ → ℝ) : (t.pivot row col).Solves z ↔ t.Solves z := by
  have nonzero' : (r.line.entry col : ℝ) ≠ 0 := by exact_mod_cast nonzero
  have lead : (leading r col).gap z = r.line.gap z / r.line.entry col := by
    rw [leading, Line.gap_divide]
  constructor
  · intro solved before member
    have leadZero : (leading r col).gap z = 0 :=
      solved ⟨leading r col, col⟩ (List.mem_of_getElem? (pivot_lead read))
    obtain ⟨k, present⟩ := List.getElem?_of_mem member
    by_cases here : k = row
    · subst k
      obtain rfl : r = before := Option.some.inj (read.symm.trans present)
      rw [lead, div_eq_zero_iff] at leadZero
      exact leadZero.resolve_right nonzero'
    · have changed := solved _ (List.mem_of_getElem? (pivot_other read here present))
      rw [gap_pivot_other shaped read nonzero member, leadZero] at changed
      simpa using changed
  · intro solved after member
    have leadZero : (leading r col).gap z = 0 := by
      rw [lead, solved r (List.mem_of_getElem? read), zero_div]
    obtain ⟨k, found⟩ := List.getElem?_of_mem member
    rcases mem_pivot read found with ⟨-, rfl⟩ | ⟨before, -, present, rfl⟩
    · exact leadZero
    · have old := List.mem_of_getElem? present
      show (before.line.clear col (leading r col)).gap z = 0
      rw [gap_pivot_other shaped read nonzero old, solved before old, leadZero]
      ring

theorem pivot_cost_gap (shaped : t.Shaped) (read : t.rows[row]? = some r) (nonzero : r.line.entry col ≠ 0)
    {z : ℕ → ℝ} (solved : t.Solves z) : (t.pivot row col).cost.gap z = t.cost.gap z := by
  have leadZero : (leading r col).gap z = 0 := by
    rw [leading, Line.gap_divide, solved r (List.mem_of_getElem? read), zero_div]
  rw [cost_pivot read, Line.gap_clear ((length_leading shaped read col).trans shaped.cost.symm)
    (entry_leading_self nonzero), leadZero]
  ring

end Pivot

/-! ### Unit columns -/

/-- Each basic column is a unit vector with its one in its own row. -/
structure Canonical (t : Tableau ℚ) : Prop extends t.Shaped where
  unit : ∀ (i k : Nat) (r s : Row ℚ), t.rows[i]? = some r → t.rows[k]? = some s →
    s.line.entry r.basic = if k = i then 1 else 0

/-- The cost line has no entry in a basic column. -/
def Reduced (t : Tableau ℚ) : Prop :=
  ∀ row ∈ t.rows, t.cost.entry row.basic = 0

section Canonical
variable {t : Tableau ℚ} {row col : Nat} {r : Row ℚ}

theorem Canonical.unit_self (canonical : t.Canonical) (member : r ∈ t.rows) : r.line.entry r.basic = 1 := by
  obtain ⟨i, read⟩ := List.getElem?_of_mem member
  simpa using canonical.unit i i r r read read

theorem Canonical.basic_inj (canonical : t.Canonical) {i k : Nat} {s : Row ℚ} (readI : t.rows[i]? = some r)
    (readK : t.rows[k]? = some s) (same : r.basic = s.basic) : i = k := by
  by_contra different
  have zero := canonical.unit i k r s readI readK
  rw [same, canonical.unit_self (List.mem_of_getElem? readK), if_neg (Ne.symm different)] at zero
  exact one_ne_zero zero

theorem entry_leading_basic (canonical : t.Canonical) (read : t.rows[row]? = some r) {i : Nat} {s : Row ℚ}
    (other : t.rows[i]? = some s) (different : i ≠ row) : (leading r col).entry s.basic = 0 := by
  rw [entry_leading, canonical.unit i row s r other read, if_neg (Ne.symm different), zero_div]

theorem entry_pivot_other (shaped : t.Shaped) (read : t.rows[row]? = some r) (nonzero : r.line.entry col ≠ 0)
    {before : Row ℚ} (member : before ∈ t.rows) (j : Nat) :
    (before.line.clear col (leading r col)).entry j =
      before.line.entry j - before.line.entry col * (leading r col).entry j :=
  Line.entry_clear ((length_leading shaped read col).trans (shaped.rows before member).symm)
    (entry_leading_self nonzero) j

theorem entry_cost_pivot (shaped : t.Shaped) (read : t.rows[row]? = some r) (nonzero : r.line.entry col ≠ 0)
    (j : Nat) :
    (t.pivot row col).cost.entry j = t.cost.entry j - t.cost.entry col * (leading r col).entry j := by
  rw [cost_pivot read]
  exact Line.entry_clear ((length_leading shaped read col).trans shaped.cost.symm) (entry_leading_self nonzero) j

theorem pivot_canonical (canonical : t.Canonical) (read : t.rows[row]? = some r)
    (nonzero : r.line.entry col ≠ 0) (inside : col < t.columns) : (t.pivot row col).Canonical := by
  refine ⟨pivot_shaped canonical.toShaped row inside, ?_⟩
  intro i k a b foundA foundB
  have shaped := canonical.toShaped
  rcases mem_pivot read foundA with ⟨rfl, rfl⟩ | ⟨s, differentA, presentA, rfl⟩
  · rcases mem_pivot read foundB with ⟨rfl, rfl⟩ | ⟨u, differentB, presentB, rfl⟩
    · simpa using entry_leading_self nonzero
    · show (u.line.clear col (leading r col)).entry col = _
      rw [entry_pivot_other shaped read nonzero (List.mem_of_getElem? presentB), entry_leading_self nonzero,
        if_neg differentB]
      ring
  · have leadZero : (leading r col).entry s.basic = 0 :=
      entry_leading_basic canonical read presentA differentA
    rcases mem_pivot read foundB with ⟨rfl, rfl⟩ | ⟨u, differentB, presentB, rfl⟩
    · rw [if_neg (Ne.symm differentA)]
      exact leadZero
    · show (u.line.clear col (leading r col)).entry s.basic = _
      rw [entry_pivot_other shaped read nonzero (List.mem_of_getElem? presentB), leadZero,
        canonical.unit i k s u presentA presentB]
      ring

theorem pivot_reduced (canonical : t.Canonical) (reduced : t.Reduced) (read : t.rows[row]? = some r)
    (nonzero : r.line.entry col ≠ 0) : (t.pivot row col).Reduced := by
  intro after member
  obtain ⟨k, found⟩ := List.getElem?_of_mem member
  rw [entry_cost_pivot canonical.toShaped read nonzero]
  rcases mem_pivot read found with ⟨-, rfl⟩ | ⟨before, different, present, rfl⟩
  · show t.cost.entry col - t.cost.entry col * (leading r col).entry col = 0
    rw [entry_leading_self nonzero]
    ring
  · show t.cost.entry before.basic - t.cost.entry col * (leading r col).entry before.basic = 0
    rw [reduced before (List.mem_of_getElem? present), entry_leading_basic canonical read present different]
    ring

/-! ### Basic points -/

/-- The value of `f` at the row in which a column is basic; zero outside the basis. -/
def spread (t : Tableau ℚ) (f : Row ℚ → ℚ) (j : Nat) : ℚ :=
  ((t.rows.find? fun row => row.basic = j).map f).getD 0

theorem spread_basic (canonical : t.Canonical) (f : Row ℚ → ℚ) (member : r ∈ t.rows) :
    t.spread f r.basic = f r := by
  obtain ⟨i, read⟩ := List.getElem?_of_mem member
  unfold spread
  cases found : t.rows.find? fun row => row.basic = r.basic with
  | none =>
    have absent := List.find?_eq_none.mp found r member
    simp at absent
  | some s =>
    have same : s.basic = r.basic := by simpa using List.find?_some found
    obtain ⟨k, readK⟩ := List.getElem?_of_mem (List.mem_of_find?_eq_some found)
    have index := canonical.basic_inj readK read same
    subst k
    obtain rfl : s = r := Option.some.inj (readK.symm.trans read)
    rfl

theorem spread_nonbasic (f : Row ℚ → ℚ) {j : Nat} (outside : ∀ s ∈ t.rows, s.basic ≠ j) : t.spread f j = 0 := by
  unfold spread
  rw [List.find?_eq_none.mpr]
  · rfl
  · intro s member
    simpa using outside s member

theorem spread_induction (canonical : t.Canonical) {f : Row ℚ → ℚ} {P : ℚ → Prop} (zero : P 0)
    (rows : ∀ s ∈ t.rows, P (f s)) (j : Nat) : P (t.spread f j) := by
  by_cases basic : ∃ s ∈ t.rows, s.basic = j
  · obtain ⟨s, present, rfl⟩ := basic
    rw [spread_basic canonical f present]
    exact rows s present
  · rw [spread_nonbasic f fun s present same => basic ⟨s, present, same⟩]
    exact zero

theorem slope_spread (canonical : t.Canonical) (f : Row ℚ → ℚ) (member : r ∈ t.rows) :
    r.line.slope (fun j => (t.spread f j : ℝ)) = f r := by
  obtain ⟨k, readK⟩ := List.getElem?_of_mem member
  simp only [Line.slope]
  rw [canonical.rows r member, Finset.sum_eq_single r.basic]
  · rw [spread_basic canonical f member, canonical.unit_self member]
    simp
  · intro j _ different
    by_cases basic : ∃ s ∈ t.rows, s.basic = j
    · obtain ⟨s, present, rfl⟩ := basic
      obtain ⟨i, readI⟩ := List.getElem?_of_mem present
      rw [canonical.unit i k s r readI readK, if_neg]
      · simp
      · rintro rfl
        exact different (congrArg Row.basic (Option.some.inj (readI.symm.trans readK)))
    · rw [spread_nonbasic f fun s present same => basic ⟨s, present, same⟩]
      simp
  · intro outside
    exact absurd (Finset.mem_range.mpr (canonical.basic r member)) outside

theorem cost_slope_spread (reduced : t.Reduced) (f : Row ℚ → ℚ) :
    t.cost.slope (fun j => (t.spread f j : ℝ)) = 0 := by
  simp only [Line.slope]
  refine Finset.sum_eq_zero fun j _ => ?_
  by_cases basic : ∃ s ∈ t.rows, s.basic = j
  · obtain ⟨s, present, rfl⟩ := basic
    rw [reduced s present]
    simp
  · rw [spread_nonbasic f fun s present same => basic ⟨s, present, same⟩]
    simp

/-- The solution that is zero outside the basis. -/
def basicPoint (t : Tableau ℚ) : Nat → ℚ :=
  t.spread fun row => row.line.rhs

theorem solves_basicPoint (canonical : t.Canonical) : t.Solves fun j => (t.basicPoint j : ℝ) := by
  intro row member
  unfold Line.gap basicPoint
  rw [slope_spread canonical _ member, sub_self]

/-- A solution that vanishes outside the basis is the basic point. -/
theorem eq_basicPoint (canonical : t.Canonical) {z : ℕ → ℝ} (solved : t.Solves z)
    (outside : ∀ j < t.columns, (∀ s ∈ t.rows, s.basic ≠ j) → z j = 0) {j : Nat} (inside : j < t.columns) :
    z j = t.basicPoint j := by
  by_cases basic : ∃ s ∈ t.rows, s.basic = j
  · obtain ⟨s, present, rfl⟩ := basic
    obtain ⟨k, readK⟩ := List.getElem?_of_mem present
    have single : s.line.slope z = z s.basic := by
      unfold Line.slope
      rw [canonical.rows s present, Finset.sum_eq_single s.basic]
      · rw [canonical.unit_self present]
        simp
      · intro j member different
        by_cases again : ∃ u ∈ t.rows, u.basic = j
        · obtain ⟨u, presentU, rfl⟩ := again
          obtain ⟨i, readI⟩ := List.getElem?_of_mem presentU
          rw [canonical.unit i k u s readI readK, if_neg]
          · simp
          · rintro rfl
            exact different (congrArg Row.basic (Option.some.inj (readI.symm.trans readK)))
        · rw [outside j (Finset.mem_range.mp member) (fun u presentU same => again ⟨u, presentU, same⟩)]
          simp
      · intro absent
        exact absurd (Finset.mem_range.mpr inside) absent
    have gap := solved s present
    unfold Line.gap at gap
    rw [basicPoint, spread_basic canonical _ present, ← single]
    linarith
  · rw [outside j inside fun s present same => basic ⟨s, present, same⟩,
      basicPoint, spread_nonbasic _ fun s present same => basic ⟨s, present, same⟩]
    simp

end Canonical

end Tableau

end BranchBound.Linear
