import BranchBound.Proofs.FirstTableau
import BranchBound.Proofs.RatioTest

/-!
# The pivot rule

With tolerance zero the entering column is the first with a negative cost, and the leaving row has
the least ratio and of those the lowest basic column. `Move` collects what a chosen pivot satisfies.
-/

namespace BranchBound.Linear

namespace Tableau

/-! ### The entering column -/

section Entering
variable {t : Tableau ℚ} {limit col : Nat}

theorem cost_read (shaped : t.Shaped) {j : Nat} (inside : j < t.columns) :
    t.cost.coeffs[j]? = some (t.cost.entry j) := by
  have bound : j < t.cost.coeffs.length := by rw [shaped.cost]; exact inside
  simp [Line.entry, List.getD_eq_getElem?_getD, List.getElem?_eq_getElem bound]

theorem entering_none (shaped : t.Shaped) (found : t.entering limit 0 = none) {j : Nat} (low : j < limit)
    (inside : j < t.columns) : 0 ≤ t.cost.entry j := by
  unfold entering at found
  rw [List.findIdx?_eq_none_iff] at found
  have member : t.cost.entry j ∈ t.cost.coeffs.take limit := by
    apply List.mem_of_getElem? (i := j)
    rw [List.getElem?_take, if_pos low, cost_read shaped inside]
  simpa using found _ member

theorem entering_lt {α : Type} [Scalar α] {t : Tableau α} {tol : α} (shaped : t.Shaped)
    (found : t.entering limit tol = some col) : col < limit ∧ col < t.columns := by
  unfold entering at found
  obtain ⟨bound, -, -⟩ := List.findIdx?_eq_some_iff_getElem.mp found
  rw [List.length_take, shaped.cost] at bound
  omega

theorem entering_some (shaped : t.Shaped) (found : t.entering limit 0 = some col) :
    col < limit ∧ col < t.columns ∧ t.cost.entry col < 0 ∧ ∀ j < col, 0 ≤ t.cost.entry j := by
  have bounds := entering_lt shaped found
  unfold entering at found
  obtain ⟨bound, negative, before⟩ := List.findIdx?_eq_some_iff_getElem.mp found
  have taken : ∀ (j : Nat) (small : j < (t.cost.coeffs.take limit).length),
      (t.cost.coeffs.take limit)[j] = t.cost.entry j := by
    intro j small
    have here : j < limit ∧ j < t.columns := by
      rw [List.length_take, shaped.cost] at small
      omega
    have read := cost_read shaped here.2
    rw [List.getElem_take]
    exact (List.getElem?_eq_some_iff.mp read).2
  refine ⟨bounds.1, bounds.2, ?_, ?_⟩
  · rw [taken col bound] at negative
    simpa using negative
  · intro j earlier
    have passed := before j earlier
    rw [taken j (by omega)] at passed
    simpa using passed

end Entering

/-! ### Right-hand sides -/

section Ratios
variable {t : Tableau ℚ} {row col : Nat} {r : Row ℚ}

theorem objective_pivot (read : t.rows[row]? = some r) :
    (t.pivot row col).objective = t.objective + t.cost.entry col * (r.line.rhs / r.line.entry col) := by
  show -(t.pivot row col).cost.rhs = -t.cost.rhs + _
  rw [cost_pivot read, Line.rhs_clear, rhs_leading]
  ring

/-- A pivot on a row with the least ratio keeps the right-hand sides nonnegative. -/
theorem pivot_nonneg (read : t.rows[row]? = some r) (positive : 0 < r.line.entry col)
    (nonneg : ∀ s ∈ t.rows, 0 ≤ s.line.rhs) (least : ∀ s ∈ t.rows, 0 < s.line.entry col →
      r.line.rhs / r.line.entry col < s.line.rhs / s.line.entry col ∨
        r.line.rhs / r.line.entry col = s.line.rhs / s.line.entry col ∧ r.basic ≤ s.basic) :
    ∀ s ∈ (t.pivot row col).rows, 0 ≤ s.line.rhs := by
  have step : 0 ≤ r.line.rhs / r.line.entry col := div_nonneg (nonneg r (List.mem_of_getElem? read)) positive.le
  intro s present
  obtain ⟨k, found⟩ := List.getElem?_of_mem present
  rcases mem_pivot read found with ⟨-, rfl⟩ | ⟨before, -, old, rfl⟩
  · exact step
  · have old := List.mem_of_getElem? old
    have start := nonneg before old
    show 0 ≤ (before.line.clear col (leading r col)).rhs
    rw [Line.rhs_clear, rhs_leading]
    by_cases entry : 0 < before.line.entry col
    · have bound : r.line.rhs / r.line.entry col ≤ before.line.rhs / before.line.entry col := by
        rcases least before old entry with less | ⟨same, -⟩
        · exact less.le
        · exact same.le
      rw [le_div_iff₀ entry] at bound
      linarith
    · have shrink := mul_nonpos_of_nonpos_of_nonneg (not_lt.mp entry) step
      linarith

end Ratios

/-! ### Moves -/

/-- What the rule promises of the pivot on `row`, which holds `r`, and `col`. -/
structure Move (limit : Nat) (t : Tableau ℚ) (row col : Nat) (r : Row ℚ) : Prop where
  read : t.rows[row]? = some r
  low : col < limit
  inside : col < t.columns
  negative : t.cost.entry col < 0
  first : ∀ j < col, 0 ≤ t.cost.entry j
  positive : 0 < r.line.entry col
  least : ∀ s ∈ t.rows, 0 < s.line.entry col →
    r.line.rhs / r.line.entry col < s.line.rhs / s.line.entry col ∨
      r.line.rhs / r.line.entry col = s.line.rhs / s.line.entry col ∧ r.basic ≤ s.basic

theorem move_of_rule {t : Tableau ℚ} {limit row col : Nat} (shaped : t.Shaped)
    (nonneg : ∀ s ∈ t.rows, 0 ≤ s.line.rhs) (enters : t.entering limit 0 = some col)
    (leaves : t.ratioTest col 0 = some row) : ∃ r, Move limit t row col r := by
  obtain ⟨low, inside, negative, first⟩ := entering_some shaped enters
  obtain ⟨r, read, positive, least⟩ := ratioTest_least nonneg leaves
  exact ⟨r, read, low, inside, negative, first, positive, least⟩

namespace Move
variable {t : Tableau ℚ} {limit row col : Nat} {r : Row ℚ}

theorem nonzero (move : Move limit t row col r) : r.line.entry col ≠ 0 := move.positive.ne'

theorem member (move : Move limit t row col r) : r ∈ t.rows := List.mem_of_getElem? move.read

theorem nonneg (move : Move limit t row col r) (nonneg : ∀ s ∈ t.rows, 0 ≤ s.line.rhs) :
    ∀ s ∈ (t.pivot row col).rows, 0 ≤ s.line.rhs :=
  pivot_nonneg move.read move.positive nonneg move.least

end Move

end Tableau

end BranchBound.Linear
