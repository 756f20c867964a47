import BranchBound.Proofs.RunCourse

/-!
# Near ties in the ratio test

Each near tie that a row wins may raise the ratio by the tolerance once more, so the row that leaves can lie above the
least ratio by the tolerance for every rival (`foldl_keep_le`); `ratioTest_drifts` is a run in which it does.
-/

namespace BranchBound.Linear

namespace Tableau

/-! ### Drift -/

section Drift
variable {tol : ℚ}

theorem ratio_keep_le_best (tolerant : 0 ≤ tol) (b c : Candidate ℚ) : (keep tol b c).ratio ≤ b.ratio + tol := by
  rcases keep_cases tol b c with ⟨kept, less | ⟨near, -⟩⟩ | ⟨kept, -⟩
  · rw [kept]
    linarith
  · rw [kept]
    linarith [(abs_le.mp near).2]
  · rw [kept]
    linarith

theorem ratio_keep_le_next (tolerant : 0 ≤ tol) (b c : Candidate ℚ) : (keep tol b c).ratio ≤ c.ratio + tol := by
  rcases keep_cases tol b c with ⟨kept, -⟩ | ⟨kept, unbeaten⟩
  · rw [kept]
    linarith
  · rw [kept]
    by_contra above
    exact unbeaten (Or.inl (by linarith))

theorem foldl_keep_le_best (tolerant : 0 ≤ tol) (b : Candidate ℚ) (rest : List (Candidate ℚ)) :
    (rest.foldl (keep tol) b).ratio ≤ b.ratio + rest.length * tol := by
  induction rest generalizing b with
  | nil => simp
  | cons c rest ih =>
    have step := ratio_keep_le_best tolerant b c
    have run := ih (keep tol b c)
    rw [List.foldl_cons, List.length_cons]
    push_cast
    linarith

/-- Each candidate after the first may raise the ratio by the tolerance. -/
theorem foldl_keep_le (tolerant : 0 ≤ tol) (b : Candidate ℚ) (rest : List (Candidate ℚ)) :
    ∀ c ∈ b :: rest, (rest.foldl (keep tol) b).ratio ≤ c.ratio + rest.length * tol := by
  rw [List.forall_mem_cons]
  refine ⟨foldl_keep_le_best tolerant b rest, ?_⟩
  induction rest generalizing b with
  | nil => simp
  | cons d rest ih =>
    rw [List.foldl_cons, List.length_cons, List.forall_mem_cons]
    push_cast
    constructor
    · have step := ratio_keep_le_next tolerant b d
      have run := foldl_keep_le_best tolerant (keep tol b d) rest
      linarith
    · intro c later
      have run := ih (keep tol b d) c later
      linarith

end Drift

/-! ### Rivals -/

/-- The rows whose entry in the column is above the tolerance. -/
def rivals (t : Tableau ℚ) (col : Nat) (tol : ℚ) : List (Row ℚ) :=
  t.rows.filter fun r => tol < r.line.entry col

section Rivals
variable {t : Tableau ℚ} {col row : Nat} {tol : ℚ} {r : Row ℚ}

theorem mem_rivals : r ∈ t.rivals col tol ↔ ∃ k : Nat, t.rows[k]? = some r ∧ tol < r.line.entry col := by
  rw [rivals, List.mem_filter, List.mem_iff_getElem?, decide_eq_true_iff, exists_and_right]

theorem ratios_candidates (t : Tableau ℚ) (col : Nat) (tol : ℚ) :
    (t.candidates col tol).map Candidate.ratio = (t.rivals col tol).map (Row.ratio · col) := by
  have rows : t.rows = t.rows.zipIdx.map Prod.fst := by simp
  unfold candidates rivals
  conv_rhs => rw [rows, List.filter_map, List.map_map]
  rw [List.map_map]
  rfl

theorem length_candidates (t : Tableau ℚ) (col : Nat) (tol : ℚ) :
    (t.candidates col tol).length = (t.rivals col tol).length := by
  simpa using congrArg List.length (ratios_candidates t col tol)

/-- Row `row` comes within the tolerance of every ratio, and has the lowest basic column of those near its own. -/
structure Least (t : Tableau ℚ) (col : Nat) (tol : ℚ) (row : Nat) (r : Row ℚ) : Prop where
  within : ∀ s ∈ t.rivals col tol, r.ratio col ≤ s.ratio col + tol
  lowest : ∀ k s, t.rows[k]? = some s → tol < s.line.entry col → |s.ratio col - r.ratio col| ≤ tol → k ≠ row →
    r.basic < s.basic

theorem least_of_unbeaten (distinct : (t.rows.map Row.basic).Nodup) (read : t.rows[row]? = some r)
    (unbeaten : ∀ k s, t.rows[k]? = some s → tol < s.line.entry col →
      ¬Candidate.Beats tol ⟨k, s.basic, s.ratio col⟩ ⟨row, r.basic, r.ratio col⟩) : Least t col tol row r := by
  constructor
  · intro s rival
    obtain ⟨k, found, above⟩ := mem_rivals.mp rival
    by_contra far
    exact unbeaten k s found above (Or.inl (by dsimp only; linarith))
  · intro k s found above near different
    have atMost : r.basic ≤ s.basic := by
      by_contra lower
      exact unbeaten k s found above (Or.inr ⟨near, not_le.mp lower⟩)
    have apart : r.basic ≠ s.basic := by
      intro same
      obtain ⟨inside, -⟩ := List.getElem?_eq_some_iff.mp found
      apply different
      apply (List.getElem?_inj (by simpa using inside) distinct).mp
      simp [found, read, same]
    omega

/-- No row leaves exactly if none has an entry above the tolerance. The row that leaves has such an entry, and its
ratio lies above the least by at most the tolerance for each rival; it is the least up to the tolerance, and of those
the lowest basic column, if near ties compose, as they do with tolerance zero. -/
theorem ratioTest_least_up_to_drift (distinct : (t.rows.map Row.basic).Nodup) (tolerant : 0 ≤ tol) (col : Nat) :
    (t.ratioTest col tol = none ↔ ∀ s ∈ t.rows, s.line.entry col ≤ tol) ∧
      ∀ row, t.ratioTest col tol = some row → ∃ r, t.rows[row]? = some r ∧ tol < r.line.entry col ∧
        (∀ s ∈ t.rivals col tol, r.ratio col ≤ s.ratio col + ((t.rivals col tol).length - 1 : ℕ) * tol) ∧
        (TiesCompose tol ((t.rivals col tol).map (Row.ratio · col)) ∨ tol = 0 → Least t col tol row r) := by
  refine ⟨ratioTest_eq_none_iff, ?_⟩
  intro row found
  obtain ⟨b, rest, r, cut, kept, read, above⟩ := ratioTest_eq_some found
  refine ⟨r, read, above, ?_, ?_⟩
  · intro s rival
    obtain ⟨k, present, entry⟩ := mem_rivals.mp rival
    have drift := foldl_keep_le tolerant b rest _ (cut ▸ candidate_mem present entry)
    rw [kept] at drift
    rw [← length_candidates, cut]
    simpa using drift
  · intro compose
    have compose : TiesCompose tol ((t.candidates col tol).map Candidate.ratio) := by
      rw [ratios_candidates]
      rcases compose with compose | rfl
      · exact compose
      · exact tiesCompose_zero _
    apply least_of_unbeaten distinct read
    intro k s present entry
    rw [← kept]
    exact unbeaten_of_cut tolerant compose cut present entry

end Rivals

/-- Three rivals in falling order of their basic columns, each within one fourth of the next: the last one leaves, two
fourths above the first, which leaves with tolerance zero. -/
theorem ratioTest_least_up_to_drift_three_rivals : ∃ (t : Tableau ℚ) (r s : Row ℚ),
    t = ⟨[⟨⟨[0, 0, 1, 1], 1⟩, 3⟩, ⟨⟨[0, 1, 1, 0], 5 / 4⟩, 1⟩, ⟨⟨[1, 0, 1, 0], 3 / 2⟩, 0⟩], ⟨[0, 0, -8, 0], 0⟩, 4, 4⟩ ∧
      (t.rows.map Row.basic).Nodup ∧ t.ratioTest 2 (1 / 4) = some 2 ∧ t.rows[2]? = some r ∧
      (t.rivals 2 (1 / 4)).map (Row.ratio · 2) = [1, 5 / 4, 3 / 2] ∧
      (∀ u ∈ t.rivals 2 (1 / 4), r.ratio 2 ≤ u.ratio 2 + 2 * (1 / 4)) ∧
      t.ratioTest 2 0 = some 0 ∧ t.rows[0]? = some s ∧ Least t 2 0 0 s := by
  obtain ⟨t, built⟩ : ∃ t : Tableau ℚ, t = ⟨[⟨⟨[0, 0, 1, 1], 1⟩, 3⟩, ⟨⟨[0, 1, 1, 0], 5 / 4⟩, 1⟩, ⟨⟨[1, 0, 1, 0], 3 / 2⟩, 0⟩],
    ⟨[0, 0, -8, 0], 0⟩, 4, 4⟩ := ⟨_, rfl⟩
  have distinct : (t.rows.map Row.basic).Nodup := by rw [built]; decide
  have drifts : t.ratioTest 2 (1 / 4) = some 2 := by rw [built]; decide +kernel
  have first : t.ratioTest 2 0 = some 0 := by rw [built]; decide +kernel
  have ratios : (t.rivals 2 (1 / 4)).map (Row.ratio · 2) = [1, 5 / 4, 3 / 2] := by rw [built]; decide +kernel
  obtain ⟨r, readR, -, drift, -⟩ := (ratioTest_least_up_to_drift distinct (by norm_num) 2).2 2 drifts
  obtain ⟨s, readS, -, -, least⟩ := (ratioTest_least_up_to_drift distinct le_rfl 2).2 0 first
  have count : (t.rivals 2 (1 / 4)).length = 3 := by
    rw [← List.length_map (f := (Row.ratio · 2)), ratios]
    rfl
  refine ⟨t, r, s, built, distinct, drifts, readR, ratios, ?_, first, readS, least (Or.inr rfl)⟩
  rw [count] at drift
  exact_mod_cast drift

end Tableau

namespace Program

open Tableau

/-- The greatest `x₀ + x₁ + 10 x₂` with tolerance one fourth. In the third turn `x₂` may grow to `1`, to `5 / 4` and to `3 / 2`
in rows of falling basic columns; the last one leaves, two fourths above the least, and the optimum so found breaks
the first row by one half. -/
theorem ratioTest_drifts : ∃ (p : Program ℚ) (s : Settings ℚ) (t : Tableau ℚ),
    p = ⟨[-1, -1, -10], [[0, 0, 1], [0, 1, 1], [1, 0, 1]], [1, 5 / 4, 3 / 2]⟩ ∧ s = ⟨3, 1 / 4, 0⟩ ∧
      (p.moves s).made = [(2, 0), (1, 1), (2, 2)] ∧ t = ((build p).price p.structuralCost).replay [(2, 0), (1, 1)] ∧
      (t.rows.map Row.basic).Nodup ∧ t.ratioTest 2 s.pivotTol = some 2 ∧
      t.rows.map (fun r => (r.line.entry 2, r.ratio 2)) = [(1, 1), (1, 5 / 4), (1, 3 / 2)] ∧
      ¬(3 / 2 : ℚ) ≤ 1 + s.pivotTol ∧ (p.run s).solution = ⟨.optimal (-15) [0, 0, 3 / 2], 3⟩ ∧
      p.maxViolation [0, 0, 3 / 2] = 1 / 2 := by
  refine ⟨_, _, _, rfl, rfl, ?_, rfl, ?_, ?_, ?_, ?_, ?_, ?_⟩ <;> decide +kernel

end Program

end BranchBound.Linear
