import BranchBound.Proofs.Validity

/-!
# The dense view of a system

A system tests a branch row at one coordinate of a point; its dense view holds the same row in full width and
measures by how much the worst row is missed. Both decide the same inequalities, at every point and with every
tolerance (`System.dense_agrees`).
-/

namespace BranchBound

open Integer (BranchRow System)

variable {x : List ℚ} {tol : ℚ}

/-- The point misses neither a row nor `x ≥ 0` by more than `tol`. -/
structure Near (rows : List (List ℚ × ℚ)) (x : List ℚ) (tol : ℚ) : Prop where
  nonneg : ∀ v ∈ x, -tol ≤ v
  rows : ∀ row ∈ rows, Scalar.dot row.1 x ≤ row.2 + tol

theorem near_append {first second : List (List ℚ × ℚ)} :
    Near (first ++ second) x tol ↔ Near first x tol ∧ ∀ row ∈ second, Scalar.dot row.1 x ≤ row.2 + tol := by
  constructor
  · rintro ⟨nonneg, rows⟩
    rw [List.forall_mem_append] at rows
    exact ⟨⟨nonneg, rows.1⟩, rows.2⟩
  · rintro ⟨⟨nonneg, rows⟩, more⟩
    exact ⟨nonneg, List.forall_mem_append.mpr ⟨rows, more⟩⟩

/-! ### The dense side -/

theorem Rational.largest_le_iff {start bound : ℚ} {xs : List ℚ} :
    Scalar.largest start xs ≤ bound ↔ start ≤ bound ∧ ∀ v ∈ xs, v ≤ bound :=
  ⟨fun below => ⟨(start_le_largest start xs).trans below, fun _ member => (le_largest start member).trans below⟩,
    fun below => largest_le below.1 below.2⟩

theorem Linear.Program.maxViolation_le_iff {p : Linear.Program ℚ} (tolerant : 0 ≤ tol) :
    p.maxViolation x ≤ tol ↔ Near (p.rows.zip p.rhs) x tol := by
  unfold maxViolation
  dsimp only
  rw [Rational.scalar_max, max_le_iff, Rational.largest_le_iff, Rational.largest_le_iff,
    ← List.map_uncurry_zip_eq_zipWith, List.forall_mem_map, List.forall_mem_map]
  constructor
  · rintro ⟨⟨-, rows⟩, -, nonneg⟩
    exact ⟨fun v member => neg_le.mp (nonneg v member), fun row member => sub_le_iff_le_add'.mp (rows row member)⟩
  · rintro ⟨nonneg, rows⟩
    exact ⟨⟨tolerant, fun row member => sub_le_iff_le_add'.mpr (rows row member)⟩, tolerant,
      fun v member => neg_le.mp (nonneg v member)⟩

namespace Integer

/-! ### The sparse side -/

theorem Program.holdsAt_iff_near {p : Integer.Program ℚ} (length : x.length = p.vars) :
    p.holdsAt x tol = true ↔ Near (p.rows.zip p.rhs) x tol := by
  unfold Program.holdsAt
  simp only [length, decide_true, Bool.true_and, Bool.and_eq_true, List.all_eq_true, Rational.scalar_lt,
    Rational.scalar_le, Bool.not_eq_true', decide_eq_false_iff_not, decide_eq_true_eq, not_lt]
  exact ⟨fun holds => ⟨holds.1, holds.2⟩, fun near => ⟨near.nonneg, near.rows⟩⟩

/-- The test of one coordinate is that of the row in full width. -/
theorem BranchRow.holdsAt_eq {r : BranchRow ℚ} (inside : r.var < x.length) :
    r.holdsAt x tol =
      .ok (decide (Scalar.dot ((List.replicate x.length 0).set r.var r.coefficient) x ≤ r.rhs + tol)) := by
  have read : x[r.var]? = some x[r.var] := List.getElem?_eq_getElem inside
  unfold BranchRow.holdsAt
  rw [read, ← form_rat, form_single _ read]
  simp

namespace System

theorem branchesHoldAt_eq {branches : List (BranchRow ℚ)} (inside : ∀ r ∈ branches, r.var < x.length) :
    branchesHoldAt x tol branches = .ok (decide (∀ r ∈ branches,
      Scalar.dot ((List.replicate x.length 0).set r.var r.coefficient) x ≤ r.rhs + tol)) := by
  induction branches with
  | nil => simp [branchesHoldAt]
  | cons r rest ih =>
    rw [List.forall_mem_cons] at inside
    rw [branchesHoldAt, BranchRow.holdsAt_eq inside.1, ih inside.2]
    by_cases first : Scalar.dot ((List.replicate x.length 0).set r.var r.coefficient) x ≤ r.rhs + tol
    · simp [first]
    · simp [first]

theorem zip_linear {s : System ℚ} (counted : s.program.rows.length = s.program.rhs.length) :
    s.linear.rows.zip s.linear.rhs = s.pairs := by
  show (s.program.rows ++ _).zip (s.program.rhs ++ _) = _
  rw [List.zip_append counted, List.zip_map']
  rfl

theorem near_pairs {s : System ℚ} : Near s.pairs x tol ↔ Near (s.program.rows.zip s.program.rhs) x tol ∧
    ∀ r ∈ s.branches, Scalar.dot ((List.replicate s.program.vars 0).set r.var r.coefficient) x ≤ r.rhs + tol := by
  unfold pairs
  rw [near_append, List.forall_mem_map]

theorem holdsAt_eq {s : System ℚ} (counted : s.program.rows.length = s.program.rhs.length)
    (inside : ∀ r ∈ s.branches, r.var < s.program.vars) (length : x.length = s.program.vars) (tolerant : 0 ≤ tol) :
    s.holdsAt x tol = .ok (decide (s.linear.maxViolation x ≤ tol)) := by
  rw [← length] at inside
  have misses := Linear.Program.maxViolation_le_iff (p := s.linear) (x := x) tolerant
  rw [zip_linear counted, near_pairs, ← Program.holdsAt_iff_near length, ← length] at misses
  unfold holdsAt
  rw [branchesHoldAt_eq inside]
  by_cases base : s.program.holdsAt x tol = true
  · simp [base, misses]
  · simp [base, misses]

/-- The dense view of a system has the rows of the program and then the branch rows, all in full width. The test
of a point within a tolerance says whether it violates the dense view by at most the tolerance. -/
theorem dense_agrees (s : System ℚ) (sound : s.program.fault? = none)
    (inside : ∀ r ∈ s.branches, r.var < s.program.vars) :
    ∃ rows rhs, s.dense = .ok (rows, rhs) ∧ rows.length = s.numRows ∧ rhs.length = s.numRows ∧
      rows = s.program.rows ++ s.branches.map (fun r => (List.replicate s.program.vars 0).set r.var r.coefficient) ∧
      rhs = s.program.rhs ++ s.branches.map BranchRow.rhs ∧ (∀ row ∈ rows, row.length = s.program.vars) ∧
      ∀ x tol, x.length = s.program.vars → 0 ≤ tol →
        s.holdsAt x tol = .ok (decide (Linear.Program.maxViolation ⟨s.program.objective, rows, rhs⟩ x ≤ tol)) := by
  have valid := Program.valid_of_fault? sound
  have shaped := shaped_linear valid
  have count : s.linear.rhs.length = s.numRows := by
    show (s.program.rhs ++ _).length = s.program.rows.length + _
    rw [List.length_append, List.length_map, valid.counted]
  refine ⟨s.linear.rows, s.linear.rhs, dense_linear valid.counted inside, shaped.counted.trans count, count, rfl, rfl,
    fun row member => (shaped.rows row member).1, ?_⟩
  intro x tol length tolerant
  exact holdsAt_eq valid.counted inside length tolerant

/-- `x₀ + x₁ ≤ 4` with `x₀ ≥ 1` and `x₁ ≤ 2`. -/
def twoSided : System ℚ :=
  ⟨⟨[[1, 1]], [4], [-1, -1]⟩, [.split .ceil 0 0.5, .split .floor 1 2.7]⟩

/-- The point `(1, 9/4)` misses the last row by a quarter, `(1/2, 2)` the one before by a half. -/
theorem dense_agrees_two_sided :
    twoSided.program.fault? = none ∧ (∀ r ∈ twoSided.branches, r.var < twoSided.program.vars) ∧
      twoSided.dense = .ok ([[1, 1], [-1, 0], [0, 1]], [4, -1, 2]) ∧
      (∀ x : List ℚ, x.length = 2 → twoSided.holdsAt x 0.25 =
        .ok (decide (Linear.Program.maxViolation ⟨[-1, -1], [[1, 1], [-1, 0], [0, 1]], [4, -1, 2]⟩ x ≤ 0.25))) ∧
      twoSided.holdsAt [1, 2.25] 0.25 = .ok true ∧ twoSided.holdsAt [0.5, 2] 0.25 = .ok false := by
  have sound : twoSided.program.fault? = none := by decide +kernel
  have inside : ∀ r ∈ twoSided.branches, r.var < twoSided.program.vars := by decide +kernel
  have known : twoSided.dense = .ok ([[1, 1], [-1, 0], [0, 1]], [4, -1, 2]) := by decide +kernel
  obtain ⟨rows, rhs, dense, -, -, -, -, -, agrees⟩ := dense_agrees twoSided sound inside
  cases known.symm.trans dense
  refine ⟨sound, inside, known, fun x length => agrees x 0.25 length (by decide +kernel), ?_, ?_⟩
  · decide +kernel
  · decide +kernel

end System

end Integer

end BranchBound
