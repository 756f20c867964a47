import BranchBound.Proofs.Bland
import BranchBound.Oracle.Simplex

/-!
# The simplex oracle

With exact scalars and tolerances zero the simplex oracle tells the truth about every system
(`simplex_truthful`), and with pivots enough it always has an answer (`simplex_answers`).
-/

namespace BranchBound

open Integer (BranchRow System)

def rational (y : List ℤ) : List ℚ :=
  y.map (Int.cast : ℤ → ℚ)

/-- The answers that are true of a system; a budget that ran out and a lack of bound are always allowed. -/
def Integer.System.Allows (s : System ℚ) : Relaxation ℚ → Prop
  | .optimal objective x => s.Feasible x ∧ objective = s.program.value x ∧
      ∀ y : List ℝ, s.Feasible y → (objective : ℝ) ≤ form s.program.objective y
  | .infeasible => ∀ y : List ℝ, ¬s.Feasible y
  | .unbounded => True
  | .iterationLimit _ _ => True

/-- An oracle whose answers are true. -/
def Oracle.Truthful {σ : Type} (oracle : Oracle σ ℚ) : Prop :=
  ∀ state system answer, (oracle state system).result = .ok answer → system.Allows answer

namespace Integer.System

theorem le_of_allows {s : System ℚ} {objective : ℚ} {x y : List ℚ} (allowed : s.Allows (.optimal objective x))
    (feasible : s.Feasible y) : objective ≤ s.program.value y := by
  have below := allowed.2.2 (y.map Rat.cast) (feasible_cast.mpr feasible)
  rw [form_cast, form_rat] at below
  exact_mod_cast below

end Integer.System

namespace Oracle

variable {settings : Linear.Settings ℚ} {system : System ℚ} {tally : Tally}

theorem allows_of_answers {answer : Relaxation ℚ} (inside : ∀ r ∈ system.branches, r.var < system.program.vars)
    (answers : system.relaxation.Answers answer) : system.Allows answer := by
  cases answer with
  | optimal objective x =>
    obtain ⟨feasible, value, least⟩ := answers
    refine ⟨(System.feasible_relaxation inside).mp feasible, value, ?_⟩
    intro y other
    exact least y ((System.feasible_relaxation inside).mpr other)
  | infeasible =>
    intro y feasible
    exact answers y ((System.feasible_relaxation inside).mpr feasible)
  | unbounded => trivial
  | iterationLimit _ _ => trivial

theorem simplex_result (inside : ∀ r ∈ system.branches, r.var < system.program.vars) :
    (simplex settings tally system).result =
      match system.relaxation.solve settings with
      | .error fault => .error (.invalidRelaxation fault)
      | .ok ended => .ok ended.solution.answer := by
  unfold simplex
  rw [System.dense_eq inside]
  rcases unzipped : system.pairs.unzip with ⟨rows, rhs⟩
  have same : system.relaxation = ⟨system.program.objective, rows, rhs⟩ := by
    unfold System.relaxation
    rw [unzipped]
  rw [same]
  dsimp only
  cases Linear.Program.solve ⟨system.program.objective, rows, rhs⟩ settings with
  | error fault => rfl
  | ok ended => rfl

theorem simplex_truthful (exactPivots : settings.pivotTol = 0) (exactFeasibility : settings.feasTol = 0) :
    (simplex settings).Truthful := by
  intro tally system answer replied
  have inside : ∀ r ∈ system.branches, r.var < system.program.vars := by
    cases converted : system.dense with
    | error fault => simp [simplex, converted] at replied
    | ok matrix => exact System.inside_of_dense converted
  rw [simplex_result inside] at replied
  cases solved : system.relaxation.solve settings with
  | error fault => rw [solved] at replied; cases replied
  | ok ended =>
    rw [solved] at replied
    obtain rfl := Except.ok.inj replied
    obtain ⟨valid, rfl⟩ := Linear.Program.solve_ok solved
    exact allows_of_answers inside (Linear.Program.run_answers valid exactPivots exactFeasibility)

theorem relaxation_valid (valid : system.program.fault? = none) : system.relaxation.fault? = none := by
  obtain ⟨nonempty, counted, wide⟩ := Integer.Program.fault?_none valid
  refine Linear.Program.fault?_eq_none ?_ ?_ ?_
  · intro empty
    exact nonempty (List.length_eq_zero_iff.mpr empty)
  · show system.pairs.unzip.1.length = system.pairs.unzip.2.length
    simp
  · intro row member
    have member : row ∈ system.pairs.unzip.1 := member
    rw [List.unzip_fst, List.mem_map] at member
    obtain ⟨pair, present, rfl⟩ := member
    rcases List.mem_append.mp present with base | branch
    · exact wide pair.1 (List.of_mem_zip base).1
    · obtain ⟨r, -, rfl⟩ := List.mem_map.mp branch
      simp [System.relaxation, Integer.Program.vars]

theorem columns_relaxation (counted : system.program.rows.length = system.program.rhs.length) :
    (Linear.Tableau.build system.relaxation).columns ≤
      system.program.vars + 2 * (system.program.rhs.length + system.branches.length) := by
  have length : system.relaxation.rhs.length = system.program.rhs.length + system.branches.length := by
    show system.pairs.unzip.2.length = _
    simp [System.pairs, counted]
  have negative := List.countP_le_length (p := (Scalar.lt · 0)) (l := system.relaxation.rhs)
  have vars : system.relaxation.objective.length = system.program.vars := rfl
  rw [Linear.Tableau.build_columns, Linear.Tableau.build_artificial]
  omega

/-- With tolerances zero and pivots enough, the simplex oracle answers every system of a program. -/
theorem simplex_answers (tally : Tally) (system : System ℚ) (exactPivots : settings.pivotTol = 0)
    (exactFeasibility : settings.feasTol = 0)
    (valid : system.program.fault? = none) (inside : ∀ r ∈ system.branches, r.var < system.program.vars)
    (large : 2 * 2 ^ (system.program.vars + 2 * (system.program.rhs.length + system.branches.length)) ≤
      settings.maxPivots) :
    ∃ answer, (simplex settings tally system).result = .ok answer ∧ system.relaxation.Answers answer ∧
      ∀ objective x, answer ≠ .iterationLimit objective x := by
  have valid' := relaxation_valid valid
  refine ⟨(system.relaxation.run settings).solution.answer, ?_,
    Linear.Program.run_answers valid' exactPivots exactFeasibility, ?_⟩
  · rw [simplex_result inside, Linear.Program.solve, valid']
  · intro objective x
    refine Linear.Program.run_ends valid' exactPivots exactFeasibility (le_trans ?_ large) objective x
    have columns := columns_relaxation (Integer.Program.fault?_none valid).2.1
    exact Nat.mul_le_mul_left 2 (Nat.pow_le_pow_right (by norm_num) columns)

end Oracle

end BranchBound
