import BranchBound.Proofs.Bland

/-!
# Pivot budgets

A phase that ran out of its budget goes on as if it had not stopped (`runPhase_add`), so the tableaux
on the way of a phase are where its runs with smaller budgets end. With exact scalars and tolerance
zero no two of them have the same basis (`Stage.neverReturns`), and a solve with pivots enough has an
answer (`solve_ends`). With any scalars more pivots change only a solve that has used up its own
(`solve_extends_with_pivots`).
-/

namespace BranchBound.Linear

section Budgets
variable {α : Type} [Scalar α]

/-- The phase with a further budget, which it uses only if it ran out of pivots. -/
def Phase.resume (limit : Nat) (tol : α) (budget : Nat) (phase : Phase α) : Phase α :=
  match phase.finish with
  | .outOfPivots => runPhase limit tol budget phase.pivots phase.tableau
  | .optimal => phase
  | .unbounded => phase

theorem Phase.resume_of_ne {phase : Phase α} (ended : phase.finish ≠ .outOfPivots) (limit : Nat) (tol : α)
    (budget : Nat) : phase.resume limit tol budget = phase := by
  unfold resume
  split
  · rename_i out
    exact absurd out ended
  · rfl
  · rfl

theorem runPhase_add (limit : Nat) (tol : α) (first second pivots : Nat) (t : Tableau α) :
    runPhase limit tol (first + second) pivots t =
      (runPhase limit tol first pivots t).resume limit tol second := by
  fun_induction runPhase limit tol first pivots t with
  | case1 first pivots t ended =>
    rw [runPhase, ended]
    rfl
  | case2 pivots t col enters =>
    rw [Nat.zero_add]
    rfl
  | case3 pivots t col enters first leaves =>
    rw [Nat.succ_add, runPhase, enters]
    dsimp only
    rw [leaves]
    rfl
  | case4 pivots t col enters first row leaves ih =>
    rw [Nat.succ_add, runPhase, enters]
    dsimp only
    rw [leaves]
    exact ih

theorem runPhase_raise (limit : Nat) (tol : α) {budget budget' : Nat} (more : budget ≤ budget') (pivots : Nat)
    (t : Tableau α) (ended : (runPhase limit tol budget pivots t).finish ≠ .outOfPivots) :
    runPhase limit tol budget' pivots t = runPhase limit tol budget pivots t := by
  obtain ⟨further, rfl⟩ := Nat.exists_eq_add_of_le more
  rw [runPhase_add, Phase.resume_of_ne ended]

theorem pivots_runPhase (limit : Nat) (tol : α) (budget pivots : Nat) (t : Tableau α) :
    pivots ≤ (runPhase limit tol budget pivots t).pivots ∧
      (runPhase limit tol budget pivots t).pivots ≤ pivots + budget ∧
      ((runPhase limit tol budget pivots t).finish = .outOfPivots →
        (runPhase limit tol budget pivots t).pivots = pivots + budget) := by
  fun_induction runPhase limit tol budget pivots t with
  | case1 => simp
  | case2 => simp
  | case3 => simp
  | case4 _ _ _ _ _ _ _ ih =>
    obtain ⟨more, within, spent⟩ := ih
    refine ⟨by omega, by omega, ?_⟩
    intro out
    rw [spent out]
    omega

end Budgets

namespace Tableau

/-- The bases on the way of a phase are all different, whatever its budget. -/
def NeverReturns (limit : Nat) (t : Tableau ℚ) : Prop :=
  ∀ pivots i k, i < k → (runPhase limit 0 k pivots t).pivots = pivots + k →
    (runPhase limit 0 i pivots t).tableau.basis ≠ (runPhase limit 0 k pivots t).tableau.basis

section Phases
variable {start t : Tableau ℚ} {columnCost : Nat → ℚ} {limit : Nat}

theorem Stage.basis_ne (stage : Stage start columnCost t) {budget pivots : Nat}
    (moved : pivots < (runPhase limit 0 budget pivots t).pivots) :
    t.basis ≠ (runPhase limit 0 budget pivots t).tableau.basis := by
  obtain ⟨u, n, first, walk, last, counted, -⟩ := runPhase_walk limit budget pivots stage
  intro same
  refine walk.not_closed (by omega) ?_
  rw [first, ← last]
  exact same.symm

theorem Stage.neverReturns (stage : Stage start columnCost t) (limit : Nat) : t.NeverReturns limit := by
  intro pivots i k earlier counted
  obtain ⟨-, few, spent⟩ := pivots_runPhase limit (0 : ℚ) i pivots t
  have split := runPhase_add limit (0 : ℚ) i (k - i) pivots t
  rw [Nat.add_sub_cancel' earlier.le] at split
  by_cases out : (runPhase limit 0 i pivots t).finish = .outOfPivots
  · -- The run with the larger budget goes on from the tableau that the other one ends with.
    simp only [Phase.resume, out] at split
    rw [split] at counted ⊢
    refine (stage.run limit i pivots).basis_ne ?_
    rw [counted, spent out]
    omega
  · rw [Phase.resume_of_ne out] at split
    rw [split] at counted
    omega

end Phases

end Tableau

namespace Program

open Tableau

/-- With exact scalars and tolerances zero a solve with pivots enough has an answer. Phase one, with
artificial columns free to enter again, never returns to a basis, nor does phase two from any
feasible basis, with artificial variables in it or not. -/
theorem solve_ends {p : Program ℚ} (valid : p.fault? = none) :
    (∃ enough, ∀ s : Settings ℚ, s.pivotTol = 0 → s.feasTol = 0 → enough ≤ s.maxPivots →
        ∃ ended, p.solve s = .ok ended ∧ ended.solution.answer.outcome ≠ .iterationLimit) ∧
      ((build p).price (artificialCost (build p))).NeverReturns (build p).columns ∧
      ∀ t, Ready (build p) t → (t.price p.structuralCost).NeverReturns (build p).artificial := by
  have ready := build_ready valid
  refine ⟨⟨2 * 2 ^ (build p).columns, ?_⟩, (ready.price _).neverReturns _,
    fun t feasible => (feasible.price _).neverReturns _⟩
  intro s exactPivots exactFeasibility large
  refine ⟨p.run s, by rw [solve, valid], ?_⟩
  have ends := run_ends valid exactPivots exactFeasibility large
  cases answer : (p.run s).solution.answer with
  | iterationLimit objective x => exact absurd answer (ends objective x)
  | optimal objective x => simp [Relaxation.outcome]
  | infeasible => simp [Relaxation.outcome]
  | unbounded => simp [Relaxation.outcome]

/-- The least `-x` under `1 ≤ x`, `2 ≤ 2 x` and `x ≤ 3`. The first pivot of phase one leaves an
artificial variable basic at zero, from where phase two would end as well; the second takes it out
and changes the basis, but not the objective. -/
theorem solve_ends_repeated_row : ∃ (p : Program ℚ) (s : Settings ℚ) (one two : Phase ℚ),
    p = ⟨[-1], [[-1], [-2], [1]], [-1, -2, 3]⟩ ∧ p.fault? = none ∧ s.pivotTol = 0 ∧ s.feasTol = 0 ∧
      (∃ ended, p.solve s = .ok ended ∧ ended.solution.answer.outcome ≠ .iterationLimit) ∧
      runPhase (build p).columns 0 1 0 ((build p).price (artificialCost (build p))) = one ∧
      runPhase (build p).columns 0 2 0 ((build p).price (artificialCost (build p))) = two ∧
      one.pivots = 1 ∧ two.pivots = 2 ∧ one.tableau.objective = two.tableau.objective ∧
      one.tableau.basis ≠ two.tableau.basis ∧
      (∃ row ∈ one.tableau.rows, one.tableau.artificial ≤ row.basic ∧ row.line.rhs = 0) ∧
      (one.tableau.price p.structuralCost).NeverReturns (build p).artificial := by
  have valid : (⟨[-1], [[-1], [-2], [1]], [-1, -2, 3]⟩ : Program ℚ).fault? = none := by decide +kernel
  obtain ⟨⟨enough, ends⟩, phaseOne, phaseTwo⟩ := solve_ends valid
  exact ⟨_, ⟨enough, 0, 0⟩, _, _, rfl, valid, rfl, rfl, ends _ rfl rfl (le_refl enough), rfl, rfl,
    by decide +kernel, by decide +kernel, by decide +kernel, phaseOne 0 1 2 (by decide) (by decide +kernel),
    by decide +kernel, phaseTwo _ (phaseOne_keeps valid 1).toReady⟩

/-! ### More pivots -/

section Raise
variable {α : Type} [Scalar α] {p : Program α} {s : Settings α} {t : Tableau α} {budget pivots : Nat}

/-- Phase one stops at a column that no row can leave for. -/
def PhaseOneUnbounded (p : Program α) (s : Settings α) : Prop :=
  (build p).hasArtificials = true ∧
    (runPhase (build p).columns s.pivotTol s.maxPivots 0 ((build p).price (artificialCost (build p)))).finish =
      .unbounded

/-- A run against the one with more pivots: it has spent its own, or both are the same. -/
inductive Raised (p : Program α) (s : Settings α) (run run' : Run α) : Prop
  | answered (within : run.solution.pivots ≤ s.maxPivots) (ended : run.solution.answer.outcome ≠ .iterationLimit)
      (same : run' = run)
  | spent (spent : run.solution.pivots = s.maxPivots) (cut : run.solution.answer.outcome = .iterationLimit)
  | broken (within : run.solution.pivots ≤ s.maxPivots) (unbounded : p.PhaseOneUnbounded s) (same : run' = run)

theorem phaseTwo_raise (more : s.maxPivots ≤ budget) (within : pivots ≤ s.maxPivots) (driven : Nat)
    (log : List (Event α)) :
    Raised p s (p.phaseTwo s t pivots driven log) (p.phaseTwo { s with maxPivots := budget } t pivots driven log) := by
  obtain ⟨-, few, spent⟩ := pivots_runPhase t.artificial s.pivotTol (s.maxPivots - pivots) pivots
    (t.price p.structuralCost)
  have raise := runPhase_raise t.artificial s.pivotTol (Nat.sub_le_sub_right more pivots) pivots
    (t.price p.structuralCost)
  rw [Nat.add_sub_cancel' within] at few spent
  unfold phaseTwo
  dsimp only
  cases finished : (runPhase t.artificial s.pivotTol (s.maxPivots - pivots) pivots
      (t.price p.structuralCost)).finish with
  | optimal =>
    rw [raise (by simp [finished]), finished]
    exact .answered few (by simp [Relaxation.outcome]) rfl
  | unbounded =>
    rw [raise (by simp [finished]), finished]
    exact .answered few (by simp [Relaxation.outcome]) rfl
  | outOfPivots => exact .spent (spent finished) rfl

theorem phaseOne_raise (artificials : (build p).hasArtificials = true) (more : s.maxPivots ≤ budget) :
    Raised p s (p.phaseOne s (build p)) (p.phaseOne { s with maxPivots := budget } (build p)) := by
  obtain ⟨-, few, spent⟩ := pivots_runPhase (build p).columns s.pivotTol s.maxPivots 0
    ((build p).price (artificialCost (build p)))
  have raise := runPhase_raise (build p).columns s.pivotTol more 0 ((build p).price (artificialCost (build p)))
  rw [Nat.zero_add] at few spent
  unfold phaseOne
  dsimp only
  cases finished : (runPhase (build p).columns s.pivotTol s.maxPivots 0
      ((build p).price (artificialCost (build p)))).finish with
  | outOfPivots => exact .spent (spent finished) rfl
  | unbounded =>
    rw [raise (by simp [finished]), finished]
    exact .broken few ⟨artificials, finished⟩ rfl
  | optimal =>
    rw [raise (by simp [finished]), finished]
    dsimp only
    split
    · exact .answered few (by simp [Relaxation.outcome]) rfl
    -- what phase one leaves of the budget is phase two's
    · exact phaseTwo_raise more few _ _

theorem run_raise (more : s.maxPivots ≤ budget) : Raised p s (p.run s) (p.run { s with maxPivots := budget }) := by
  unfold run
  dsimp only
  split
  · rename_i artificials
    exact phaseOne_raise artificials more
  · exact phaseTwo_raise more (Nat.zero_le _) _ _

/-- Of two solves that differ in their pivots allowed, the one with less makes no more than it may. If it
ends by itself the other returns the same; if it is cut short it has made all its pivots, or phase one
broke down, in the other as well. -/
theorem solve_extends_with_pivots (valid : p.fault? = none) {r : Settings α}
    (settings : r = { s with maxPivots := r.maxPivots }) (more : s.maxPivots ≤ r.maxPivots) :
    ∃ ended ended', p.solve s = .ok ended ∧ p.solve r = .ok ended' ∧
      ended.solution.pivots ≤ s.maxPivots ∧
      (ended.solution.answer.outcome ≠ .iterationLimit → ended'.solution = ended.solution) ∧
      (ended.solution.answer.outcome = .iterationLimit →
        ended.solution.pivots = s.maxPivots ∨
          p.PhaseOneUnbounded s ∧ ended'.solution = ended.solution) := by
  refine ⟨p.run s, p.run r, by rw [solve, valid], by rw [solve, valid], ?_⟩
  have raised := run_raise (p := p) more
  rw [← settings] at raised
  cases raised with
  | answered within ended same => exact ⟨within, fun _ => by rw [same], fun cut => absurd cut ended⟩
  | spent spent cut => exact ⟨spent.le, fun ended => absurd cut ended, fun _ => .inl spent⟩
  | broken within unbounded same =>
    exact ⟨within, fun _ => by rw [same], fun _ => .inr ⟨unbounded, by rw [same]⟩⟩

end Raise

/-- The least `-x - y` under `x ≤ 3` and `y ≤ 5`, which takes two pivots: one is too few. With a tolerance above
the entries of `1 ≤ x`, given twice, phase one breaks down at once. -/
theorem solve_extends_with_pivots_one_two : ∃ one two three : Run ℚ,
    (⟨[-1, -1], [[1, 0], [0, 1]], [3, 5]⟩ : Program ℚ).solve ⟨1, 0, 0⟩ = .ok one ∧
      one.solution = ⟨.iterationLimit (-3) [3, 0], 1⟩ ∧
      (⟨[-1, -1], [[1, 0], [0, 1]], [3, 5]⟩ : Program ℚ).solve ⟨2, 0, 0⟩ = .ok two ∧
      two.solution = ⟨.optimal (-8) [3, 5], 2⟩ ∧
      (∃ further, (⟨[-1, -1], [[1, 0], [0, 1]], [3, 5]⟩ : Program ℚ).solve ⟨9, 0, 0⟩ = .ok further ∧
        further.solution = two.solution) ∧
      (⟨[1], [[-1], [-1]], [-1, -1]⟩ : Program ℚ).solve ⟨1, 3 / 2, 0⟩ = .ok three ∧
      three.solution.answer.outcome = .iterationLimit ∧ three.solution.pivots = 0 ∧
      (⟨[1], [[-1], [-1]], [-1, -1]⟩ : Program ℚ).PhaseOneUnbounded ⟨1, 3 / 2, 0⟩ ∧
      ∃ further, (⟨[1], [[-1], [-1]], [-1, -1]⟩ : Program ℚ).solve ⟨9, 3 / 2, 0⟩ = .ok further ∧
        further.solution = three.solution := by
  have plain : (⟨[-1, -1], [[1, 0], [0, 1]], [3, 5]⟩ : Program ℚ).fault? = none := by decide +kernel
  have twice : (⟨[1], [[-1], [-1]], [-1, -1]⟩ : Program ℚ).fault? = none := by decide +kernel
  obtain ⟨one, _, solved₁, -⟩ := solve_extends_with_pivots plain (s := ⟨1, 0, 0⟩) (r := ⟨9, 0, 0⟩) rfl (by decide)
  obtain ⟨two, further, solved₂, again, -, same, -⟩ :=
    solve_extends_with_pivots plain (s := ⟨2, 0, 0⟩) (r := ⟨9, 0, 0⟩) rfl (by decide)
  obtain ⟨three, further', solved₃, again', -, -, cut⟩ :=
    solve_extends_with_pivots twice (s := ⟨1, 3 / 2, 0⟩) (r := ⟨9, 3 / 2, 0⟩) rfl (by decide)
  obtain ⟨-, rfl⟩ := solve_ok solved₁
  obtain ⟨-, rfl⟩ := solve_ok solved₂
  obtain ⟨-, rfl⟩ := solve_ok solved₃
  have limit : ((⟨[1], [[-1], [-1]], [-1, -1]⟩ : Program ℚ).run ⟨1, 3 / 2, 0⟩).solution.answer.outcome =
      .iterationLimit := by decide +kernel
  have none : ((⟨[1], [[-1], [-1]], [-1, -1]⟩ : Program ℚ).run ⟨1, 3 / 2, 0⟩).solution.pivots = 0 := by decide +kernel
  obtain spent | ⟨unbounded, same'⟩ := cut limit
  · rw [none] at spent
    cases spent
  · exact ⟨_, _, _, solved₁, by decide +kernel, solved₂, by decide +kernel,
      ⟨further, again, same (by decide +kernel)⟩, solved₃, limit, none, unbounded, further', again', same'⟩

end Program

end BranchBound.Linear
