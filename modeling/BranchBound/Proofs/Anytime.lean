import BranchBound.Proofs.RunCourse

/-!
# Phase two at any time

With exact scalars and tolerances zero phase two is never worse off for more pivots: wherever it is cut
short its point is one of the program, and a run with a larger budget that comes to a point comes to one
that is at least as good (`solve_improves_with_pivots`). Both runs start phase two from the same tableau
(`handover_raise`), and from there no pivot raises the objective (`objective_runPhase_le`).
-/

namespace BranchBound.Linear

namespace Tableau

theorem objective_runPhase_le {start t : Tableau ℚ} {columnCost : Nat → ℚ} (stage : Stage start columnCost t)
    (limit budget pivots : Nat) : (runPhase limit 0 budget pivots t).tableau.objective ≤ t.objective := by
  refine (runPhase_keeps (P := fun u => u.objective ≤ t.objective) ?_ budget pivots stage (le_refl _)).2
  intro u row col r held below move
  exact (move.objective_le held).trans below

end Tableau

namespace Program

open Tableau

section Raise
variable {α : Type} [Scalar α] {p : Program α} {s : Settings α} {budget : Nat}

theorem phaseOneEnd_raise (more : s.maxPivots ≤ budget) (ended : (p.phaseOneEnd s).finish ≠ .outOfPivots) :
    p.phaseOneEnd { s with maxPivots := budget } = p.phaseOneEnd s :=
  runPhase_raise _ _ more _ _ ended

theorem handover_raise (more : s.maxPivots ≤ budget) (reaches : p.reachesPhaseTwo s = true) :
    p.reachesPhaseTwo { s with maxPivots := budget } = true ∧
      p.handover { s with maxPivots := budget } = p.handover s := by
  by_cases artificials : (build p).hasArtificials = true
  · have passed := reachesPhaseTwo_iff.mp reaches artificials
    have same := phaseOneEnd_raise (p := p) more (by simp [passed.1])
    constructor
    · apply reachesPhaseTwo_iff.mpr
      intro _
      rw [same]
      exact passed
    · unfold handover
      rw [same]
  · simp [reachesPhaseTwo, handover, artificials]

end Raise

section Exact
variable {p : Program ℚ} {s : Settings ℚ} {budget : Nat}

/-- Phase two starts from a point of the program, with artificial variables in redundant rows only. -/
theorem handover_ready (valid : p.fault? = none) (exactPivots : s.pivotTol = 0) (exactFeasibility : s.feasTol = 0)
    (reaches : p.reachesPhaseTwo s = true) :
    Ready (build p) (p.handover s).tableau ∧ (p.handover s).tableau.Settled := by
  unfold handover
  split
  · rename_i artificials
    have stage : Stage (build p) (artificialCost (build p)) (p.phaseOneEnd s).tableau := by
      unfold phaseOneEnd
      rw [exactPivots]
      exact phaseOne_keeps valid s.maxPivots
    have accepted := (reachesPhaseTwo_iff.mp reaches artificials).2
    rw [Rational.scalar_lt, decide_eq_false_iff_not, not_lt, exactFeasibility] at accepted
    have bounded := accepted.trans_eq (zero_mul p.scale)
    rw [exactPivots]
    exact driveOut_settled stage.toReady p.columns_le.2 (artificial_zero_of_objective stage bounded)
  · rename_i noArtificials
    exact ⟨build_ready valid, build_settled valid (by simpa using noArtificials)⟩

theorem phaseTwoEnd_keeps (valid : p.fault? = none) (exactPivots : s.pivotTol = 0) (exactFeasibility : s.feasTol = 0)
    (reaches : p.reachesPhaseTwo s = true) :
    Stage (build p) p.structuralCost (p.phaseTwoEnd s).tableau ∧ (p.phaseTwoEnd s).tableau.Settled := by
  obtain ⟨ready, settled⟩ := handover_ready valid exactPivots exactFeasibility reaches
  unfold phaseTwoEnd
  rw [exactPivots, ready.artificial]
  exact phaseTwo_keeps ready settled _ _

theorem objective_phaseTwoEnd_le (valid : p.fault? = none) (exactPivots : s.pivotTol = 0)
    (exactFeasibility : s.feasTol = 0) (more : s.maxPivots ≤ budget) (reaches : p.reachesPhaseTwo s = true) :
    (p.phaseTwoEnd { s with maxPivots := budget }).tableau.objective ≤ (p.phaseTwoEnd s).tableau.objective := by
  have stage := (phaseTwoEnd_keeps valid exactPivots exactFeasibility reaches).1
  -- the pivots that the larger budget adds go on from where the smaller one stops
  have resumed : p.phaseTwoEnd { s with maxPivots := budget } =
      (p.phaseTwoEnd s).resume (p.handover s).tableau.artificial 0
        ((budget - (p.handover s).pivots) - (s.maxPivots - (p.handover s).pivots)) := by
    have split := runPhase_add (p.handover s).tableau.artificial (0 : ℚ) (s.maxPivots - (p.handover s).pivots)
      ((budget - (p.handover s).pivots) - (s.maxPivots - (p.handover s).pivots)) (p.handover s).pivots
      ((p.handover s).tableau.price p.structuralCost)
    rw [Nat.add_sub_cancel' (Nat.sub_le_sub_right more _)] at split
    unfold phaseTwoEnd
    rw [(handover_raise more reaches).2, exactPivots]
    exact split
  rw [resumed]
  by_cases out : (p.phaseTwoEnd s).finish = .outOfPivots
  · simp only [Phase.resume, out]
    exact objective_runPhase_le stage _ _ _
  · rw [Phase.resume_of_ne out]

/-- A run that comes to phase two has the point where phase two ends, unless it ends at a ray. -/
theorem basicSolution_of_run (reaches : p.reachesPhaseTwo s = true) {objective : ℚ} {x : List ℚ}
    (answer : (p.run s).solution.answer = .optimal objective x ∨
      (p.run s).solution.answer = .iterationLimit objective x) :
    (objective, x) = p.basicSolution (p.phaseTwoEnd s).tableau := by
  have course := run_course p s
  generalize p.run s = run at course answer
  cases course with
  | cut _ missed _ => simp [reaches] at missed
  | refuted _ missed _ => simp [reaches] at missed
  | optimal _ _ =>
    rcases answer with same | same <;> cases same
    rfl
  | outOfPivots _ _ =>
    rcases answer with same | same <;> cases same
    rfl
  | unbounded _ _ => rcases answer with same | same <;> cases same

/-- A solve with exact scalars and tolerances zero that is cut short in phase two has a point of the program. With
more pivots allowed the solve ends, if with a point, then with one of no higher value. -/
theorem solve_improves_with_pivots {r : Settings ℚ} (valid : p.fault? = none) (exactPivots : s.pivotTol = 0)
    (exactFeasibility : s.feasTol = 0) (settings : r = { s with maxPivots := r.maxPivots })
    (more : s.maxPivots ≤ r.maxPivots) :
    ∃ ended ended', p.solve s = .ok ended ∧ p.solve r = .ok ended' ∧
      ∀ objective x, ended.solution.answer = .iterationLimit objective x → p.reachesPhaseTwo s = true →
        x.length = p.objective.length ∧ (∀ v ∈ x, 0 ≤ v) ∧
        (∀ pair ∈ p.rows.zip p.rhs, Scalar.dot pair.1 x ≤ pair.2) ∧ objective = Scalar.dot p.objective x ∧
        ∀ objective' x', ended'.solution.answer = .optimal objective' x' ∨
          ended'.solution.answer = .iterationLimit objective' x' → objective' ≤ objective := by
  refine ⟨p.run s, p.run r, by rw [solve, valid], by rw [solve, valid], ?_⟩
  intro objective x cut reaches
  obtain ⟨stage, settled⟩ := phaseTwoEnd_keeps valid exactPivots exactFeasibility reaches
  obtain ⟨rfl, rfl⟩ := Prod.mk.inj (basicSolution_of_run reaches (.inr cut))
  have feasible := feasible_primal valid stage.toReady settled
  refine ⟨feasible.length, feasible.nonneg, ?_, rfl, ?_⟩
  · intro pair member
    have below := feasible.rows pair member
    rw [form_rat] at below
    exact_mod_cast below
  · intro objective' x' answer
    have reaches' := (handover_raise more reaches).1
    have lower := objective_phaseTwoEnd_le valid exactPivots exactFeasibility more reaches
    rw [← settings] at reaches' lower
    have exactPivots' : r.pivotTol = 0 := by rw [settings]; exact exactPivots
    have exactFeasibility' : r.feasTol = 0 := by rw [settings]; exact exactFeasibility
    have stage' := (phaseTwoEnd_keeps valid exactPivots' exactFeasibility' reaches').1
    obtain ⟨rfl, rfl⟩ := Prod.mk.inj (basicSolution_of_run reaches' answer)
    rw [dot_primal stage, dot_primal stage']
    exact lower

end Exact

/-- The least `-x - y` under `x ≤ 1`, `1 ≤ x` and `y ≤ 5`. One pivot is all that phase one takes, with an artificial
variable left to be driven out; with three the optimum is found. -/
theorem solve_improves_with_pivots_one_three : ∃ one three : Run ℚ,
    (⟨[-1, -1], [[1, 0], [-1, 0], [0, 1]], [1, -1, 5]⟩ : Program ℚ).solve ⟨1, 0, 0⟩ = .ok one ∧
      one.solution = ⟨.iterationLimit (-1) [1, 0], 1⟩ ∧ one.driven = 1 ∧
      (⟨[-1, -1], [[1, 0], [-1, 0], [0, 1]], [1, -1, 5]⟩ : Program ℚ).reachesPhaseTwo ⟨1, 0, 0⟩ = true ∧
      (∀ v ∈ [(1 : ℚ), 0], 0 ≤ v) ∧
      (⟨[-1, -1], [[1, 0], [-1, 0], [0, 1]], [1, -1, 5]⟩ : Program ℚ).solve ⟨3, 0, 0⟩ = .ok three ∧
      three.solution = ⟨.optimal (-6) [1, 5], 3⟩ ∧ (-6 : ℚ) ≤ -1 := by
  have valid : (⟨[-1, -1], [[1, 0], [-1, 0], [0, 1]], [1, -1, 5]⟩ : Program ℚ).fault? = none := by decide +kernel
  obtain ⟨one, three, solved₁, solved₃, improves⟩ :=
    solve_improves_with_pivots valid (s := ⟨1, 0, 0⟩) (r := ⟨3, 0, 0⟩) rfl rfl rfl (by decide)
  obtain ⟨-, rfl⟩ := solve_ok solved₁
  obtain ⟨-, rfl⟩ := solve_ok solved₃
  have cut : ((⟨[-1, -1], [[1, 0], [-1, 0], [0, 1]], [1, -1, 5]⟩ : Program ℚ).run ⟨1, 0, 0⟩).solution =
      ⟨.iterationLimit (-1) [1, 0], 1⟩ := by decide +kernel
  have found : ((⟨[-1, -1], [[1, 0], [-1, 0], [0, 1]], [1, -1, 5]⟩ : Program ℚ).run ⟨3, 0, 0⟩).solution =
      ⟨.optimal (-6) [1, 5], 3⟩ := by decide +kernel
  have reaches : (⟨[-1, -1], [[1, 0], [-1, 0], [0, 1]], [1, -1, 5]⟩ : Program ℚ).reachesPhaseTwo ⟨1, 0, 0⟩ = true := by
    decide +kernel
  obtain ⟨-, nonneg, -, -, better⟩ := improves _ _ (congrArg Solution.answer cut) reaches
  exact ⟨_, _, solved₁, cut, by decide +kernel, reaches, nonneg, solved₃, found,
    better _ _ (.inl (congrArg Solution.answer found))⟩

end Program

end BranchBound.Linear
