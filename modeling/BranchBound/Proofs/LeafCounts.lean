import BranchBound.Proofs.Refinement

/-!
# Outcomes from counters

The outcome of a subtree is that of its leaves taken together: `ofLeaves` reads it off the numbers
of leaves with an optimum, with a ray and without a point, and combining two outcomes adds the
numbers up (`combine_ofLeaves`). So the counters of a search determine how it ended
(`outcome_eq_of_counters`), whatever the shape of its tree.
-/

namespace BranchBound

/-- The outcome of a tree with so many leaves of each kind; all other leaves ran out of a budget. -/
def Outcome.ofLeaves (optima rays empty : Nat) : Outcome :=
  if 0 < optima then .optimal
  else if 0 < rays then .unbounded
  else if 0 < empty then .infeasible
  else .iterationLimit

theorem Outcome.combine_ofLeaves (optima rays empty optima' rays' empty' : Nat) :
    (ofLeaves optima rays empty).combine (ofLeaves optima' rays' empty') =
      ofLeaves (optima + optima') (rays + rays') (empty + empty') := by
  have optimaPos : 0 < optima + optima' ↔ 0 < optima ∨ 0 < optima' := by omega
  have raysPos : 0 < rays + rays' ↔ 0 < rays ∨ 0 < rays' := by omega
  have emptyPos : 0 < empty + empty' ↔ 0 < empty ∨ 0 < empty' := by omega
  unfold ofLeaves
  simp only [optimaPos, raysPos, emptyPos]
  by_cases optimum : 0 < optima ∨ 0 < optima'
  · rw [if_pos optimum]
    rcases optimum with left | right
    · rw [if_pos left]
      simp [combine]
    · rw [if_pos right]
      simp [combine]
  · obtain ⟨left, right⟩ := not_or.mp optimum
    rw [if_neg optimum, if_neg left, if_neg right]
    by_cases ray : 0 < rays <;> by_cases ray' : 0 < rays' <;> by_cases none : 0 < empty <;>
      by_cases none' : 0 < empty' <;> simp [ray, ray', none, none', combine, before, code]

namespace Search

open Integer (BranchRow)
open Recursion (Trail Explored look)

section Leaves
variable {σ α : Type} [Scalar α] {p : Integer.Program α} {oracle : Oracle σ α} {settings : Integer.Settings α}
  {rows : List (BranchRow α)} {depth : Nat} {t t₁ t₂ t' : Trail σ α} {outcome : Outcome}

/-- The leaves of each kind that were counted between two trails. -/
structure Counted (t t' : Trail σ α) (optima rays empty : Nat) : Prop where
  optima : t'.counters.pruned + t'.counters.integral = t.counters.pruned + t.counters.integral + optima
  rays : t'.counters.unbounded = t.counters.unbounded + rays
  empty : t'.counters.infeasible = t.counters.infeasible + empty

omit [Scalar α] in
theorem Counted.trans {optima rays empty optima' rays' empty' : Nat} (first : Counted t t₁ optima rays empty)
    (second : Counted t₁ t₂ optima' rays' empty') :
    Counted t t₂ (optima + optima') (rays + rays') (empty + empty') where
  optima := by rw [second.optima, first.optima]; omega
  rays := by rw [second.rays, first.rays]; omega
  empty := by rw [second.empty, first.empty]; omega

theorem counted_offer (t : Trail σ α) (objective : α) (x : List α) : Counted t (t.offer objective x) 1 0 0 := by
  unfold Recursion.Trail.offer
  split <;> exact ⟨rfl, rfl, rfl⟩

theorem counted_of_closed (looked : look p oracle settings rows depth t = (.ok (.closed outcome), t')) :
    ∃ optima rays empty, Counted t t' optima rays empty ∧ outcome = .ofLeaves optima rays empty := by
  cases Recursion.looked_of_look looked with
  | spent _ => exact ⟨0, 0, 0, ⟨rfl, rfl, rfl⟩, rfl⟩
  | limited _ _ => exact ⟨0, 0, 0, ⟨rfl, rfl, rfl⟩, rfl⟩
  | infeasible _ _ => exact ⟨0, 0, 1, ⟨rfl, rfl, rfl⟩, rfl⟩
  | unbounded _ _ => exact ⟨0, 1, 0, ⟨rfl, rfl, rfl⟩, rfl⟩
  | pruned _ _ _ _ => exact ⟨1, 0, 0, ⟨Nat.add_right_comm _ _ _, rfl, rfl⟩, rfl⟩
  | @integral objective x _ _ _ _ _ =>
    have asked : Counted t (t.answered oracle ⟨p, rows⟩) 0 0 0 := ⟨rfl, rfl, rfl⟩
    exact ⟨1, 0, 0, asked.trans (counted_offer _ objective x), rfl⟩

theorem counted_of_split {var : Nat} {value : α}
    (looked : look p oracle settings rows depth t = (.ok (.split var value), t')) : Counted t t' 0 0 0 := by
  cases Recursion.looked_of_look looked with
  | split _ _ _ _ _ => exact ⟨rfl, rfl, rfl⟩

/-- The outcome of a subtree is that of the leaves counted in it. -/
theorem counted_of_explored (explored : Explored p oracle settings rows depth t (.ok outcome) t') :
    ∃ optima rays empty, Counted t t' optima rays empty ∧ outcome = .ofLeaves optima rays empty := by
  induction explored using Explored.ok_induction with
  | closed looked => exact counted_of_closed looked
  | combined looked _ _ ceil floor =>
    obtain ⟨optima, rays, empty, ceilCounted, rfl⟩ := ceil
    obtain ⟨optima', rays', empty', floorCounted, rfl⟩ := floor
    have counted := (counted_of_split looked).trans (ceilCounted.trans floorCounted)
    simp only [Nat.zero_add] at counted
    exact ⟨_, _, _, counted, Outcome.combine_ofLeaves ..⟩

end Leaves

/-- A search is optimal if it pruned a node or found an integral one; else unbounded if it met a ray;
else infeasible if it met a node without points and explored every node; else it ran out of a budget. -/
theorem outcome_eq_of_counters {σ α : Type} [Scalar α] {c : Controller α} {p : Integer.Program α}
    {oracle : Oracle σ α} {state : σ} {solution : Solution α}
    (solved : (c.solve p oracle state).result = .ok solution) :
    solution.outcome =
      if 0 < solution.counters.pruned + solution.counters.integral then .optimal
      else if 0 < solution.counters.unbounded then .unbounded
      else if 0 < solution.counters.infeasible ∧ solution.counters.nodeLimitReached = false then .infeasible
      else .iterationLimit := by
  obtain ⟨outcome, t, explored, rfl⟩ := explored_of_solve solved
  obtain ⟨optima, rays, empty, counted, rfl⟩ := counted_of_explored explored
  have start : (Recursion.start p state).counters.pruned + (Recursion.start p state).counters.integral = 0 ∧
      (Recursion.start p state).counters.unbounded = 0 ∧ (Recursion.start p state).counters.infeasible = 0 :=
    ⟨rfl, rfl, rfl⟩
  rw [counted.optima, counted.rays, counted.empty, start.1, start.2.1, start.2.2]
  simp only [Nat.zero_add, Recursion.finalOutcome, Outcome.ofLeaves]
  by_cases optimum : 0 < optima
  · simp [optimum]
  · by_cases ray : 0 < rays
    · simp [optimum, ray]
    · by_cases none : 0 < empty <;> cases t.counters.nodeLimitReached <;> simp [optimum, ray, none]

/-- Two relaxations for the largest `x` with `2 x ≤ 3`: the ceil side of the root has no point and the
floor side is left to the node budget. -/
theorem outcome_eq_of_counters_two_relaxations :
    ∃ solution : Solution ℚ,
      ((Controller.ofSettings ⟨2, 0, ⟨10, 0, 0⟩, false, 0⟩).solve ⟨[[2]], [3], [-1]⟩
        (Oracle.simplex ⟨10, 0, 0⟩) {}).result = .ok solution ∧
      solution.counters.infeasible = 1 ∧ solution.counters.nodeLimitReached = true ∧
      solution.outcome = .iterationLimit := by
  have solved : ((Controller.ofSettings ⟨2, 0, ⟨10, 0, 0⟩, false, 0⟩).solve ⟨[[2]], [3], [-1]⟩
      (Oracle.simplex (⟨10, 0, 0⟩ : Linear.Settings ℚ)) {}).result =
      .ok ⟨.iterationLimit, ⟨none, [0]⟩, ⟨2, 0, 1, 0, 1, 0, 1, 0, 1, 3, true⟩⟩ := by decide +kernel
  exact ⟨_, solved, rfl, rfl, outcome_eq_of_counters solved⟩

end Search

end BranchBound
