import BranchBound.Proofs.Refinement
import BranchBound.Proofs.SimplexOracle

/-!
# Searches with a truthful oracle

With exact scalars and an oracle whose answers are true, a search that leaves no node open finds the
best integer point. After a subtree is explored, the incumbent is at least as good as every integer
point of its system (`covers_of_explored`): a split loses none of them, and a node is closed only
if the incumbent is as good as its bound.
-/

namespace BranchBound

open Integer (BranchRow System)

namespace Integer.System

/-- Every integer point of a system is on one of the two sides of a split. -/
theorem feasible_split {p : Program ℚ} {rows : List (BranchRow ℚ)} {y : List ℤ}
    (feasible : System.Feasible ⟨p, rows⟩ (rational y)) {var : Nat} (inside : var < p.vars) (value : ℚ) :
    System.Feasible ⟨p, rows ++ [.split .ceil var value]⟩ (rational y) ∨
      System.Feasible ⟨p, rows ++ [.split .floor var value]⟩ (rational y) := by
  have within : var < y.length := by
    have length := feasible.1.length
    rw [rational, List.length_map] at length
    exact length ▸ inside
  have read : (rational y)[var]? = some ((y[var] : ℤ) : ℚ) := by
    simp [rational, List.getElem?_eq_getElem within]
  rw [feasible_append, feasible_append, BranchRow.admits_ceil, BranchRow.admits_floor]
  by_cases low : y[var] ≤ ⌊value⌋
  · exact Or.inr ⟨feasible, _, read, by exact_mod_cast low⟩
  · have high : ⌈value⌉ ≤ y[var] := by
      have := Int.ceil_le_floor_add_one value
      omega
    exact Or.inl ⟨feasible, _, read, by exact_mod_cast high⟩

end Integer.System

namespace Search

open Recursion (Trail Explored look Looked)

/-! ### Incumbents -/

def Incumbent.AtMost (i : Incumbent ℚ) (bound : ℚ) : Prop :=
  ∃ best, i.objective = some best ∧ best ≤ bound

namespace Incumbent
variable {i : Incumbent ℚ} {bound : ℚ}

theorem AtMost.mono {other : ℚ} (atMost : i.AtMost bound) (le : bound ≤ other) : i.AtMost other := by
  obtain ⟨best, known, below⟩ := atMost
  exact ⟨best, known, below.trans le⟩

theorem dominates_iff : i.dominates bound = true ↔ i.AtMost bound := by
  unfold dominates AtMost
  cases i.objective with
  | none => simp
  | some best => simp

theorem improvedBy_iff : i.improvedBy bound = true ↔ ¬i.AtMost bound := by
  unfold improvedBy AtMost
  cases i.objective with
  | none => simp
  | some best => simp

theorem AtMost.le {best : ℚ} (atMost : i.AtMost bound) (known : i.objective = some best) : best ≤ bound := by
  obtain ⟨_, found, below⟩ := atMost
  obtain rfl := Option.some.inj (known.symm.trans found)
  exact below

end Incumbent

/-- What is known of an incumbent: a point of the program that is whole within `tol`, with its value. -/
def Incumbent.Holds (p : Integer.Program ℚ) (tol : ℚ) (i : Incumbent ℚ) : Prop :=
  ∀ best, i.objective = some best → p.Feasible i.point ∧ best = p.value i.point ∧
    ∀ v ∈ i.point, ∃ k : ℤ, |v - k| ≤ tol

/-! ### Trails -/

section Trails
variable {σ : Type} {p : Integer.Program ℚ} {oracle : Oracle σ ℚ} {settings : Integer.Settings ℚ}
  {rows : List (BranchRow ℚ)} {depth : Nat} {t t' : Trail σ ℚ} {objective : ℚ} {x : List ℚ}

theorem offer_of_atMost (known : t.incumbent.AtMost objective) :
    t.offer objective x = t.count fun k => { k with integral := k.integral + 1 } := by
  unfold Recursion.Trail.offer
  rw [if_neg (by rw [Incumbent.improvedBy_iff]; exact not_not.mpr known)]

theorem offer_of_not_atMost (better : ¬t.incumbent.AtMost objective) :
    t.offer objective x = { t with
      incumbent := ⟨some objective, x⟩
      counters := { t.counters with
        integral := t.counters.integral + 1, updates := t.counters.updates + 1 } } := by
  unfold Recursion.Trail.offer
  rw [if_pos (Incumbent.improvedBy_iff.mpr better)]

theorem atMost_offer (t : Trail σ ℚ) (objective : ℚ) (x : List ℚ) :
    (t.offer objective x).incumbent.AtMost objective := by
  by_cases known : t.incumbent.AtMost objective
  · rw [offer_of_atMost known]
    exact known
  · rw [offer_of_not_atMost known]
    exact ⟨objective, rfl, le_refl objective⟩

/-- What has been reached stays reached, and what was counted stays counted. -/
structure Advances (t t' : Trail σ ℚ) : Prop where
  atMost : ∀ bound, t.incumbent.AtMost bound → t'.incumbent.AtMost bound
  limited : t.counters.limited ≤ t'.counters.limited
  unbounded : t.counters.unbounded ≤ t'.counters.unbounded

theorem Advances.trans {t₁ t₂ t₃ : Trail σ ℚ} (first : Advances t₁ t₂) (second : Advances t₂ t₃) :
    Advances t₁ t₃ where
  atMost bound known := second.atMost bound (first.atMost bound known)
  limited := first.limited.trans second.limited
  unbounded := first.unbounded.trans second.unbounded

theorem advances_offer (t : Trail σ ℚ) (objective : ℚ) (x : List ℚ) : Advances t (t.offer objective x) := by
  by_cases known : t.incumbent.AtMost objective
  · rw [offer_of_atMost known]
    exact ⟨fun _ held => held, le_refl _, le_refl _⟩
  · rw [offer_of_not_atMost known]
    refine ⟨?_, le_refl _, le_refl _⟩
    rintro bound ⟨best, reached, below⟩
    have less : objective < best := by
      by_contra notLess
      exact known ⟨best, reached, not_lt.mp notLess⟩
    exact ⟨objective, rfl, less.le.trans below⟩

theorem advances_look {verdict : Except (Error ℚ) (Recursion.Verdict ℚ)}
    (looked : look p oracle settings rows depth t = (verdict, t')) : Advances t t' := by
  cases Recursion.looked_of_look looked with
  | integral _ _ _ _ _ =>
    have asked : Advances t (t.answered oracle ⟨p, rows⟩) := ⟨fun _ held => held, le_refl _, le_refl _⟩
    exact asked.trans (advances_offer _ _ _)
  | spent _ => exact ⟨fun _ held => held, Nat.le_succ _, le_refl _⟩
  | limited _ _ => exact ⟨fun _ held => held, Nat.le_succ _, le_refl _⟩
  | unbounded _ _ => exact ⟨fun _ held => held, le_refl _, Nat.le_succ _⟩
  | _ => exact ⟨fun _ held => held, le_refl _, le_refl _⟩

theorem advances_of_explored {result : Except (Error ℚ) Outcome}
    (explored : Explored p oracle settings rows depth t result t') : Advances t t' :=
  explored.keeps (fun _ _ _ first second => first.trans second) fun _ _ _ _ _ looked => advances_look looked

/-- What holds of a trail from the start on. -/
structure Consistent (p : Integer.Program ℚ) (tol : ℚ) (t : Trail σ ℚ) : Prop where
  holds : t.incumbent.Holds p tol
  updates : t.counters.updates = 0 ↔ t.incumbent.objective = none
  capped : t.counters.nodeLimitReached = true → 0 < t.counters.limited

theorem consistent_start (p : Integer.Program ℚ) (tol : ℚ) (state : σ) :
    Consistent p tol (Recursion.start p state) where
  holds _ known := nomatch known
  updates := ⟨fun _ => rfl, fun _ => rfl⟩
  capped impossible := nomatch impossible

theorem consistent_offer {tol : ℚ} (consistent : Consistent p tol t) (feasible : p.Feasible x)
    (value : objective = p.value x) (whole : ∀ v ∈ x, ∃ k : ℤ, |v - k| ≤ tol) :
    Consistent p tol (t.offer objective x) := by
  by_cases known : t.incumbent.AtMost objective
  · rw [offer_of_atMost known]
    exact ⟨consistent.holds, consistent.updates, consistent.capped⟩
  · rw [offer_of_not_atMost known]
    refine ⟨?_, ?_, consistent.capped⟩
    · intro best same
      obtain rfl := Option.some.inj same
      exact ⟨feasible, value, whole⟩
    · simp

theorem consistent_look {verdict : Except (Error ℚ) (Recursion.Verdict ℚ)} (truthful : oracle.Truthful)
    (looked : look p oracle settings rows depth t = (verdict, t')) (consistent : Consistent p settings.intTol t) :
    Consistent p settings.intTol t' := by
  obtain ⟨holds, updates, capped⟩ := consistent
  cases Recursion.looked_of_look looked with
  | integral _ replied _ _ whole =>
    obtain ⟨⟨feasible, -⟩, value, -⟩ := truthful _ _ _ replied
    have asked : Consistent p settings.intTol (t.answered oracle ⟨p, rows⟩) := ⟨holds, updates, capped⟩
    exact consistent_offer asked feasible value fun v member =>
      near_of_isWhole (fractional?_eq_none whole v member)
  | spent _ => exact ⟨holds, updates, fun _ => Nat.succ_pos _⟩
  | limited _ _ => exact ⟨holds, updates, fun _ => Nat.succ_pos _⟩
  | _ => exact ⟨holds, updates, capped⟩

theorem consistent_of_explored {result : Except (Error ℚ) Outcome} (truthful : oracle.Truthful)
    (explored : Explored p oracle settings rows depth t result t') (consistent : Consistent p settings.intTol t) :
    Consistent p settings.intTol t' :=
  explored.invariant (fun _ _ _ _ _ looked held => consistent_look truthful looked held) consistent

/-! ### Integer points -/

/-- The incumbent is as good as every integer point of a system. -/
def Covers (i : Incumbent ℚ) (system : System ℚ) : Prop :=
  ∀ y : List ℤ, system.Feasible (rational y) → i.AtMost (system.program.value (rational y))

theorem covers_of_closed {outcome : Outcome} (truthful : oracle.Truthful)
    (looked : look p oracle settings rows depth t = (.ok (.closed outcome), t'))
    (limited : t'.counters.limited = 0) (unbounded : t'.counters.unbounded = 0) :
    Covers t'.incumbent ⟨p, rows⟩ := by
  intro y feasible
  cases Recursion.looked_of_look looked with
  | spent _ => exact absurd limited (Nat.succ_ne_zero _)
  | limited _ _ => exact absurd limited (Nat.succ_ne_zero _)
  | unbounded _ _ => exact absurd unbounded (Nat.succ_ne_zero _)
  | infeasible _ replied =>
    exact absurd (Integer.System.feasible_cast.mpr feasible) (truthful _ _ _ replied _)
  | pruned _ replied _ dominated =>
    have reached : t.incumbent.AtMost _ := Incumbent.dominates_iff.mp dominated
    exact reached.mono (Integer.System.le_of_allows (truthful _ _ _ replied) feasible)
  | integral _ replied _ _ _ =>
    exact (atMost_offer _ _ _).mono (Integer.System.le_of_allows (truthful _ _ _ replied) feasible)

/-- A split loses no integer point of its node. -/
theorem feasible_of_split {var : Nat} {value : ℚ} {y : List ℤ}
    (looked : look p oracle settings rows depth t = (.ok (.split var value), t'))
    (feasible : System.Feasible ⟨p, rows⟩ (rational y)) :
    System.Feasible ⟨p, rows ++ [.split .ceil var value]⟩ (rational y) ∨
      System.Feasible ⟨p, rows ++ [.split .floor var value]⟩ (rational y) :=
  Integer.System.feasible_split feasible (Recursion.inside_of_split looked) value

theorem covers_of_split {var : Nat} {value : ℚ} {t₁ t₂ t₃ : Trail σ ℚ}
    (looked : look p oracle settings rows depth t = (.ok (.split var value), t₁))
    (ceilSide : Covers t₂.incumbent ⟨p, rows ++ [.split .ceil var value]⟩) (later : Advances t₂ t₃)
    (floorSide : Covers t₃.incumbent ⟨p, rows ++ [.split .floor var value]⟩) :
    Covers t₃.incumbent ⟨p, rows⟩ := by
  intro y feasible
  rcases feasible_of_split looked feasible with high | low
  · exact later.atMost _ (ceilSide y high)
  · exact floorSide y low

/-- A subtree without open nodes covers the integer points of its system. -/
theorem covers_of_explored {outcome : Outcome} (truthful : oracle.Truthful)
    (explored : Explored p oracle settings rows depth t (.ok outcome) t')
    (limited : t'.counters.limited = 0) (unbounded : t'.counters.unbounded = 0) :
    Covers t'.incumbent ⟨p, rows⟩ := by
  induction explored using Explored.ok_induction with
  | closed looked => exact covers_of_closed truthful looked limited unbounded
  | combined looked _ floorSide ceil floor =>
    have later := advances_of_explored floorSide
    have ceilLimited := later.limited
    have ceilUnbounded := later.unbounded
    exact covers_of_split looked (ceil (by omega) (by omega)) later (floor limited unbounded)

theorem infeasible_of_explored {outcome : Outcome}
    (explored : Explored p oracle settings rows depth t (.ok outcome) t')
    (limited : t'.counters.limited = 0) (unbounded : t'.counters.unbounded = 0)
    (nothing : ∀ bound, ¬t'.incumbent.AtMost bound) : outcome = .infeasible := by
  induction explored using Explored.ok_induction with
  | closed looked =>
    cases Recursion.looked_of_look looked with
    | spent _ => exact absurd limited (Nat.succ_ne_zero _)
    | limited _ _ => exact absurd limited (Nat.succ_ne_zero _)
    | unbounded _ _ => exact absurd unbounded (Nat.succ_ne_zero _)
    | infeasible _ _ => rfl
    | pruned _ _ _ dominated => exact absurd (Incumbent.dominates_iff.mp dominated) (nothing _)
    | integral _ _ _ _ _ => exact absurd (atMost_offer _ _ _) (nothing _)
  | combined looked _ floorSide ceil floor =>
    have later := advances_of_explored floorSide
    have ceilLimited := later.limited
    have ceilUnbounded := later.unbounded
    have ceilInfeasible := ceil (by omega) (by omega) (fun bound reached => nothing bound (later.atMost bound reached))
    have floorInfeasible := floor limited unbounded nothing
    rw [ceilInfeasible, floorInfeasible]
    rfl

end Trails

/-! ### Solves -/

theorem Incumbent.not_atMost {i : Incumbent ℚ} (nothing : i.objective = none) (bound : ℚ) : ¬i.AtMost bound := by
  rintro ⟨best, known, -⟩
  rw [nothing] at known
  cases known

theorem exists_rational {x : List ℚ} (whole : ∀ v ∈ x, ∃ k : ℤ, |v - k| ≤ 0) : ∃ z : List ℤ, x = rational z := by
  refine ⟨x.map fun v => ⌊v⌋, ?_⟩
  unfold rational
  rw [List.map_map]
  refine (List.map_id x).symm.trans (List.map_congr_left ?_)
  intro v member
  obtain ⟨k, near⟩ := whole v member
  have same : v = k := sub_eq_zero.mp (abs_nonpos_iff.mp near)
  simp [same]

/-- Without a tolerance a known incumbent is an integer point. -/
theorem Incumbent.Holds.exists_integer {i : Incumbent ℚ} {p : Integer.Program ℚ} {tol best : ℚ}
    (holds : i.Holds p tol) (exact : tol = 0) (known : i.objective = some best) :
    ∃ z : List ℤ, i.point = rational z ∧ p.Feasible (rational z) ∧ best = p.value (rational z) := by
  obtain ⟨feasible, value, whole⟩ := holds best known
  rw [exact] at whole
  obtain ⟨z, same⟩ := exists_rational whole
  rw [same] at feasible value
  exact ⟨z, same, feasible, value⟩

theorem Covers.atMost {i : Incumbent ℚ} {p : Integer.Program ℚ} (covers : Covers i ⟨p, []⟩) {y : List ℤ}
    (feasible : p.Feasible (rational y)) : i.AtMost (p.value (rational y)) :=
  covers y ⟨feasible, by simp⟩

/-- The search with a truthful oracle: a solve that left no node to a budget or to a lack of bound
gives the best integer point, or there is none. -/
theorem solve_of_truthful {σ : Type} {c : Controller ℚ} {p : Integer.Program ℚ} {oracle : Oracle σ ℚ} {state : σ}
    {solution : Solution ℚ} (truthful : oracle.Truthful) (solved : (c.solve p oracle state).result = .ok solution)
    (limited : solution.counters.limited = 0) (unbounded : solution.counters.unbounded = 0) :
    (∀ y : List ℤ, p.Feasible (rational y) →
        ∃ best, solution.incumbent.objective = some best ∧ best ≤ p.value (rational y)) ∧
      (0 < solution.counters.updates →
        p.Feasible solution.incumbent.point ∧
          solution.incumbent.objective = some (p.value solution.incumbent.point) ∧
          (∀ v ∈ solution.incumbent.point, ∃ k : ℤ, |v - k| ≤ c.settings.intTol) ∧
          (c.settings.intTol = 0 → ∃ z : List ℤ, solution.incumbent.point = rational z ∧
            ∀ y : List ℤ, p.Feasible (rational y) → p.value (rational z) ≤ p.value (rational y))) ∧
      (solution.counters.updates = 0 →
        (∀ y : List ℤ, ¬p.Feasible (rational y)) ∧ solution.outcome = .infeasible) := by
  obtain ⟨outcome, t, explored, rfl⟩ := explored_of_solve solved
  dsimp only at limited unbounded ⊢
  have consistent := consistent_of_explored truthful explored (consistent_start p c.settings.intTol state)
  have covers := covers_of_explored truthful explored limited unbounded
  refine ⟨fun y feasible => covers.atMost feasible, ?_, ?_⟩
  · intro updated
    have known : t.incumbent.objective ≠ none := fun nothing => by
      have := consistent.updates.mpr nothing
      omega
    obtain ⟨best, reached⟩ := Option.ne_none_iff_exists'.mp known
    obtain ⟨feasible, rfl, whole⟩ := consistent.holds best reached
    refine ⟨feasible, reached, whole, ?_⟩
    intro exact
    obtain ⟨z, same, -, value⟩ := consistent.holds.exists_integer exact reached
    refine ⟨z, same, ?_⟩
    intro y other
    rw [← value]
    exact (covers.atMost other).le reached
  · intro none
    have nothing := Incumbent.not_atMost (consistent.updates.mp none)
    refine ⟨fun y feasible => nothing _ (covers.atMost feasible), ?_⟩
    have infeasible := infeasible_of_explored explored limited unbounded nothing
    have uncapped : t.counters.nodeLimitReached ≠ true := fun capped => by
      have := consistent.capped capped
      omega
    unfold Recursion.finalOutcome
    rw [if_neg (fun both => uncapped both.1)]
    exact infeasible

/-- The largest `x` with `2 x ≤ 3`, by the simplex oracle. -/
theorem solve_of_truthful_one_split :
    ∃ solution : Solution ℚ,
      ((Controller.ofSettings ⟨5, 0, ⟨10, 0, 0⟩, false, 0⟩).solve ⟨[[2]], [3], [-1]⟩
        (Oracle.simplex ⟨10, 0, 0⟩) {}).result = .ok solution ∧
      solution.counters.updates = 1 ∧ solution.incumbent = ⟨some (-1), [1]⟩ ∧
      ∀ y : List ℤ, Integer.Program.Feasible ⟨[[2]], [3], [-1]⟩ (rational y) →
        -1 ≤ Integer.Program.value ⟨[[2]], [3], [-1]⟩ (rational y) := by
  have truthful : (Oracle.simplex (⟨10, 0, 0⟩ : Linear.Settings ℚ)).Truthful := Oracle.simplex_truthful rfl rfl
  have solved : ((Controller.ofSettings ⟨5, 0, ⟨10, 0, 0⟩, false, 0⟩).solve ⟨[[2]], [3], [-1]⟩
      (Oracle.simplex (⟨10, 0, 0⟩ : Linear.Settings ℚ)) {}).result =
      .ok ⟨.optimal, ⟨some (-1), [1]⟩, ⟨3, 0, 1, 1, 1, 0, 0, 1, 1, 3, false⟩⟩ := by decide +kernel
  refine ⟨_, solved, rfl, rfl, ?_⟩
  intro y feasible
  obtain ⟨best, same, below⟩ := (solve_of_truthful truthful solved rfl rfl).1 y feasible
  obtain rfl := Option.some.inj same
  exact below

end Search

end BranchBound
