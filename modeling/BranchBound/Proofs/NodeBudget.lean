import BranchBound.Proofs.Incumbents
import BranchBound.Proofs.LeafCounts

/-!
# Searches with different node budgets

Two searches that differ in their node budgets look at the same nodes until the smaller budget is
spent (`look_raise`). From then on the one is `Behind` the other: it asks and finds nothing more and closes what is
left of its tree, while the other goes on. So a larger budget extends a search (`solve_extends_with_budget`).
-/

namespace BranchBound.Search

open Integer (BranchRow System)
open Recursion (Trail Explored look)

variable {σ α : Type} [Scalar α]

section Trails
variable {p : Integer.Program α} {oracle : Oracle σ α} {settings settings' : Integer.Settings α}
  {rows : List (BranchRow α)} {depth : Nat}

theorem look_raise {t : Trail σ α} (tol : settings'.intTol = settings.intTol)
    (more : settings.maxNodes ≤ settings'.maxNodes) (left : t.counters.explored < settings.maxNodes) :
    look p oracle settings' rows depth t = look p oracle settings rows depth t := by
  unfold look
  rw [if_neg (by omega), if_neg (by omega), tol]

/-- Once the budget is spent, a whole subtree is one node that is left to it. -/
theorem explored_of_spent {t t' : Trail σ α} {outcome : Outcome} (spent : settings.maxNodes ≤ t.counters.explored)
    (explored : Explored p oracle settings rows depth t (.ok outcome) t') :
    t' = t.count fun k => { k with nodeLimitReached := true, limited := k.limited + 1 } :=
  (explored.of_closed (if_pos spent)).2

/-- What trail `t` has found and asked, `t'` has too. -/
structure Surpassed (t t' : Trail (σ × List (Oracle.Call α)) α) : Prop where
  calls : t.oracle.2 <:+ t'.oracle.2
  valued : t'.incumbent.Valued
  noWorse : t'.incumbent.NoWorse t.incumbent
  optima : t.counters.pruned + t.counters.integral ≤ t'.counters.pruned + t'.counters.integral

/-- The budget of `t` is spent and left nodes open that `t'` may have looked at. -/
structure Behind (budget : Nat) (t t' : Trail (σ × List (Oracle.Call α)) α) : Prop
    extends Surpassed t t' where
  spent : budget ≤ t.counters.explored
  reached : t.counters.nodeLimitReached = true

variable {t t' t₁ t₂ t₃ : Trail (σ × List (Oracle.Call α)) α} {outcome outcome' : Outcome}

theorem calls_look {verdict : Except (Error α) (Recursion.Verdict α)}
    (looked : look p oracle.recorded settings rows depth t = (verdict, t')) : t.oracle.2 <:+ t'.oracle.2 := by
  cases Recursion.looked_of_look looked with
  | spent _ => exact List.suffix_rfl
  | integral _ _ _ _ _ =>
    rw [(Recursion.offer_keeps ..).1]
    exact List.suffix_cons _ _
  | _ => exact List.suffix_cons _ _

variable [LawfulOrder α]

theorem Surpassed.trans (first : Surpassed t₁ t₂) (second : Surpassed t₂ t₃) : Surpassed t₁ t₃ where
  calls := first.calls.trans second.calls
  valued := second.valued
  noWorse := second.noWorse.trans first.noWorse
  optima := first.optima.trans second.optima

theorem surpassed_of_explored (explored : Explored p oracle.recorded settings rows depth t (.ok outcome) t')
    (valued : t.incumbent.Valued) : Surpassed t t' := by
  obtain ⟨valued, noWorse⟩ := noWorse_of_explored explored valued
  obtain ⟨optima, rays, empty, counted, -⟩ := counted_of_explored explored
  refine ⟨?_, valued, noWorse, counted.optima ▸ Nat.le_add_right _ _⟩
  exact explored.keeps (R := fun t t' => t.oracle.2 <:+ t'.oracle.2) (fun _ _ _ => List.IsSuffix.trans)
    fun _ _ _ _ _ looked => calls_look looked

omit [LawfulOrder α] in
theorem behind_of_spent (spent : settings.maxNodes ≤ t.counters.explored)
    (explored : Explored p oracle.recorded settings rows depth t (.ok outcome) t₁) (later : Surpassed t t₂) :
    Behind settings.maxNodes t₁ t₂ := by
  rw [explored_of_spent spent explored]
  exact ⟨⟨later.calls, later.valued, later.noWorse, later.optima⟩, spent, rfl⟩

theorem Behind.explored (behind : Behind settings.maxNodes t t')
    (less : Explored p oracle.recorded settings rows depth t (.ok outcome) t₁)
    (further : Explored p oracle.recorded settings' rows depth t' (.ok outcome') t₂) :
    Behind settings.maxNodes t₁ t₂ :=
  behind_of_spent behind.spent less (behind.toSurpassed.trans (surpassed_of_explored further behind.valued))

/-- From one trail, two budgets find the same or the smaller one falls behind. -/
theorem behind_of_explored (tol : settings'.intTol = settings.intTol)
    (more : settings.maxNodes ≤ settings'.maxNodes) (valued : t.incumbent.Valued)
    (less : Explored p oracle.recorded settings rows depth t (.ok outcome) t₁)
    (further : Explored p oracle.recorded settings' rows depth t (.ok outcome') t₂) :
    (outcome' = outcome ∧ t₂ = t₁) ∨ Behind settings.maxNodes t₁ t₂ := by
  induction less using Explored.ok_induction generalizing outcome' t₂ with
  | @closed rows depth t outcome t₁ looked =>
    by_cases spent : settings.maxNodes ≤ t.counters.explored
    · exact .inr (behind_of_spent spent (.closed looked) (surpassed_of_explored further valued))
    · rw [← look_raise tol more (not_le.mp spent)] at looked
      exact .inl (further.of_closed looked)
  | @combined rows depth t var value t₁ ceil t₂ floor t₃ looked ceilSide floorSide ceilIh floorIh =>
    have looked' := (look_raise tol more (Recursion.explored_of_split looked).1).trans looked
    have valued₁ := (noWorse_look looked valued).1
    have valued₂ := (noWorse_of_explored ceilSide valued₁).1
    cases further with
    | closed other => cases looked'.symm.trans other
    | combined other ceilSide' floorSide' =>
      cases looked'.symm.trans other
      rcases ceilIh valued₁ ceilSide' with ⟨rfl, rfl⟩ | behind
      · rcases floorIh valued₂ floorSide' with ⟨rfl, rfl⟩ | behind
        · exact .inl ⟨rfl, rfl⟩
        · exact .inr behind
      -- on the floor side the one is behind from the beginning
      · exact .inr (behind.explored floorSide floorSide')

end Trails

theorem optimal_iff_of_explored {p : Integer.Program α} {oracle : Oracle σ α} {settings : Integer.Settings α}
    {state : σ} {outcome : Outcome} {t : Trail σ α}
    (explored : Explored p oracle settings [] 0 (Recursion.start p state) (.ok outcome) t) :
    Recursion.finalOutcome t.counters outcome = .optimal ↔ 0 < t.counters.pruned + t.counters.integral := by
  obtain ⟨optima, rays, empty, counted, rfl⟩ := counted_of_explored explored
  have optima : t.counters.pruned + t.counters.integral = 0 + optima := counted.optima
  rw [optima, Nat.zero_add]
  unfold Recursion.finalOutcome Outcome.ofLeaves
  split_ifs <;> simp_all

/-- Of two solves that differ in the node budget, the calls of the one with less are the first calls of the
other, its objective is at least that of the other, and it is optimal only if the other is. If it
left no node to its budget, both return the same. -/
theorem solve_extends_with_budget [LawfulOrder α] {c c' : Controller α} {p : Integer.Program α}
    {oracle : Oracle σ α} {state : σ} {solution solution' : Solution α}
    (solved : (c.solve p oracle state).result = .ok solution)
    (solved' : (c'.solve p oracle state).result = .ok solution')
    (settings : c'.settings = { c.settings with maxNodes := c'.settings.maxNodes })
    (more : c.settings.maxNodes ≤ c'.settings.maxNodes) :
    c.calls p oracle state <+: c'.calls p oracle state ∧
      solution'.incumbent.NoWorse solution.incumbent ∧
      (solution.outcome = .optimal → solution'.outcome = .optimal) ∧
      (solution.counters.nodeLimitReached = false → solution' = solution) := by
  obtain ⟨outcome, t, explored, rfl, calls⟩ := calls_of_solve solved
  obtain ⟨outcome', t', explored', rfl, calls'⟩ := calls_of_solve solved'
  have tol : c'.settings.intTol = c.settings.intTol := by rw [settings]
  have valued := valued_start p (state, ([] : List (Oracle.Call α)))
  rw [calls, calls', List.reverse_prefix]
  rcases behind_of_explored tol more valued explored explored' with ⟨rfl, rfl⟩ | behind
  · have noWorse := (noWorse_of_explored explored valued).1.noWorse
    exact ⟨List.suffix_rfl, noWorse, id, fun _ => rfl⟩
  · refine ⟨behind.calls, behind.noWorse, ?_, ?_⟩
    · dsimp only
      rw [optimal_iff_of_explored explored, optimal_iff_of_explored explored']
      exact fun found => lt_of_lt_of_le found behind.optima
    · intro unreached
      cases behind.reached.symm.trans unreached

/-- Three of five answers: both solves are optimal with the point of the third. -/
theorem solve_extends_with_budget_three_five :
    ∃ solution solution' : Solution Float,
      ((Controller.ofSettings { Integer.Settings.default with maxNodes := 3 }).solve ⟨[[2]], [7], [-1]⟩
        (Oracle.scripted (Oracle.failing "lost")) tiedAnswers).result = .ok solution ∧
      ((Controller.ofSettings .default).solve ⟨[[2]], [7], [-1]⟩ (Oracle.scripted (Oracle.failing "lost"))
        tiedAnswers).result = .ok solution' ∧
      solution.counters.explored = 3 ∧ solution'.counters.explored = 5 ∧
      ((Controller.ofSettings { Integer.Settings.default with maxNodes := 3 }).calls ⟨[[2]], [7], [-1]⟩
        (Oracle.scripted (Oracle.failing "lost")) tiedAnswers) <+:
        (Controller.ofSettings .default).calls ⟨[[2]], [7], [-1]⟩ (Oracle.scripted (Oracle.failing "lost"))
          tiedAnswers ∧
      solution'.incumbent.NoWorse solution.incumbent ∧ solution'.outcome = .optimal := by
  have solved : ((Controller.ofSettings { Integer.Settings.default with maxNodes := 3 }).solve ⟨[[2]], [7], [-1]⟩
      (Oracle.scripted (Oracle.failing "lost")) tiedAnswers).result =
      .ok ⟨.optimal, ⟨some (-2), [3]⟩, ⟨3, 0, 2, 1, 0, 0, 2, 1, 2, 5, true⟩⟩ := by decide +kernel
  have solved' : ((Controller.ofSettings .default).solve ⟨[[2]], [7], [-1]⟩
      (Oracle.scripted (Oracle.failing "lost")) tiedAnswers).result =
      .ok ⟨.optimal, ⟨some (-2), [3]⟩, ⟨5, 1, 2, 2, 0, 0, 0, 1, 2, 5, false⟩⟩ := by decide +kernel
  obtain ⟨calls, noWorse, optimal, -⟩ := solve_extends_with_budget solved solved' rfl (by decide +kernel)
  exact ⟨_, _, solved, solved', rfl, rfl, calls, noWorse, optimal rfl⟩

end BranchBound.Search
