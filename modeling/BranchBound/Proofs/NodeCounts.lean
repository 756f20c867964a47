import BranchBound.Proofs.Incumbents

/-!
# Counting nodes

Every node of the tree is counted once: as split or as a leaf of one kind, and as explored unless it was left
to the node budget. A subtree has one leaf more than splits (`nodesCounted_of_explored`), so a search explores
all its `2 * branched + 1` nodes or has spent its budget. Every improvement of the incumbent is a whole
node, and conversely as long as all objectives are numbers (`improvements_look`).
-/

namespace BranchBound

/-- An optimum in the answer has a number for its objective. -/
def Oracle.Call.Numeric {α : Type} [Scalar α] (call : Oracle.Call α) : Prop :=
  ∀ objective x, call.answer = some (.optimal objective x) → Scalar.isNumber objective = true

namespace Search

open Integer (BranchRow System)
open Recursion (Trail Explored look)

def Counters.leaves (k : Counters) : Nat :=
  k.pruned + k.integral + k.infeasible + k.unbounded + k.limited

/-- What a subtree adds to the counters when `left` of its nodes are left to the node budget. -/
structure NodesCounted (budget : Nat) (k k' : Counters) (left : Nat) : Prop where
  leaves : k'.leaves + k.branched = k.leaves + k'.branched + 1
  explored : k'.explored + left + 2 * k.branched = k.explored + 2 * k'.branched + 1
  reached : k'.nodeLimitReached = true ↔ k.nodeLimitReached = true ∨ 0 < left
  spent : 0 < left → budget ≤ k'.explored

variable {σ α : Type} [Scalar α] {p : Integer.Program α} {oracle : Oracle σ α} {settings : Integer.Settings α}
  {rows : List (BranchRow α)} {depth : Nat}

section Nodes
variable {t t' : Trail σ α} {outcome : Outcome}

theorem leaves_offer (t : Trail σ α) (objective : α) (x : List α) :
    (t.offer objective x).counters.leaves = t.counters.leaves + 1 ∧
      (t.offer objective x).counters.nodeLimitReached = t.counters.nodeLimitReached := by
  unfold Recursion.Trail.offer Counters.leaves
  split
  · exact ⟨by dsimp only; omega, rfl⟩
  · exact ⟨by dsimp only [Recursion.Trail.count]; omega, rfl⟩

theorem nodesCounted_of_leaf {budget : Nat} {k k' : Counters} (leaves : k'.leaves = k.leaves + 1)
    (explored : k'.explored = k.explored + 1) (branched : k'.branched = k.branched)
    (reached : k'.nodeLimitReached = k.nodeLimitReached) : NodesCounted budget k k' 0 where
  leaves := by omega
  explored := by omega
  reached := by simp [reached]
  spent none := absurd none (lt_irrefl 0)

theorem nodesCounted_of_closed (looked : look p oracle settings rows depth t = (.ok (.closed outcome), t')) :
    ∃ left, NodesCounted settings.maxNodes t.counters t'.counters left := by
  cases Recursion.looked_of_look looked with
  | spent spent =>
    refine ⟨1, ?_, ?_, ?_, fun _ => spent⟩
    · simp only [Counters.leaves, Recursion.Trail.count]
      omega
    · simp only [Recursion.Trail.count]
      omega
    · simp [Recursion.Trail.count]
  | @integral objective x _ _ _ _ _ =>
    obtain ⟨leaves, reached⟩ := leaves_offer (t.answered oracle ⟨p, rows⟩) objective x
    obtain ⟨-, -, explored, branched⟩ := Recursion.offer_keeps (t.answered oracle ⟨p, rows⟩) objective x
    exact ⟨0, nodesCounted_of_leaf leaves explored branched reached⟩
  | limited | infeasible | unbounded | pruned =>
    refine ⟨0, nodesCounted_of_leaf ?_ rfl rfl rfl⟩
    simp only [Counters.leaves, Recursion.Trail.count, Recursion.Trail.answered, Recursion.Trail.ask]
    omega

/-- A node that is split counts no leaf, and its two sides count those below it. -/
theorem NodesCounted.of_split {var : Nat} {value : α} {t₁ : Trail σ α} {k₂ k₃ : Counters} {left left' : Nat}
    (looked : look p oracle settings rows depth t = (.ok (.split var value), t₁))
    (ceil : NodesCounted settings.maxNodes t₁.counters k₂ left)
    (floor : NodesCounted settings.maxNodes k₂ k₃ left') (later : k₂.explored ≤ k₃.explored) :
    NodesCounted settings.maxNodes t.counters k₃ (left + left') := by
  obtain ⟨leaves, explored, reached, spent⟩ := ceil
  obtain ⟨leaves', explored', reached', spent'⟩ := floor
  obtain ⟨none, same⟩ : t₁.counters.leaves = t.counters.leaves ∧
      t₁.counters.nodeLimitReached = t.counters.nodeLimitReached := by
    cases Recursion.looked_of_look looked with
    | split _ _ _ _ _ => exact ⟨rfl, rfl⟩
  have branched : t₁.counters.branched = t.counters.branched + 1 := Recursion.branched_look looked
  have counted := (Recursion.explored_of_split looked).2
  refine ⟨by omega, by omega, ?_, fun some => ?_⟩
  · rw [reached', reached, same]
    have either : 0 < left + left' ↔ 0 < left ∨ 0 < left' := by omega
    rw [either, or_assoc]
  · by_cases early : 0 < left
    · exact (spent early).trans later
    · exact spent' (by omega)

theorem nodesCounted_of_explored (explored : Explored p oracle settings rows depth t (.ok outcome) t') :
    ∃ left, NodesCounted settings.maxNodes t.counters t'.counters left := by
  induction explored using Explored.ok_induction with
  | closed looked => exact nodesCounted_of_closed looked
  | combined looked _ floorSide ceil floor =>
    obtain ⟨left, ceil⟩ := ceil
    obtain ⟨left', floor⟩ := floor
    exact ⟨left + left', .of_split looked ceil floor floorSide.explored_le⟩

end Nodes

/-! ### Calls and improvements -/

section Calls
variable {t t' : Trail (σ × List (Oracle.Call α)) α}

theorem length_calls_look {verdict : Recursion.Verdict α}
    (looked : look p oracle.recorded settings rows depth t = (.ok verdict, t'))
    (counted : t.oracle.2.length = t.counters.explored) : t'.oracle.2.length = t'.counters.explored := by
  have asked : (t.answered oracle.recorded ⟨p, rows⟩).oracle.2.length =
      (t.answered oracle.recorded ⟨p, rows⟩).counters.explored := congrArg (· + 1) counted
  cases Recursion.looked_of_look looked with
  | spent _ => exact counted
  | integral _ _ _ _ _ =>
    obtain ⟨oracleState, -, explored, -⟩ := Recursion.offer_keeps (t.answered oracle.recorded ⟨p, rows⟩) _ _
    rw [oracleState, explored]
    exact asked
  | _ => exact asked

/-- Improvements of the incumbent are among the whole nodes, and are all of them if every answer has a number. -/
structure Improvements (t : Trail (σ × List (Oracle.Call α)) α) : Prop where
  valued : t.incumbent.Valued
  le : t.counters.updates ≤ t.counters.integral
  eq : (∀ call ∈ t.oracle.2, call.Numeric) → t.counters.updates = t.counters.integral

variable [LawfulOrder α]

theorem improvements_offer {objective : α} {x : List α} (improvements : Improvements t)
    (better : (∀ call ∈ t.oracle.2, call.Numeric) → t.incumbent.improvedBy objective = true) :
    Improvements (t.offer objective x) := by
  obtain ⟨valued, le, eq⟩ := improvements
  refine ⟨?_, ?_, ?_⟩
  · rw [incumbent_offer]
    exact Incumbent.valued_update valued x
  · unfold Recursion.Trail.offer
    split
    · exact Nat.succ_le_succ le
    · exact Nat.le_succ_of_le le
  · rw [(Recursion.offer_keeps _ _ _).1]
    intro numeric
    unfold Recursion.Trail.offer
    rw [if_pos (better numeric)]
    exact congrArg (· + 1) (eq numeric)

theorem improvements_look {verdict : Except (Error α) (Recursion.Verdict α)}
    (looked : look p oracle.recorded settings rows depth t = (verdict, t')) (improvements : Improvements t) :
    Improvements t' := by
  obtain ⟨valued, le, eq⟩ := improvements
  have earlier : (∀ call ∈ (t.ask oracle.recorded ⟨p, rows⟩).oracle.2, call.Numeric) →
      ∀ call ∈ t.oracle.2, call.Numeric :=
    fun numeric call member => numeric call (List.mem_cons_of_mem _ member)
  cases Recursion.looked_of_look looked with
  | spent _ => exact ⟨valued, le, eq⟩
  | @integral objective x _ replied _ open_ _ =>
    refine improvements_offer ⟨valued, le, fun numeric => eq (earlier numeric)⟩ fun numeric => ?_
    have number := numeric _ List.mem_cons_self objective x (congrArg Except.toOption replied)
    exact Incumbent.improvedBy_of_number valued number open_
  | _ => exact ⟨valued, le, fun numeric => eq (earlier numeric)⟩

end Calls

/-- The counters of a solve: its calls are the nodes explored, its leaves are one more than its splits, and all of its
nodes are explored unless the node budget is spent. Every improvement of the incumbent is a whole
node, and every whole node is one as long as no optimum lacks a number. -/
theorem solve_counts_every_node [LawfulOrder α] {c : Controller α} {state : σ} {solution : Solution α}
    (solved : (c.solve p oracle state).result = .ok solution) :
    (c.calls p oracle state).length = solution.counters.explored ∧
      solution.counters.explored ≤ c.settings.maxNodes ∧
      solution.counters.pruned + solution.counters.integral + solution.counters.infeasible +
        solution.counters.unbounded + solution.counters.limited = solution.counters.branched + 1 ∧
      (solution.counters.nodeLimitReached = true ↔
        solution.counters.explored < 2 * solution.counters.branched + 1) ∧
      (solution.counters.nodeLimitReached = true → solution.counters.explored = c.settings.maxNodes) ∧
      solution.counters.updates ≤ solution.counters.integral ∧
      ((∀ call ∈ c.calls p oracle state, call.Numeric) →
        solution.counters.updates = solution.counters.integral) := by
  obtain ⟨outcome, t, explored, rfl, calls⟩ := calls_of_solve solved
  obtain ⟨left, leaves, nodes, reached, spent⟩ := nodesCounted_of_explored explored
  have within := explored.effort.2.2
  have length := explored.ok_invariant (P := fun t => t.oracle.2.length = t.counters.explored)
    (fun _ _ _ _ _ looked held => length_calls_look looked held) rfl
  have improvements := explored.invariant (P := Improvements)
    (fun _ _ _ _ _ looked held => improvements_look looked held) ⟨valued_start p _, le_refl _, fun _ => rfl⟩
  have start : (Recursion.start p (state, ([] : List (Oracle.Call α)))).counters = { peakNodes := 1 } := rfl
  simp only [start, Counters.leaves] at leaves nodes reached within
  simp only [Bool.false_eq_true, false_or] at reached
  dsimp only
  refine ⟨?_, by omega, by omega, ?_, ?_, improvements.le, ?_⟩
  · rw [calls, List.length_reverse, length]
  · rw [reached]
    omega
  · intro limit
    have spent := spent (reached.mp limit)
    omega
  · rw [calls]
    intro numeric
    exact improvements.eq fun call member => numeric call (List.mem_reverse.mpr member)

/-- Three calls for five answers, all with numbers: two nodes are left to the node budget. -/
theorem solve_counts_every_node_three_calls :
    ∃ solution : Solution Float,
      ((Controller.ofSettings { Integer.Settings.default with maxNodes := 3 }).solve ⟨[[2]], [7], [-1]⟩
        (Oracle.scripted (Oracle.failing "lost")) tiedAnswers).result = .ok solution ∧
      solution.counters.explored = 3 ∧ solution.counters.branched = 2 ∧ solution.counters.limited = 2 ∧
      ((Controller.ofSettings { Integer.Settings.default with maxNodes := 3 }).calls ⟨[[2]], [7], [-1]⟩
        (Oracle.scripted (Oracle.failing "lost")) tiedAnswers).length = solution.counters.explored ∧
      solution.counters.nodeLimitReached = true ∧ solution.counters.updates = solution.counters.integral := by
  have solved : ((Controller.ofSettings { Integer.Settings.default with maxNodes := 3 }).solve ⟨[[2]], [7], [-1]⟩
      (Oracle.scripted (Oracle.failing "lost")) tiedAnswers).result =
      .ok ⟨.optimal, ⟨some (-2), [3]⟩, ⟨3, 0, 2, 1, 0, 0, 2, 1, 2, 5, true⟩⟩ := by decide +kernel
  have answers : ((Controller.ofSettings { Integer.Settings.default with maxNodes := 3 }).calls ⟨[[2]], [7], [-1]⟩
      (Oracle.scripted (Oracle.failing "lost")) tiedAnswers).map Oracle.Call.answer =
      [some (.optimal (-3) [1.5]), some (.optimal (-2.5) [2.5]), some (.optimal (-2) [3])] := by decide +kernel
  obtain ⟨calls, -, -, reached, -, -, improved⟩ := solve_counts_every_node solved
  refine ⟨_, solved, rfl, rfl, rfl, calls, reached.mpr (by decide), improved ?_⟩
  intro call member objective x answered
  have listed := List.mem_map_of_mem (f := Oracle.Call.answer) member
  rw [answers, answered] at listed
  simp only [List.mem_cons, List.not_mem_nil, or_false, Option.some.injEq, Relaxation.optimal.injEq] at listed
  rcases listed with ⟨rfl, -⟩ | ⟨rfl, -⟩ | ⟨rfl, -⟩
  · decide +kernel
  · decide +kernel
  · decide +kernel

end Search

end BranchBound
