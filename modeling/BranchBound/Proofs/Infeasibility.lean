import BranchBound.Proofs.Truthful

/-!
# Reports of infeasibility

A search that reports `infeasible` has met neither an optimum nor a ray and left no node to its node
budget. So an integer point of the program can only be in the system of a node whose relaxation ran
out of pivots (`leavesOpen_of_explored`), and a report without such nodes is proven
(`solve_infeasible_unless_cut_short`). With such a node beside one without points the report is the same, and
the program may have points (`solve_infeasible_with_points`).
-/

namespace BranchBound

open Integer (BranchRow System)

/-- An oracle that calls a system infeasible only if it has no real point. -/
def Oracle.Refutes {σ : Type} (oracle : Oracle σ ℚ) : Prop :=
  ∀ state system, (oracle state system).result = .ok .infeasible → ∀ y : List ℝ, ¬system.Feasible y

theorem Oracle.Truthful.refutes {σ : Type} {oracle : Oracle σ ℚ} (truthful : oracle.Truthful) :
    oracle.Refutes := fun state system replied => truthful state system .infeasible replied

/-- The relaxation of the call ran out of pivots. -/
def Oracle.Call.CutShort {α : Type} (call : Call α) : Prop :=
  ∃ objective x, call.answer = some (.iterationLimit objective x)

/-- The outcomes of subtrees without an optimum and without a ray. -/
def Outcome.Barren (outcome : Outcome) : Prop :=
  outcome = .iterationLimit ∨ outcome = .infeasible

theorem Outcome.Barren.of_combine {ceil floor : Outcome} (barren : (ceil.combine floor).Barren) :
    ceil.Barren ∧ floor.Barren := by
  cases ceil <;> cases floor <;> simp_all [Barren, combine, before, code]

namespace Search

open Recursion (Trail Explored look Looked)

section Calls
variable {σ α : Type} [Scalar α] {p : Integer.Program α} {oracle : Oracle σ α} {settings : Integer.Settings α}
  {rows : List (BranchRow α)} {depth : Nat} {t t' : Trail (σ × List (Oracle.Call α)) α}

/-- Recorded calls stay recorded, and a spent node budget stays spent. -/
structure Extends (t t' : Trail (σ × List (Oracle.Call α)) α) : Prop where
  calls : ∀ call ∈ t.oracle.2, call ∈ t'.oracle.2
  uncapped : t'.counters.nodeLimitReached = false → t.counters.nodeLimitReached = false

omit [Scalar α] in
theorem Extends.trans {t₁ t₂ t₃ : Trail (σ × List (Oracle.Call α)) α} (first : Extends t₁ t₂)
    (second : Extends t₂ t₃) : Extends t₁ t₃ where
  calls call held := second.calls call (first.calls call held)
  uncapped free := first.uncapped (second.uncapped free)

theorem extends_look {verdict : Except (Error α) (Recursion.Verdict α)}
    (looked : look p oracle.recorded settings rows depth t = (verdict, t')) : Extends t t' := by
  cases Recursion.looked_of_look looked with
  | spent _ => exact ⟨fun _ held => held, fun impossible => nomatch impossible⟩
  | @integral objective x _ _ _ _ _ =>
    unfold Recursion.Trail.offer
    split <;> exact ⟨fun _ held => List.mem_cons_of_mem _ held, id⟩
  | _ => exact ⟨fun _ held => List.mem_cons_of_mem _ held, id⟩

theorem extends_of_explored {result : Except (Error α) Outcome}
    (explored : Explored p oracle.recorded settings rows depth t result t') : Extends t t' :=
  explored.keeps (R := Extends) (fun _ _ _ first second => first.trans second)
    fun _ _ _ _ _ looked => extends_look looked

end Calls

section Open
variable {σ : Type} {p : Integer.Program ℚ} {oracle : Oracle σ ℚ} {settings : Integer.Settings ℚ}
  {rows : List (BranchRow ℚ)} {depth : Nat} {t t' : Trail (σ × List (Oracle.Call ℚ)) ℚ} {y : List ℤ}

/-- An integer point in a system whose relaxation ran out of pivots. -/
structure LeavesOpen (t : Trail (σ × List (Oracle.Call ℚ)) ℚ) (y : List ℤ) : Prop where
  limited : 0 < t.counters.limited
  call : ∃ call ∈ t.oracle.2, call.CutShort ∧ call.system.Feasible (rational y)

theorem LeavesOpen.later {result : Except (Error ℚ) Outcome} (leftOpen : LeavesOpen t y)
    (explored : Explored p oracle.recorded settings rows depth t result t') : LeavesOpen t' y := by
  obtain ⟨limited, call, member, cut, feasible⟩ := leftOpen
  exact ⟨limited.trans_le (advances_of_explored explored).limited, call,
    (extends_of_explored explored).calls call member, cut, feasible⟩

theorem leavesOpen_of_closed {outcome : Outcome} (refutes : oracle.Refutes)
    (looked : look p oracle.recorded settings rows depth t = (.ok (.closed outcome), t'))
    (barren : outcome.Barren) (uncapped : t'.counters.nodeLimitReached = false)
    (feasible : System.Feasible ⟨p, rows⟩ (rational y)) : LeavesOpen t' y := by
  cases Recursion.looked_of_look looked with
  | spent _ => cases uncapped
  | infeasible _ replied =>
    exact absurd (Integer.System.feasible_cast.mpr feasible) (refutes _ _ replied _)
  | @limited objective x _ replied =>
    have answer : (oracle t.oracle.1 ⟨p, rows⟩).result = .ok (.iterationLimit objective x) := replied
    refine ⟨Nat.succ_pos _, _, List.mem_cons_self, ⟨objective, x, ?_⟩, feasible⟩
    rw [answer]
    rfl
  | unbounded _ _ => simp [Outcome.Barren] at barren
  | pruned _ _ _ _ => simp [Outcome.Barren] at barren
  | integral _ _ _ _ _ => simp [Outcome.Barren] at barren

/-- An integer point below a node without optimum and ray is in a system that was left open. -/
theorem leavesOpen_of_explored {outcome : Outcome} (refutes : oracle.Refutes)
    (explored : Explored p oracle.recorded settings rows depth t (.ok outcome) t') (barren : outcome.Barren)
    (uncapped : t'.counters.nodeLimitReached = false) (feasible : System.Feasible ⟨p, rows⟩ (rational y)) :
    LeavesOpen t' y := by
  induction explored using Explored.ok_induction with
  | closed looked => exact leavesOpen_of_closed refutes looked barren uncapped feasible
  | combined looked _ floorSide ceil floor =>
    obtain ⟨ceilBarren, floorBarren⟩ := barren.of_combine
    have ceilUncapped := (extends_of_explored floorSide).uncapped uncapped
    -- The point is on one side of the split; what the ceil side leaves open stays open after the floor side.
    rcases feasible_of_split looked feasible with high | low
    · exact (ceil ceilBarren ceilUncapped high).later floorSide
    · exact floor floorBarren uncapped low

end Open

/-! ### Solves -/

/-- A solve that reports `infeasible` is right if no relaxation ran out of pivots; if one did, the
integer points of the program are in the systems of such relaxations. -/
theorem solve_infeasible_unless_cut_short {σ : Type} {c : Controller ℚ} {p : Integer.Program ℚ}
    {oracle : Oracle σ ℚ} {state : σ} {solution : Solution ℚ} (refutes : oracle.Refutes)
    (solved : (c.solve p oracle state).result = .ok solution) (infeasible : solution.outcome = .infeasible) :
    (solution.counters.limited = 0 → ∀ y : List ℤ, ¬p.Feasible (rational y)) ∧
      ∀ y : List ℤ, p.Feasible (rational y) →
        ∃ call ∈ (c.solve p oracle.recorded (state, [])).oracle.2,
          call.CutShort ∧ call.system.Feasible (rational y) := by
  obtain ⟨outcome, t, explored, rfl, calls⟩ := traced_of_solve (result_solve_recorded solved)
  obtain ⟨rfl, uncapped⟩ : outcome = .infeasible ∧ t.counters.nodeLimitReached = false := by
    dsimp only [Recursion.finalOutcome] at infeasible
    split at infeasible
    · cases infeasible
    · rename_i notBoth
      exact ⟨infeasible, by simpa [infeasible] using notBoth⟩
  have leftOpen : ∀ y : List ℤ, p.Feasible (rational y) → LeavesOpen t y := fun y feasible =>
    leavesOpen_of_explored refutes explored (Or.inr rfl) uncapped ⟨feasible, by simp⟩
  constructor
  · intro none y feasible
    exact (leftOpen y feasible).limited.ne' none
  · intro y feasible
    rw [calls]
    exact (leftOpen y feasible).call

/-- No integer between one third and two thirds, shown on both sides of the root's split. -/
theorem solve_infeasible_unless_cut_short_thirds :
    ∃ solution : Solution ℚ,
      ((Controller.ofSettings ⟨5, 0, ⟨10, 0, 0⟩, false, 0⟩).solve ⟨[[3], [-3]], [2, -1], [1]⟩
        (Oracle.simplex ⟨10, 0, 0⟩) {}).result = .ok solution ∧
      solution.outcome = .infeasible ∧ solution.counters.infeasible = 2 ∧ solution.counters.limited = 0 ∧
      ∀ y : List ℤ, ¬Integer.Program.Feasible ⟨[[3], [-3]], [2, -1], [1]⟩ (rational y) := by
  have refutes : (Oracle.simplex (⟨10, 0, 0⟩ : Linear.Settings ℚ)).Refutes :=
    (Oracle.simplex_truthful rfl rfl).refutes
  have solved : ((Controller.ofSettings ⟨5, 0, ⟨10, 0, 0⟩, false, 0⟩).solve ⟨[[3], [-3]], [2, -1], [1]⟩
      (Oracle.simplex (⟨10, 0, 0⟩ : Linear.Settings ℚ)) {}).result =
      .ok ⟨.infeasible, ⟨none, [0]⟩, ⟨3, 0, 1, 0, 2, 0, 0, 0, 1, 3, false⟩⟩ := by decide +kernel
  exact ⟨_, solved, rfl, rfl, rfl, (solve_infeasible_unless_cut_short refutes solved rfl).1 rfl⟩

/-- The greatest `x + y` with `2 x + 2 y ≤ 3` and one pivot for each relaxation. The root is split at
`x = 3 / 2`; its ceil side has no point, its floor side runs out of pivots, and a truthful oracle
leads to the report `infeasible` although `(1, 0)` is a point. -/
theorem solve_infeasible_with_points :
    (Oracle.simplex (⟨1, 0, 0⟩ : Linear.Settings ℚ)).Truthful ∧ ∃ solution : Solution ℚ,
      ((Controller.ofSettings ⟨5, 0, ⟨1, 0, 0⟩, false, 0⟩).solve ⟨[[2, 2]], [3], [-1, -1]⟩
        (Oracle.simplex ⟨1, 0, 0⟩) {}).result = .ok solution ∧
      solution.outcome = .infeasible ∧ solution.counters.limited = 1 ∧
      Integer.Program.Feasible ⟨[[2, 2]], [3], [-1, -1]⟩ (rational [1, 0]) := by
  have solved : ((Controller.ofSettings ⟨5, 0, ⟨1, 0, 0⟩, false, 0⟩).solve ⟨[[2, 2]], [3], [-1, -1]⟩
      (Oracle.simplex (⟨1, 0, 0⟩ : Linear.Settings ℚ)) {}).result =
      .ok ⟨.infeasible, ⟨none, [0, 0]⟩, ⟨3, 0, 1, 0, 1, 0, 1, 0, 1, 3, false⟩⟩ := by decide +kernel
  have point : Integer.Program.Feasible (⟨[[2, 2]], [3], [-1, -1]⟩ : Integer.Program ℚ) (rational [1, 0]) :=
    ⟨rfl, by simp [rational], by norm_num [rational, form]⟩
  exact ⟨Oracle.simplex_truthful rfl rfl, _, solved, rfl, rfl, point⟩

end Search

end BranchBound
