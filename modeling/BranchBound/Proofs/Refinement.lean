import BranchBound.Proofs.SearchPath
import BranchBound.Scalar.Rational

/-!
# The search follows the recursion

The loop over waiting nodes visits the tree in the order of the recursion: from the head of a path
it explores the subtree of the node there and then folds the outcome of that subtree upward
(`explores_of_explored`). At the root this is the whole search (`gives_search`).
-/

namespace BranchBound.Search

open Integer (BranchRow)
open Recursion (Trail Explored look)

variable {σ α : Type} [Scalar α] {p : Integer.Program α} {oracle : Oracle σ α} {c : Controller α}
  {path : Path α} {n : Node α} {t t' : Trail σ α}

/-! ### One turn of the loop -/

section Turn
variable {c₁ c₂ c₃ : Controller α} {s₁ s₂ s₃ : σ} {fuel : Nat} {found resolved : Option Outcome}
  {result : Except (Error α) (Option Outcome)}

theorem explore_turn
    (stepped : Gives (step p oracle path.id) ((c.atPath path n).carry t) t.oracle (.ok resolved) c₁ s₁)
    (rest : Gives (explore p oracle fuel (resolved.or found)) c₁ s₁ result c₂ s₂) :
    Gives (explore p oracle (fuel + 1) found) ((c.headAt path n).carry t) t.oracle result c₂ s₂ := by
  rw [explore]
  refine (gives_controller _ _).bind ?_
  exact Gives.bind (gives_modify _ _ _) (stepped.bind rest)

theorem explore_closed {outcome : Outcome}
    (visited : Gives (visit p oracle path.id) ((c.atPath path n).carry t) t.oracle (.ok (some outcome)) c₁ s₁)
    (folded : Gives (fold path.id path.id outcome) c₁ s₁ (.ok resolved) c₂ s₂)
    (rest : Gives (explore p oracle fuel (resolved.or found)) c₂ s₂ result c₃ s₃) :
    Gives (explore p oracle (fuel + 1) found) ((c.headAt path n).carry t) t.oracle result c₃ s₃ := by
  refine explore_turn ?_ rest
  exact visited.bind (folded.bind ((gives_tellHowFar _ _).bind (gives_pure _ _ _)))

theorem explore_split
    (visited : Gives (visit p oracle path.id) ((c.atPath path n).carry t) t.oracle (.ok none) c₁ s₁)
    (rest : Gives (explore p oracle fuel found) c₁ s₁ result c₂ s₂) :
    Gives (explore p oracle (fuel + 1) found) ((c.headAt path n).carry t) t.oracle result c₂ s₂ := by
  have stepped : Gives (step p oracle path.id) ((c.atPath path n).carry t) t.oracle (.ok none) c₁ s₁ :=
    visited.bind ((gives_pure _ _ _).bind ((gives_tellHowFar _ _).bind (gives_pure _ _ _)))
  exact explore_turn stepped rest

theorem explore_failed {e : Error α}
    (visited : Gives (visit p oracle path.id) ((c.atPath path n).carry t) t.oracle (.error e) c₁ s₁) :
    Gives (explore p oracle (fuel + 1) found) ((c.headAt path n).carry t) t.oracle (.error e) c₁ s₁ := by
  rw [explore]
  refine (gives_controller _ _).bind ?_
  exact Gives.bind (gives_modify _ _ _) (visited.bind_error.bind_error)

end Turn

theorem gives_visit_path (placed : n.At path) {verdict : Except (Error α) (Recursion.Verdict α)}
    (looked : look p oracle c.settings path.rows path.depth t = (verdict, t')) :
    ∃ result c', Visited (c.atPath path n) path.id n t' verdict result c' ∧
      Gives (visit p oracle path.id) ((c.atPath path n).carry t) t.oracle result c' t'.oracle := by
  have chain : (c.atPath path n).store.chain? n.tip = some path.rows := by
    rw [placed.tip]
    exact path.chain_path
  have size : (c.atPath path n).nodes.size = 2 * path.depth + 1 := path.length_nodes n
  rw [← placed.depth] at looked size
  refine gives_visit (atPath_node c path n) chain ?_ size looked
  rw [size, placed.depth]
  rfl

/-! ### Subtrees -/

/-- After `visits` turns the loop has explored the subtree of node `n` at the end of a path: it goes
on by folding the subtree's outcome upward, or has failed. -/
def Explores (p : Integer.Program α) (oracle : Oracle σ α) (c : Controller α) (path : Path α) (n : Node α)
    (t : Trail σ α) (visits : Nat) : Except (Error α) Outcome → Trail σ α → Prop
  | .ok outcome, t' => ∃ n' climb, n'.At path ∧ path.depth ≤ climb ∧
      ∀ fuel found resolved c₁ s₁ result c₂ s₂,
        Gives (fold climb path.id outcome) ((c.atPath path n').carry t') t'.oracle (.ok resolved) c₁ s₁ →
        Gives (explore p oracle fuel (resolved.or found)) c₁ s₁ result c₂ s₂ →
        Gives (explore p oracle (fuel + visits) found) ((c.headAt path n).carry t) t.oracle result c₂ s₂
  | .error e, t' => ∀ fuel found, ∃ c' : Controller α,
      Gives (explore p oracle (fuel + visits) found) ((c.headAt path n).carry t) t.oracle (.error e)
        (c'.carry t') t'.oracle

theorem explores_of_failed {e : Error α} (placed : n.At path)
    (looked : look p oracle c.settings path.rows path.depth t = (.error e, t')) :
    Explores p oracle c path n t 1 (.error e) t' := by
  obtain ⟨result, c', visited, ran⟩ := gives_visit_path placed looked
  cases visited
  intro fuel found
  exact ⟨_, explore_failed ran⟩

theorem explores_of_closed {outcome : Outcome} (placed : n.At path)
    (looked : look p oracle c.settings path.rows path.depth t = (.ok (.closed outcome), t')) :
    Explores p oracle c path n t 1 (.ok outcome) t' := by
  obtain ⟨result, c', visited, ran⟩ := gives_visit_path placed looked
  cases visited with
  | closed _ status bound =>
    rw [atPath_put] at ran
    refine ⟨{ n with status, bound }, path.id, ?_, path.depth_le_id, ?_⟩
    · exact placed.of_place rfl
    · intro fuel found resolved c₁ s₁ result c₂ s₂ folded rest
      exact explore_closed ran folded rest

/-- A split takes one turn and leaves the loop at the head of its ceil side. -/
theorem explore_of_split {var : Nat} {value : α} (placed : n.At path) (fresh : n.Fresh)
    (looked : look p oracle c.settings path.rows path.depth t = (.ok (.split var value), t')) :
    ∃ n', n'.At path ∧ n'.Fresh ∧ ∀ {fuel found result c₂ s₂},
      Gives (explore p oracle fuel found)
        ((c.headAt (.down (.opened n' path.depth var value) path)
          (n'.child (2 * path.depth + 1) .ceil (2 * path.depth))).carry t') t'.oracle result c₂ s₂ →
      Gives (explore p oracle (fuel + 1) found) ((c.headAt path n).carry t) t.oracle result c₂ s₂ := by
  obtain ⟨result, c', visited, ran⟩ := gives_visit_path placed looked
  cases visited with
  | split _ _ bound =>
    have placed' : ({ n with bound } : Node α).At path := placed.of_place rfl
    rw [atPath_divide c path n _ var value placed'] at ran
    exact ⟨{ n with bound }, placed', ⟨fresh.firstChild, fresh.ceilOutcome, fresh.floorOutcome⟩,
      fun rest => explore_split ran rest⟩

/-- The subtree of a node, wherever it stands, takes the loop at most two turns for each split and one. -/
def ExploresBelow (p : Integer.Program α) (oracle : Oracle σ α) (c : Controller α) (rows : List (BranchRow α))
    (depth : Nat) (t : Trail σ α) (result : Except (Error α) Outcome) (t' : Trail σ α) : Prop :=
  ∀ (path : Path α) (n : Node α), path.rows = rows → path.depth = depth → path.Sound → n.At path → n.Fresh →
    ∃ visits, Explores p oracle c path n t visits result t' ∧
      visits + 2 * t.counters.branched ≤ 2 * t'.counters.branched + 1

/-- A split with its ceil side leaves the loop at the head of its floor side. -/
theorem explore_of_ceil {var : Nat} {value : α} {ceil : Outcome} {t₁ t₂ : Trail σ α} (sound : path.Sound)
    (placed : n.At path) (fresh : n.Fresh)
    (looked : look p oracle c.settings path.rows path.depth t = (.ok (.split var value), t₁))
    (ceilSide : ExploresBelow p oracle c (path.rows ++ [.split .ceil var value]) (path.depth + 1) t₁ (.ok ceil) t₂) :
    ∃ level n' visits, level.Sound path ∧ level.ceil = some ceil ∧ level.var = var ∧ level.value = value ∧
      n'.At (.down level path) ∧ n'.Fresh ∧ visits + 2 * t.counters.branched ≤ 2 * t₂.counters.branched ∧
      ∀ {fuel found result c₂ s₂},
        Gives (explore p oracle fuel found) ((c.headAt (.down level path) n').carry t₂) t₂.oracle result c₂ s₂ →
        Gives (explore p oracle (fuel + visits) found) ((c.headAt path n).carry t) t.oracle result c₂ s₂ := by
  have branched : t₁.counters.branched = t.counters.branched + 1 := Recursion.branched_look looked
  obtain ⟨n₁, placed₁, fresh₁, opened⟩ := explore_of_split placed fresh looked
  have sound₁ := opened_sound placed₁ fresh₁ var value
  obtain ⟨visits, ⟨n₂, climb, placed₂, -, ceilDone⟩, few⟩ :=
    ceilSide (.down (.opened n₁ path.depth var value) path) _ rfl rfl ⟨sound₁, sound⟩ (child_at _ placed₁)
      (child_fresh _ _ _ _)
  have floorPlaced := child_at ((Level.opened n₁ path.depth var value).turn n₂ ceil) placed₁
  refine ⟨(Level.opened n₁ path.depth var value).turn n₂ ceil, (Level.opened n₁ path.depth var value).other,
    visits + 1, turn_sound sound₁ rfl placed₂ ceil, rfl, rfl, rfl, floorPlaced, child_fresh _ _ _ _,
    by omega, ?_⟩
  intro fuel found result c₂ s₂ rest
  exact opened (ceilDone fuel found none _ _ result c₂ s₂ (fold_ceil sound₁ rfl placed₂ climb ceil) rest)

theorem explores_of_explored {rows : List (BranchRow α)} {depth : Nat} {result : Except (Error α) Outcome}
    (explored : Explored p oracle c.settings rows depth t result t') :
    ExploresBelow p oracle c rows depth t result t' := by
  induction explored with
  | failed looked =>
    rintro path n rfl rfl sound placed fresh
    have branched := Recursion.branched_look looked
    exact ⟨1, explores_of_failed placed looked, by omega⟩
  | closed looked =>
    rintro path n rfl rfl sound placed fresh
    have branched := Recursion.branched_look looked
    exact ⟨1, explores_of_closed placed looked, by omega⟩
  | @ceilFailed _ _ t var value t₁ e t₂ looked _ ceilSide =>
    rintro path n rfl rfl sound placed fresh
    have branched : t₁.counters.branched = t.counters.branched + 1 := Recursion.branched_look looked
    obtain ⟨n₁, placed₁, fresh₁, opened⟩ := explore_of_split placed fresh looked
    obtain ⟨visits, explores, few⟩ := ceilSide (.down (.opened n₁ path.depth var value) path) _ rfl rfl
      ⟨opened_sound placed₁ fresh₁ var value, sound⟩ (child_at _ placed₁) (child_fresh _ _ _ _)
    refine ⟨visits + 1, ?_, by omega⟩
    intro fuel found
    obtain ⟨c', ran⟩ := explores fuel found
    exact ⟨c', opened ran⟩
  | floorFailed looked _ _ ceilSide floorSide =>
    rintro path n rfl rfl sound placed fresh
    obtain ⟨level, n₁, visits₁, sound₁, resolved, rfl, rfl, placed₁, fresh₁, few₁, turned⟩ :=
      explore_of_ceil sound placed fresh looked ceilSide
    have floorRows : level.side = .floor := by unfold Level.side; rw [resolved]
    obtain ⟨visits₂, explores, few₂⟩ := floorSide (.down level path) n₁ (by rw [Path.rows, floorRows]) rfl
      ⟨sound₁, sound⟩ placed₁ fresh₁
    refine ⟨visits₂ + visits₁, ?_, by omega⟩
    intro fuel found
    obtain ⟨c', ran⟩ := explores fuel found
    rw [← Nat.add_assoc]
    exact ⟨c', turned ran⟩
  | @combined _ _ _ _ _ _ _ _ floor _ looked _ _ ceilSide floorSide =>
    rintro path n rfl rfl sound placed fresh
    obtain ⟨level, n₁, visits₁, sound₁, resolved, rfl, rfl, placed₁, fresh₁, few₁, turned⟩ :=
      explore_of_ceil sound placed fresh looked ceilSide
    have floorRows : level.side = .floor := by unfold Level.side; rw [resolved]
    obtain ⟨visits₂, ⟨n₂, climb, placed₂, enough, floorDone⟩, few₂⟩ := floorSide (.down level path) n₁
      (by rw [Path.rows, floorRows]) rfl ⟨sound₁, sound⟩ placed₁ fresh₁
    obtain ⟨climb, rfl⟩ : ∃ k, climb = k + 1 := ⟨climb - 1, by rw [Path.depth] at enough; omega⟩
    refine ⟨visits₂ + visits₁, ⟨{ level.node with floorOutcome := some floor, firstChild := none }, climb,
      sound₁.node.of_place rfl, by rw [Path.depth] at enough; omega, ?_⟩, by omega⟩
    intro fuel found resolution c₁ s₁ result c₂ s₂ folded rest
    rw [← Nat.add_assoc]
    exact turned (floorDone fuel found resolution c₁ s₁ result c₂ s₂
      (fold_floor sound₁ resolved placed₂ folded) rest)

/-! ### The whole search -/

theorem explore_done (waiting : c.waiting = []) (fuel : Nat) (found : Option Outcome) (s : σ) :
    Gives (explore p oracle fuel found) c s (.ok found) c s := by
  cases fuel with
  | zero => exact gives_pure _ _ _
  | succ fuel =>
    rw [explore]
    refine (gives_controller _ _).bind ?_
    rw [waiting]
    exact gives_pure _ _ _

theorem explore_root {result : Except (Error α) Outcome} {state : σ}
    (explored : Explored p oracle c.settings [] 0 (Recursion.start p state) result t') :
    ∃ c' : Controller α, Gives (explore p oracle (2 * c.settings.maxNodes + 2) none)
      ((c.headAt .root .root).carry (Recursion.start p state)) state (result.map some) (c'.carry t') t'.oracle := by
  have effort := explored.effort
  obtain ⟨visits, explores, few⟩ := explores_of_explored explored .root .root rfl rfl trivial root_at ⟨rfl, rfl, rfl⟩
  have start : (Recursion.start p state).counters.branched = 0 ∧ (Recursion.start p state).counters.explored = 0 :=
    ⟨rfl, rfl⟩
  obtain ⟨fuel, enough⟩ : ∃ fuel, 2 * c.settings.maxNodes + 2 = fuel + visits :=
    ⟨2 * c.settings.maxNodes + 2 - visits, by omega⟩
  rw [enough]
  cases result with
  | error e => exact explores fuel none
  | ok outcome =>
    obtain ⟨n', climb, placed, -, done⟩ := explores
    exact ⟨c.atPath .root n', done fuel none _ _ _ _ _ _ (fold_root placed climb outcome)
      (explore_done rfl fuel _ _)⟩

theorem gives_opening (c : Controller α) (p : Integer.Program α) (state : σ) :
    Gives (opening p) (c.reset p.vars) state (.ok ())
      (((c.reset p.vars).headAt .root .root).carry (Recursion.start p state)) state := by
  refine (gives_controller _ _).bind ?_
  refine (gives_tellProgress _ _ _).bind ((gives_modify _ _ _).bind ?_)
  exact gives_addNode (c := { c.reset p.vars with factory := {}, waiting := [(Node.root : Node α).id] }) rfl

theorem gives_search (c : Controller α) (p : Integer.Program α) (oracle : Oracle σ α) (state : σ) :
    ∃ c' : Controller α, Gives (search p oracle) (c.reset p.vars) state
      (Recursion.solve p oracle c.settings state).1
      (c'.carry (Recursion.solve p oracle c.settings state).2)
      (Recursion.solve p oracle c.settings state).2.oracle := by
  have explored := Recursion.explored_explore p oracle c.settings [] 0 (Recursion.start p state)
  obtain ⟨c', ran⟩ := explore_root (c := c.reset p.vars) explored
  refine ⟨c', ?_⟩
  unfold search
  refine (gives_controller _ _).bind ?_
  refine (gives_opening c p state).bind ?_
  unfold Recursion.solve
  rcases ended : Recursion.explore p oracle c.settings [] 0 (Recursion.start p state) with ⟨_ | outcome, t'⟩
  · rw [ended] at ran
    exact ran.bind_error
  · rw [ended] at ran
    exact Gives.bind (a := some outcome) ran (gives_conclude outcome c' t' _)

theorem solve_of_gives {result : Except (Error α) (Solution α)} {c' : Controller α} {state state' : σ}
    (valid : c.settings.isValid = true) (sound : p.fault? = none)
    (ran : Gives (search p oracle) (c.reset p.vars) state result c' state') :
    (c.solve p oracle state).result = result ∧ (c.solve p oracle state).controller = c' ∧
      (c.solve p oracle state).oracle = state' := by
  obtain ⟨log, ran⟩ := ran #[]
  unfold Controller.solve
  rw [valid, sound]
  cases result with
  | ok a =>
    have ended : (search p oracle).run { controller := c.reset p.vars, oracle := state } =
        .ok a ⟨c', state', log⟩ := ran
    simp [ended]
  | error e =>
    have ended : (search p oracle).run { controller := c.reset p.vars, oracle := state } =
        .error e ⟨c', state', log⟩ := ran
    simp [ended]

theorem valid_of_solve {state : σ} {solution : Solution α} (solved : (c.solve p oracle state).result = .ok solution) :
    c.settings.isValid = true ∧ p.fault? = none := by
  unfold Controller.solve at solved
  split at solved
  · cases solved
  · rename_i valid
    cases fault : p.fault? with
    | some _ => rw [fault] at solved; cases solved
    | none => exact ⟨by simpa using valid, rfl⟩

theorem traced_of_solve {state : σ} {solution : Solution α}
    (solved : (c.solve p oracle state).result = .ok solution) :
    ∃ outcome t, Explored p oracle c.settings [] 0 (Recursion.start p state) (.ok outcome) t ∧
      solution = ⟨Recursion.finalOutcome t.counters outcome, t.incumbent, t.counters⟩ ∧
      (c.solve p oracle state).oracle = t.oracle := by
  obtain ⟨valid, sound⟩ := valid_of_solve solved
  obtain ⟨c', ran⟩ := gives_search c p oracle state
  obtain ⟨result, -, oracleState⟩ := solve_of_gives valid sound ran
  rw [result] at solved
  have explored := Recursion.explored_explore p oracle c.settings [] 0 (Recursion.start p state)
  unfold Recursion.solve at solved oracleState
  rcases ended : Recursion.explore p oracle c.settings [] 0 (Recursion.start p state) with ⟨_ | outcome, t⟩
  · rw [ended] at solved
    cases solved
  · rw [ended] at solved oracleState explored
    exact ⟨outcome, t, explored, (Except.ok.inj solved).symm, oracleState⟩

/-- What a solve returns is what the recursion finds from the root. -/
theorem explored_of_solve {state : σ} {solution : Solution α}
    (solved : (c.solve p oracle state).result = .ok solution) :
    ∃ outcome t, Explored p oracle c.settings [] 0 (Recursion.start p state) (.ok outcome) t ∧
      solution = ⟨Recursion.finalOutcome t.counters outcome, t.incumbent, t.counters⟩ := by
  obtain ⟨outcome, t, explored, same, -⟩ := traced_of_solve solved
  exact ⟨outcome, t, explored, same⟩

theorem result_solve_recorded {state : σ} {solution : Solution α}
    (solved : (c.solve p oracle state).result = .ok solution) :
    (c.solve p oracle.recorded (state, [])).result = .ok solution := by
  obtain ⟨valid, sound⟩ := valid_of_solve solved
  obtain ⟨_, ran⟩ := gives_search c p oracle state
  obtain ⟨_, again⟩ := gives_search c p oracle.recorded (state, [])
  obtain ⟨_, same, -⟩ := Recursion.solve_recorded p oracle c.settings state
  rw [(solve_of_gives valid sound again).1, same, ← (solve_of_gives valid sound ran).1, solved]

theorem result_solve (p : Integer.Program α) (settings : Integer.Settings α) :
    (solve p settings).result =
      ((Controller.ofSettings settings).solve p (Oracle.simplex settings.linear) {}).result := by
  unfold solve
  dsimp only
  split <;> rfl

/-- The calls that a solve makes of its oracle, in their order. -/
def Controller.calls (c : Controller α) (p : Integer.Program α) (oracle : Oracle σ α) (state : σ) :
    List (Oracle.Call α) :=
  (c.solve p oracle.recorded (state, [])).oracle.2.reverse

theorem calls_of_solve {state : σ} {solution : Solution α}
    (solved : (c.solve p oracle state).result = .ok solution) :
    ∃ outcome t, Explored p oracle.recorded c.settings [] 0 (Recursion.start p (state, [])) (.ok outcome) t ∧
      solution = ⟨Recursion.finalOutcome t.counters outcome, t.incumbent, t.counters⟩ ∧
      c.calls p oracle state = t.oracle.2.reverse := by
  obtain ⟨outcome, t, explored, same, calls⟩ := traced_of_solve (result_solve_recorded solved)
  exact ⟨outcome, t, explored, same, by rw [Controller.calls, calls]⟩

/-- A solve asks the oracle the systems of the recursion in the same order, and ends with its result,
its incumbent, its counters and its oracle state. -/
theorem solve_follows_recursion (c : Controller α) (p : Integer.Program α) (oracle : Oracle σ α) (state : σ)
    (valid : c.settings.isValid = true) (sound : p.fault? = none) :
    ((c.solve p oracle.recorded (state, [])).oracle.2.reverse.map Oracle.Call.system =
        (Recursion.solve p oracle c.settings state).2.asked) ∧
      (c.solve p oracle state).result = (Recursion.solve p oracle c.settings state).1 ∧
      (c.solve p oracle state).oracle = (Recursion.solve p oracle c.settings state).2.oracle ∧
      (c.solve p oracle state).controller.incumbent = (Recursion.solve p oracle c.settings state).2.incumbent ∧
      (c.solve p oracle state).controller.counters = (Recursion.solve p oracle c.settings state).2.counters := by
  obtain ⟨c', ran⟩ := gives_search c p oracle state
  obtain ⟨result, controller, oracleState⟩ := solve_of_gives valid sound ran
  obtain ⟨c₂, again⟩ := gives_search c p oracle.recorded (state, [])
  obtain ⟨-, -, recordedState⟩ := solve_of_gives valid sound again
  obtain ⟨calls, same, systems⟩ := Recursion.solve_recorded p oracle c.settings state
  refine ⟨?_, result, oracleState, ?_, ?_⟩
  · rw [recordedState, same]
    exact systems
  · rw [controller]
    rfl
  · rw [controller]
    rfl

/-- The largest `x` with `2 x ≤ 3`: the root is split at `3 / 2`, its ceil side has no point. -/
theorem solve_follows_recursion_one_split :
    (Controller.ofSettings (⟨5, 0, ⟨10, 0, 0⟩, false, 0⟩ : Integer.Settings ℚ)).settings.isValid = true ∧
      (⟨[[2]], [3], [-1]⟩ : Integer.Program ℚ).fault? = none ∧
      (Recursion.solve (⟨[[2]], [3], [-1]⟩ : Integer.Program ℚ) (Oracle.simplex ⟨10, 0, 0⟩)
        ⟨5, 0, ⟨10, 0, 0⟩, false, 0⟩ {}).2.asked =
        [⟨⟨[[2]], [3], [-1]⟩, []⟩, ⟨⟨[[2]], [3], [-1]⟩, [⟨0, .ceil, 2⟩]⟩, ⟨⟨[[2]], [3], [-1]⟩, [⟨0, .floor, 1⟩]⟩] := by
  have valid : (Controller.ofSettings (⟨5, 0, ⟨10, 0, 0⟩, false, 0⟩ : Integer.Settings ℚ)).settings.isValid = true := by
    decide +kernel
  have sound : (⟨[[2]], [3], [-1]⟩ : Integer.Program ℚ).fault? = none := by decide +kernel
  refine ⟨valid, sound, ?_⟩
  refine (solve_follows_recursion (Controller.ofSettings ⟨5, 0, ⟨10, 0, 0⟩, false, 0⟩) ⟨[[2]], [3], [-1]⟩
    (Oracle.simplex ⟨10, 0, 0⟩) {} valid sound).1.symm.trans ?_
  decide +kernel

end BranchBound.Search
