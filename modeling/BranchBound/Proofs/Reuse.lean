import BranchBound.Proofs.Consistency

/-!
# Using a controller again

A solve depends on its controller through the settings alone, and no step of a search writes them
(`keeps_search`). So a controller solves after any history as a fresh one does, whatever earlier solves
left behind when they failed half-way (`solve_after_history`).
-/

namespace BranchBound.Search

variable {σ α β γ : Type}

/-! ### Steps keep the settings -/

/-- The frame after a step, failed or not. -/
def left : EStateM.Result (Error α) (Frame σ α) β → Frame σ α
  | .ok _ frame => frame
  | .error _ frame => frame

def Keeps (m : SearchM σ α β) : Prop :=
  ∀ frame, (left (m frame)).controller.settings = frame.controller.settings

section Keeps

theorem Keeps.bind {m : SearchM σ α β} {f : β → SearchM σ α γ} (first : Keeps m) (next : ∀ a, Keeps (f a)) :
    Keeps (m >>= f) := by
  intro frame
  have kept := first frame
  show (left (EStateM.bind m f frame)).controller.settings = _
  unfold EStateM.bind
  cases ran : m frame with
  | ok a frame₁ =>
    rw [ran] at kept
    exact (next a frame₁).trans kept
  | error e frame₁ =>
    rw [ran] at kept
    exact kept

theorem Keeps.ite {b : Prop} [Decidable b] {m m' : SearchM σ α β} (first : Keeps m) (second : Keeps m') :
    Keeps (if b then m else m') := by
  split
  · exact first
  · exact second

theorem keeps_pure (a : β) : Keeps (pure a : SearchM σ α β) :=
  fun _ => rfl

theorem keeps_throw (e : Error α) : Keeps (throw e : SearchM σ α β) :=
  fun _ => rfl

theorem Keeps.checked {b : Prop} [Decidable b] {m : SearchM σ α β} {e : Error α} (kept : Keeps m) :
    Keeps (if b then m else do throw e; m) :=
  kept.ite ((keeps_throw e).bind fun _ => kept)

theorem keeps_controller : Keeps (controller : SearchM σ α (Controller α)) :=
  fun _ => rfl

theorem keeps_modify {f : Controller α → Controller α} (kept : ∀ c, (f c).settings = c.settings) :
    Keeps (modifyController f : SearchM σ α Unit) :=
  fun _ => kept _

theorem keeps_count (f : Counters → Counters) : Keeps (count f : SearchM σ α Unit) :=
  keeps_modify fun _ => rfl

theorem keeps_tell (event : Event α) : Keeps (tell event : SearchM σ α Unit) :=
  fun _ => rfl

theorem keeps_tellProgress (event : Event α) : Keeps (tellProgress event : SearchM σ α Unit) := by
  apply keeps_controller.bind
  intro c
  split
  · exact keeps_tell event
  · exact keeps_pure ()

theorem keeps_node (id : Nat) : Keeps (node id : SearchM σ α (Node α)) := by
  apply keeps_controller.bind
  intro c
  split
  · exact keeps_pure _
  · exact keeps_throw _

theorem keeps_setNode (id : Nat) (n : Node α) : Keeps (setNode id n : SearchM σ α Unit) :=
  (keeps_node id).bind fun _ => keeps_modify fun _ => rfl

theorem keeps_setStatus (id : Nat) (status : NodeStatus) : Keeps (setStatus id status : SearchM σ α Unit) :=
  (keeps_node id).bind fun _ => keeps_setNode id _

theorem keeps_addNode (n : Node α) : Keeps (addNode n : SearchM σ α Unit) := by
  apply keeps_controller.bind
  intro c
  have rest : Keeps (do
      modifyController fun c => { c with nodes := c.nodes.push n }
      count fun k => { k with
        maxDepth := max k.maxDepth n.depth
        peakNodes := max k.peakNodes (c.nodes.size + 1) } : SearchM σ α Unit) :=
    Keeps.bind (keeps_modify fun _ => rfl) fun _ => keeps_count _
  exact rest.ite ((keeps_throw _).bind fun _ => rest)

theorem keeps_close (id depth : Nat) (outcome : Outcome) (status : NodeStatus) (counted : Counters → Counters) :
    Keeps (close id depth outcome status counted : SearchM σ α (Option Outcome)) :=
  (keeps_count _).bind fun _ => (keeps_tell _).bind fun _ => (keeps_setStatus id _).bind fun _ => keeps_pure _

theorem keeps_prune (id depth : Nat) (bound : α) : Keeps (prune id depth bound : SearchM σ α (Option Outcome)) :=
  keeps_controller.bind fun _ => (keeps_tell _).bind fun _ => (keeps_count _).bind fun _ =>
    (keeps_setStatus id _).bind fun _ => keeps_pure _

theorem keeps_leave (id : Nat) : Keeps (leave id : SearchM σ α (Option Outcome)) := by
  apply keeps_controller.bind
  intro c
  have rest : Keeps (do
      count fun k => { k with nodeLimitReached := true, limited := k.limited + 1 }
      setStatus id .nodeLimit
      return some .iterationLimit : SearchM σ α (Option Outcome)) :=
    (keeps_count _).bind fun _ => (keeps_setStatus id _).bind fun _ => keeps_pure _
  exact rest.ite ((keeps_tellProgress _).bind fun _ => rest)

theorem keeps_relax (oracle : Oracle σ α) (system : Integer.System α) : Keeps (relax oracle system) := by
  intro frame
  show (left (EStateM.run (relax oracle system) frame)).controller.settings = _
  cases replied : (oracle frame.oracle system).result with
  | error e =>
    simp only [relax, EStateM.run_bind, EStateM.run_get, replied]
    rfl
  | ok answer =>
    simp only [relax, EStateM.run_bind, EStateM.run_get, replied]
    rfl

theorem keeps_releaseChildren (id : Nat) : Keeps (releaseChildren id : SearchM σ α Unit) := by
  apply (keeps_node id).bind
  intro n
  split
  · exact keeps_pure _
  · exact (keeps_setNode id _).bind fun _ => (keeps_node _).bind fun _ => keeps_modify fun _ => rfl

theorem keeps_handUp (id : Nat) (outcome : Outcome) : Keeps (handUp id outcome : SearchM σ α Handed) := by
  apply (keeps_node id).bind
  intro n
  split
  · apply (keeps_node _).bind
    intro parent
    apply (keeps_setNode _ _).bind
    intro _
    split
    · exact keeps_pure _
    · exact (keeps_releaseChildren _).bind fun _ => keeps_pure _
  · exact keeps_pure _

theorem keeps_fold (fuel id : Nat) (outcome : Outcome) : Keeps (fold fuel id outcome : SearchM σ α (Option Outcome)) := by
  induction fuel generalizing id outcome with
  | zero =>
    rw [fold.eq_def]
    apply (keeps_handUp id outcome).bind
    rintro (root | ⟨parent, outcome⟩)
    · exact keeps_pure root
    · exact keeps_throw _
  | succ fuel ih =>
    rw [fold.eq_def]
    apply (keeps_handUp id outcome).bind
    rintro (root | ⟨parent, outcome⟩)
    · exact keeps_pure root
    · exact ih parent outcome

theorem keeps_tellHowFar : Keeps (tellHowFar : SearchM σ α Unit) :=
  keeps_controller.bind fun _ => (keeps_tellProgress _).ite (keeps_pure _)

theorem keeps_conclude (outcome : Outcome) : Keeps (conclude outcome : SearchM σ α (Solution α)) :=
  keeps_controller.bind fun _ => (keeps_tellProgress _).bind fun _ => keeps_pure _

variable [Scalar α]

theorem keeps_accept (id depth : Nat) (objective : α) (x : List α) :
    Keeps (accept id depth objective x : SearchM σ α (Option Outcome)) := by
  refine (keeps_count _).bind fun _ => (keeps_setStatus id _).bind fun _ => keeps_controller.bind fun c => ?_
  refine Keeps.ite ?_ (keeps_pure _)
  exact Keeps.bind (keeps_modify fun _ => rfl) fun _ => (keeps_count _).bind fun _ =>
    (keeps_tellProgress _).bind fun _ => keeps_pure _

theorem keeps_branch (id depth var : Nat) (value : α) :
    Keeps (branch id depth var value : SearchM σ α (Option Outcome)) := by
  refine (keeps_tell _).bind fun _ => (keeps_count _).bind fun _ => (keeps_setStatus id _).bind fun _ => ?_
  refine (keeps_node id).bind fun parent => keeps_controller.bind fun c => ?_
  refine Keeps.bind (keeps_modify fun _ => rfl) fun _ => (keeps_setNode id _).bind fun _ => ?_
  refine (keeps_addNode _).bind fun _ => (keeps_addNode _).bind fun _ => ?_
  exact Keeps.bind (keeps_modify fun _ => rfl) fun _ => keeps_pure _

theorem keeps_settle (p : Integer.Program α) (c : Controller α) (id : Nat) (n : Node α) (answer : Relaxation α) :
    Keeps (settle p c id n answer : SearchM σ α (Option Outcome)) := by
  cases answer with
  | iterationLimit _ _ => exact keeps_close id n.depth _ _ _
  | infeasible => exact keeps_close id n.depth _ _ _
  | unbounded => exact keeps_close id n.depth _ _ _
  | optimal objective x =>
    unfold settle
    apply Keeps.checked
    refine (keeps_setNode id _).bind fun _ => (keeps_prune id n.depth objective).ite ?_
    split
    · exact keeps_accept id n.depth objective x
    · exact keeps_branch id n.depth _ _

theorem keeps_process (p : Integer.Program α) (oracle : Oracle σ α) (id : Nat) : Keeps (process p oracle id) := by
  apply (keeps_node id).bind
  intro n
  apply keeps_controller.bind
  intro c
  split
  · exact (keeps_relax oracle _).bind fun answer => (keeps_count _).bind fun _ => keeps_settle p c id n answer
  · exact keeps_throw _

theorem keeps_step (p : Integer.Program α) (oracle : Oracle σ α) (id : Nat) : Keeps (step p oracle id) := by
  have visited : Keeps (visit p oracle id) :=
    keeps_controller.bind fun _ => (keeps_leave id).ite (keeps_process p oracle id)
  apply visited.bind
  intro resolved
  have told : ∀ outcome : Option Outcome, Keeps (do tellHowFar; return outcome : SearchM σ α (Option Outcome)) :=
    fun outcome => keeps_tellHowFar.bind fun _ => keeps_pure _
  cases resolved with
  | none => exact (keeps_pure _).bind told
  | some outcome => exact (keeps_fold id id outcome).bind told

theorem keeps_explore (p : Integer.Program α) (oracle : Oracle σ α) (fuel : Nat) (found : Option Outcome) :
    Keeps (explore p oracle fuel found) := by
  induction fuel generalizing found with
  | zero => exact keeps_pure found
  | succ fuel ih =>
    unfold explore
    apply keeps_controller.bind
    intro c
    split
    · exact keeps_pure found
    · exact Keeps.bind (keeps_modify fun _ => rfl) fun _ => (keeps_step p oracle _).bind fun _ => ih _

theorem keeps_search (p : Integer.Program α) (oracle : Oracle σ α) : Keeps (search p oracle) := by
  unfold search
  have opened : Keeps (opening p : SearchM σ α Unit) :=
    keeps_controller.bind fun _ => (keeps_tellProgress _).bind fun _ =>
      Keeps.bind (keeps_modify fun _ => rfl) fun _ => keeps_addNode .root
  refine keeps_controller.bind fun c => opened.bind fun _ => (keeps_explore p oracle _ none).bind fun found => ?_
  split
  · exact keeps_conclude _
  · exact keeps_throw _

end Keeps

/-! ### Histories -/

section History
variable [Scalar α]

theorem settings_solve (c : Controller α) (p : Integer.Program α) (oracle : Oracle σ α) (state : σ) :
    (c.solve p oracle state).controller.settings = c.settings := by
  have kept := keeps_search p oracle { controller := c.reset p.vars, oracle := state }
  unfold Controller.solve
  split
  · rfl
  · split
    · rfl
    · split
      · rename_i ran
        have ran : search p oracle { controller := c.reset p.vars, oracle := state } = .ok _ _ := ran
        rw [ran] at kept
        exact kept
      · rename_i ran
        have ran : search p oracle { controller := c.reset p.vars, oracle := state } = .error _ _ := ran
        rw [ran] at kept
        exact kept

/-- A program to solve, with the oracle for it. -/
structure Task (α : Type) where
  program : Integer.Program α
  {σ : Type}
  oracle : Oracle σ α
  state : σ

/-- The controller after solving one task after the other, failed ones included. -/
def Controller.after (c : Controller α) (past : List (Task α)) : Controller α :=
  past.foldl (fun c task => (c.solve task.program task.oracle task.state).controller) c

theorem settings_after (c : Controller α) (past : List (Task α)) : (c.after past).settings = c.settings := by
  induction past generalizing c with
  | nil => rfl
  | cons task rest ih => exact (ih _).trans (settings_solve c task.program task.oracle task.state)

variable {c c' : Controller α} {p : Integer.Program α} {oracle : Oracle σ α} {state : σ}

theorem solve_congr (same : c.settings = c'.settings) (valid : c.settings.isValid = true) (sound : p.fault? = none) :
    c.solve p oracle state = c'.solve p oracle state := by
  have reset : c.reset p.vars = c'.reset p.vars := by rw [Controller.reset, Controller.reset, same]
  unfold Controller.solve
  rw [sound, ← reset, ← same, valid]
  rfl

theorem solve_of_invalid (invalid : c.settings.isValid = false ∨ p.fault? ≠ none) :
    ∃ e, c.solve p oracle state = ⟨.error e, c, state, []⟩ := by
  unfold Controller.solve
  cases valid : c.settings.isValid with
  | false => exact ⟨_, rfl⟩
  | true =>
    cases fault : p.fault? with
    | some _ => exact ⟨_, rfl⟩
    | none => simp [valid, fault] at invalid

end History

/-- After any history a solve of a valid program asks and leaves what a fresh controller would; a solve that does
not pass its checks asks nothing and leaves the controller as it was. -/
theorem solve_after_history [Scalar α] (settings : Integer.Settings α) (past : List (Task α))
    (p : Integer.Program α) (oracle : Oracle σ α) (state : σ) :
    (settings.isValid = true ∧ p.fault? = none →
      ((Controller.ofSettings settings).after past).exchanges p oracle state =
        (Controller.ofSettings settings).exchanges p oracle state ∧
      ((Controller.ofSettings settings).after past).solve p oracle state =
        (Controller.ofSettings settings).solve p oracle state) ∧
    (settings.isValid = false ∨ p.fault? ≠ none →
      ((Controller.ofSettings settings).after past).exchanges p oracle state = [] ∧
      ∃ e, ((Controller.ofSettings settings).after past).solve p oracle state =
        ⟨.error e, (Controller.ofSettings settings).after past, state, []⟩) := by
  have same := settings_after (Controller.ofSettings settings) past
  constructor
  · rintro ⟨valid, sound⟩
    have valid : ((Controller.ofSettings settings).after past).settings.isValid = true := by rwa [same]
    unfold Controller.exchanges
    rw [solve_congr same valid sound, solve_congr same valid sound]
    exact ⟨rfl, rfl⟩
  · intro invalid
    have invalid : ((Controller.ofSettings settings).after past).settings.isValid = false ∨ p.fault? ≠ none := by
      rwa [same]
    exact ⟨exchanges_of_invalid invalid, solve_of_invalid invalid⟩

/-- The oracle of the first solve is lost on the ceil side of the root, the second program is not valid. -/
theorem solve_after_history_lost_oracle :
    ∃ past : List (Task ℚ),
      ((Controller.ofSettings ⟨5, 0, ⟨10, 0, 0⟩, false, 0⟩).after past).waiting = [2] ∧
      ((Controller.ofSettings ⟨5, 0, ⟨10, 0, 0⟩, false, 0⟩).after past).store.rows.size = 2 ∧
      (((Controller.ofSettings ⟨5, 0, ⟨10, 0, 0⟩, false, 0⟩).after past).solve ⟨[[2]], [3], [-1]⟩
        (Oracle.simplex ⟨10, 0, 0⟩) {}).result = .ok ⟨.optimal, ⟨some (-1), [1]⟩, ⟨3, 0, 1, 1, 1, 0, 0, 1, 1, 3, false⟩⟩ ∧
      (((Controller.ofSettings ⟨5, 0, ⟨10, 0, 0⟩, false, 0⟩).after past).solve ⟨[[2]], [], [-1]⟩
        (Oracle.simplex ⟨10, 0, 0⟩) {}).controller.waiting = [2] := by
  let past : List (Task ℚ) :=
    [⟨⟨[[2]], [3], [-1]⟩, Oracle.scripted (Oracle.failing "lost"), ([.optimal (-3 / 2) [3 / 2]], ())⟩,
      ⟨⟨[[2]], [], [-1]⟩, Oracle.simplex ⟨10, 0, 0⟩, {}⟩]
  have waits : ((Controller.ofSettings ⟨5, 0, ⟨10, 0, 0⟩, false, 0⟩).after past).waiting = [2] := by decide +kernel
  obtain ⟨same, -⟩ := solve_after_history ⟨5, 0, ⟨10, 0, 0⟩, false, 0⟩ past ⟨[[2]], [3], [-1]⟩
    (Oracle.simplex ⟨10, 0, 0⟩) {}
  obtain ⟨-, kept⟩ := solve_after_history ⟨5, 0, ⟨10, 0, 0⟩, false, 0⟩ past ⟨[[2]], [], [-1]⟩
    (Oracle.simplex ⟨10, 0, 0⟩) {}
  refine ⟨past, waits, by decide +kernel, ?_, ?_⟩
  · rw [(same ⟨by decide +kernel, by decide +kernel⟩).2]
    decide +kernel
  · obtain ⟨-, e, stopped⟩ := kept (Or.inr (by decide +kernel))
    rw [stopped]
    exact waits

end BranchBound.Search
