import BranchBound.Proofs.Recursion

/-!
# Steps of a search

What the steps of a controller do to it, whatever the journal. `Gives` is the effect of one step;
each step of a search has a lemma that names its result and the parts of the controller it changes.
-/

namespace BranchBound.Search

variable {σ α β γ : Type}

open Recursion (Trail Verdict look judge splitAt)

/-- From controller `c` and oracle state `s` the step `m` ends with `result`, `c'` and `s'`. -/
def Gives (m : SearchM σ α β) (c : Controller α) (s : σ) (result : Except (Error α) β) (c' : Controller α)
    (s' : σ) : Prop :=
  ∀ log, ∃ log', m ⟨c, s, log⟩ =
    match result with
    | .ok a => .ok a ⟨c', s', log'⟩
    | .error e => .error e ⟨c', s', log'⟩

section Steps
variable {m : SearchM σ α β} {c c₁ c₂ : Controller α} {s s₁ s₂ : σ}

theorem Gives.bind {f : β → SearchM σ α γ} {a : β} {result : Except (Error α) γ}
    (first : Gives m c s (.ok a) c₁ s₁) (next : Gives (f a) c₁ s₁ result c₂ s₂) :
    Gives (m >>= f) c s result c₂ s₂ := by
  intro log
  obtain ⟨log₁, ran⟩ := first log
  obtain ⟨log₂, last⟩ := next log₁
  refine ⟨log₂, ?_⟩
  show EStateM.bind m f _ = _
  unfold EStateM.bind
  rw [ran]
  exact last

theorem Gives.bind_error {f : β → SearchM σ α γ} {e : Error α} (first : Gives m c s (.error e) c₁ s₁) :
    Gives (m >>= f) c s (.error e) c₁ s₁ := by
  intro log
  obtain ⟨log₁, ran⟩ := first log
  refine ⟨log₁, ?_⟩
  show EStateM.bind m f _ = _
  unfold EStateM.bind
  rw [ran]

theorem Gives.pos {b : Prop} [Decidable b] {m' : SearchM σ α β} {result : Except (Error α) β} (holds : b)
    (taken : Gives m c s result c₁ s₁) : Gives (if b then m else m') c s result c₁ s₁ := by
  rw [if_pos holds]
  exact taken

theorem Gives.neg {b : Prop} [Decidable b] {m' : SearchM σ α β} {result : Except (Error α) β} (fails : ¬b)
    (taken : Gives m c s result c₁ s₁) : Gives (if b then m' else m) c s result c₁ s₁ := by
  rw [if_neg fails]
  exact taken

theorem gives_pure (a : β) (c : Controller α) (s : σ) : Gives (pure a) c s (.ok a) c s :=
  fun log => ⟨log, rfl⟩

theorem gives_throw (e : Error α) (c : Controller α) (s : σ) :
    Gives (throw e : SearchM σ α β) c s (.error e) c s :=
  fun log => ⟨log, rfl⟩

end Steps

/-! ### Parts of the frame -/

section Parts
variable {c : Controller α} {s : σ} {id : Nat} {n : Node α}

theorem gives_controller (c : Controller α) (s : σ) : Gives controller c s (.ok c) c s :=
  fun log => ⟨log, rfl⟩

theorem gives_modify (f : Controller α → Controller α) (c : Controller α) (s : σ) :
    Gives (modifyController f) c s (.ok ()) (f c) s :=
  fun log => ⟨log, rfl⟩

theorem gives_count (f : Counters → Counters) (c : Controller α) (s : σ) :
    Gives (count f) c s (.ok ()) { c with counters := f c.counters } s :=
  fun log => ⟨log, rfl⟩

theorem gives_tell (event : Event α) (c : Controller α) (s : σ) : Gives (tell event) c s (.ok ()) c s :=
  fun log => ⟨log.push event, rfl⟩

theorem gives_tellProgress (event : Event α) (c : Controller α) (s : σ) :
    Gives (tellProgress event) c s (.ok ()) c s := by
  refine (gives_controller c s).bind ?_
  split
  · exact gives_tell event c s
  · exact gives_pure () c s

theorem gives_tellHowFar (c : Controller α) (s : σ) : Gives tellHowFar c s (.ok ()) c s := by
  refine (gives_controller c s).bind ?_
  dsimp only
  split
  · exact gives_tellProgress _ c s
  · exact gives_pure () c s

def Controller.put (c : Controller α) (id : Nat) (n : Node α) : Controller α :=
  { c with nodes := c.nodes.setIfInBounds id n }

theorem nodes_put (read : c.nodes[id]? = some n) (n' : Node α) : (c.put id n').nodes[id]? = some n' := by
  have inside := (Array.getElem?_eq_some_iff.mp read).1
  exact Array.getElem?_setIfInBounds_self_of_lt inside

theorem put_put (c : Controller α) (id : Nat) (n n' : Node α) : (c.put id n).put id n' = c.put id n' := by
  unfold Controller.put
  rw [Array.setIfInBounds_setIfInBounds]

theorem size_put (c : Controller α) (id : Nat) (n : Node α) : (c.put id n).nodes.size = c.nodes.size :=
  Array.size_setIfInBounds

theorem gives_node (read : c.nodes[id]? = some n) : Gives (node id) c s (.ok n) c s := by
  refine (gives_controller c s).bind ?_
  rw [read]
  exact gives_pure n c s

theorem gives_setNode (read : c.nodes[id]? = some n) (n' : Node α) :
    Gives (setNode id n') c s (.ok ()) (c.put id n') s :=
  (gives_node read).bind (gives_modify _ c s)

theorem gives_setStatus (read : c.nodes[id]? = some n) (status : NodeStatus) :
    Gives (setStatus id status) c s (.ok ()) (c.put id { n with status }) s :=
  (gives_node read).bind (gives_setNode read _)

theorem gives_addNode (place : n.id = c.nodes.size) :
    Gives (addNode n) c s (.ok ())
      { c with
        nodes := c.nodes.push n
        counters := { c.counters with
          maxDepth := max c.counters.maxDepth n.depth
          peakNodes := max c.counters.peakNodes (c.nodes.size + 1) } } s := by
  refine (gives_controller c s).bind ?_
  rw [if_pos place]
  refine (gives_modify _ c s).bind ?_
  exact gives_count _ _ s

end Parts

/-! ### Visiting a node -/

/-- The controller with the incumbent and the counters of a trail. -/
def Controller.carry (c : Controller α) (t : Trail σ α) : Controller α :=
  { c with incumbent := t.incumbent, counters := t.counters }

section Carry
variable {c : Controller α} {id : Nat} {n : Node α}

theorem carry_count (f : Counters → Counters) (c : Controller α) (t : Trail σ α) (s : σ) :
    Gives (count f) (c.carry t) s (.ok ()) (c.carry (t.count f)) s :=
  gives_count f (c.carry t) s

theorem carry_setNode (read : c.nodes[id]? = some n) (n' : Node α) (t : Trail σ α) (s : σ) :
    Gives (setNode id n') (c.carry t) s (.ok ()) ((c.put id n').carry t) s :=
  gives_setNode (c := c.carry t) read n'

theorem carry_setStatus (read : c.nodes[id]? = some n) (status : NodeStatus) (t : Trail σ α) (s : σ) :
    Gives (setStatus id status) (c.carry t) s (.ok ()) ((c.put id { n with status }).carry t) s :=
  gives_setStatus (c := c.carry t) read status

theorem gives_close (read : c.nodes[id]? = some n) (t : Trail σ α) (depth : Nat) (outcome : Outcome)
    (status : NodeStatus) (counted : Counters → Counters) :
    Gives (close id depth outcome status counted) (c.carry t) t.oracle (.ok (some outcome))
      ((c.put id { n with status }).carry (t.count counted)) t.oracle := by
  refine (carry_count counted c t t.oracle).bind ?_
  refine (gives_tell _ _ _).bind ?_
  refine (carry_setStatus read status _ _).bind ?_
  exact gives_pure _ _ _

theorem gives_prune (read : c.nodes[id]? = some n) (t : Trail σ α) (depth : Nat) (bound : α) :
    Gives (prune id depth bound) (c.carry t) t.oracle (.ok (some .optimal))
      ((c.put id { n with status := .pruned }).carry
        (t.count fun k => { k with pruned := k.pruned + 1 })) t.oracle := by
  refine (gives_controller _ _).bind ?_
  refine (gives_tell _ _ _).bind ?_
  refine (carry_count _ c t t.oracle).bind ?_
  refine (carry_setStatus read .pruned _ _).bind ?_
  exact gives_pure _ _ _

theorem gives_relax (c : Controller α) (t : Trail σ α) (oracle : Oracle σ α) (system : Integer.System α) :
    Gives (relax oracle system) (c.carry t) t.oracle (oracle t.oracle system).result
      (c.carry (t.ask oracle system)) (t.ask oracle system).oracle := by
  intro log
  refine ⟨log ++ (oracle t.oracle system).log, ?_⟩
  show EStateM.run (relax oracle system) ⟨c.carry t, t.oracle, log⟩ = _
  cases replied : (oracle t.oracle system).result with
  | error e =>
    simp only [relax, EStateM.run_bind, EStateM.run_get, replied]
    rfl
  | ok answer =>
    simp only [relax, EStateM.run_bind, EStateM.run_get, replied]
    rfl

theorem gives_leave (read : c.nodes[id]? = some n) (t : Trail σ α) :
    Gives (leave id) (c.carry t) t.oracle (.ok (some .iterationLimit))
      ((c.put id { n with status := .nodeLimit }).carry
        (t.count fun k => { k with nodeLimitReached := true, limited := k.limited + 1 })) t.oracle := by
  refine (gives_controller _ _).bind ?_
  have rest : Gives (do
      count fun k => { k with nodeLimitReached := true, limited := k.limited + 1 }
      setStatus id .nodeLimit
      return some .iterationLimit : SearchM σ α (Option Outcome)) (c.carry t) t.oracle
      (.ok (some .iterationLimit)) ((c.put id { n with status := .nodeLimit }).carry
        (t.count fun k => { k with nodeLimitReached := true, limited := k.limited + 1 })) t.oracle := by
    refine (carry_count _ c t t.oracle).bind ?_
    refine (carry_setStatus read .nodeLimit _ _).bind ?_
    exact gives_pure _ _ _
  by_cases known : t.counters.nodeLimitReached = true
  · exact Gives.pos known rest
  · refine Gives.neg known ?_
    exact (gives_tellProgress _ _ _).bind rest

theorem gives_conclude (outcome : Outcome) (c : Controller α) (t : Trail σ α) (s : σ) :
    Gives (conclude outcome) (c.carry t) s
      (.ok ⟨Recursion.finalOutcome t.counters outcome, t.incumbent, t.counters⟩) (c.carry t) s := by
  refine (gives_controller _ _).bind ?_
  refine Gives.bind (gives_tellProgress _ _ _) ?_
  exact gives_pure _ _ _

end Carry

section Visit
variable [Scalar α] {c : Controller α} {t t' : Trail σ α} {id : Nat} {n : Node α} {p : Integer.Program α}
  {oracle : Oracle σ α}

theorem gives_accept (read : c.nodes[id]? = some n) (t : Trail σ α) (depth : Nat) (objective : α) (x : List α) :
    Gives (accept id depth objective x) (c.carry t) t.oracle (.ok (some .optimal))
      ((c.put id { n with status := .integral }).carry (t.offer objective x)) t.oracle := by
  refine (carry_count _ c t t.oracle).bind ?_
  refine (carry_setStatus read .integral _ _).bind ?_
  refine (gives_controller _ _).bind ?_
  unfold Recursion.Trail.offer
  by_cases better : t.incumbent.improvedBy objective = true
  · have improved : t.incumbent.update objective x = ⟨some objective, x⟩ := by
      unfold Incumbent.update
      rw [if_pos better]
    rw [if_pos better, ← improved]
    refine Gives.pos better ?_
    refine Gives.bind (gives_modify _ _ _) ?_
    refine Gives.bind (gives_count _ _ _) ?_
    refine Gives.bind (gives_tellProgress _ _ _) ?_
    exact gives_pure _ _ _
  · rw [if_neg better]
    exact Gives.neg better (gives_pure _ _ _)

/-- The controller with node `n` at `id` split into two children, which wait in front. -/
def Controller.divide (c : Controller α) (id : Nat) (n : Node α) (var : Nat) (value : α) : Controller α :=
  { c with
    store := (c.factory.split c.store n var value).store
    factory := ⟨c.factory.nextId + 2⟩
    nodes := ((c.nodes.setIfInBounds id { n with status := .branched, firstChild := some c.factory.nextId }).push
      (n.child c.factory.nextId .ceil c.store.rows.size)).push
      (n.child (c.factory.nextId + 1) .floor (c.store.rows.size + 1))
    waiting := c.factory.nextId :: (c.factory.nextId + 1) :: c.waiting }

theorem put_divide (c : Controller α) (id : Nat) (n n' : Node α) (var : Nat) (value : α) :
    (c.put id n').divide id n var value = c.divide id n var value := by
  unfold Controller.divide Controller.put
  rw [Array.setIfInBounds_setIfInBounds]

theorem gives_branch (read : c.nodes[id]? = some n) (place : c.factory.nextId = c.nodes.size)
    (size : c.nodes.size = 2 * n.depth + 1) (t : Trail σ α) (var : Nat) (value : α) :
    Gives (branch id n.depth var value) (c.carry t) t.oracle (.ok none)
      ((c.divide id n var value).carry (t.count (splitAt n.depth))) t.oracle := by
  refine (gives_tell _ _ _).bind ?_
  refine (carry_count _ c t t.oracle).bind ?_
  refine (carry_setStatus read .branched _ _).bind ?_
  have marked := nodes_put read { n with status := .branched }
  refine Gives.bind (gives_node (n := { n with status := .branched }) marked) ?_
  refine (gives_controller _ _).bind ?_
  refine Gives.bind (gives_modify _ _ _) ?_
  refine Gives.bind (gives_setNode (n := { n with status := .branched }) ?_ _) ?_
  · exact marked
  refine Gives.bind (gives_addNode ?_) ?_
  · show c.factory.nextId = ((c.nodes.setIfInBounds id _).setIfInBounds id _).size
    rw [Array.size_setIfInBounds, Array.size_setIfInBounds, place]
  refine Gives.bind (gives_addNode ?_) ?_
  · show c.factory.nextId + 1 = (((c.nodes.setIfInBounds id _).setIfInBounds id _).push _).size
    rw [Array.size_push, Array.size_setIfInBounds, Array.size_setIfInBounds, place]
  refine Gives.bind (gives_modify _ _ _) ?_
  convert gives_pure _ _ _ using 1
  have peak : 2 * (n.depth + 1) + 1 = 2 * n.depth + 1 + 1 + 1 := by omega
  simp [Controller.carry, Controller.put, Controller.divide, Recursion.Trail.count, splitAt, Factory.split,
    RowStore.push, Node.child, size, peak]

/-- What the visit of node `n` at `id` leaves, by its verdict and the trail after it. -/
inductive Visited (c : Controller α) (id : Nat) (n : Node α) (t : Trail σ α) :
    Except (Error α) (Verdict α) → Except (Error α) (Option Outcome) → Controller α → Prop
  | failed (e : Error α) : Visited c id n t (.error e) (.error e) (c.carry t)
  | closed (outcome : Outcome) (status : NodeStatus) (bound : Option α) :
    Visited c id n t (.ok (.closed outcome)) (.ok (some outcome)) ((c.put id { n with status, bound }).carry t)
  | split (var : Nat) (value : α) (bound : Option α) :
    Visited c id n t (.ok (.split var value)) (.ok none) ((c.divide id { n with bound } var value).carry t)

/-- The part of a visit that follows the answer to the relaxation. -/
def settle (p : Integer.Program α) (c : Controller α) (id : Nat) (n : Node α) (answer : Relaxation α) :
    SearchM σ α (Option Outcome) := do
  match answer with
  | .iterationLimit _ _ =>
    close id n.depth .iterationLimit .iterationLimit
      fun k => { k with limited := k.limited + 1 }
  | .infeasible =>
    close id n.depth .infeasible .infeasible
      fun k => { k with infeasible := k.infeasible + 1 }
  | .unbounded =>
    close id n.depth .unbounded .unbounded
      fun k => { k with unbounded := k.unbounded + 1 }
  | .optimal objective x =>
    unless x.length = p.vars do
      throw (.wrongLength x.length p.vars)
    setNode id { n with bound := some objective }
    if c.incumbent.dominates objective then prune id n.depth objective
    else match fractional? c.settings.intTol x with
      | none => accept id n.depth objective x
      | some (var, value) => branch id n.depth var value

/-- A relaxation with an optimum of the right length prunes its node, ends it or splits it. -/
theorem gives_settle_optimal (read : c.nodes[id]? = some n) (place : c.factory.nextId = c.nodes.size)
    (size : c.nodes.size = 2 * n.depth + 1) {objective : α} {x : List α} (length : x.length = p.vars)
    (t : Trail σ α) {verdict}
    (judged : judge p c.settings.intTol n.depth (.optimal objective x) t = (verdict, t')) :
    ∃ result c', Visited c id n t' verdict result c' ∧
      Gives (settle p (c.carry t) id n (.optimal objective x)) (c.carry t) t.oracle result c' t'.oracle := by
  unfold judge at judged
  dsimp only at judged
  rw [if_neg (not_not.mpr length : ¬x.length ≠ p.vars)] at judged
  have bounded := nodes_put read { n with bound := some objective }
  have prepared : ∀ {m : SearchM σ α (Option Outcome)} {result c' s'},
      Gives m ((c.put id { n with bound := some objective }).carry t) t.oracle result c' s' →
      Gives (do setNode id { n with bound := some objective }; m) (c.carry t) t.oracle result c' s' :=
    fun next => (carry_setNode read _ t _).bind next
  by_cases dominated : t.incumbent.dominates objective = true
  · rw [if_pos dominated] at judged
    cases judged
    refine ⟨_, _, .closed _ .pruned (some objective), Gives.pos length (prepared (Gives.pos dominated ?_))⟩
    have pruned := gives_prune bounded t n.depth objective
    rw [put_put] at pruned
    exact pruned
  · rw [if_neg dominated] at judged
    cases fractional : fractional? c.settings.intTol x with
    | none =>
      rw [fractional] at judged
      cases judged
      refine ⟨_, _, .closed _ .integral (some objective), Gives.pos length (prepared (Gives.neg dominated ?_))⟩
      have accepted := gives_accept bounded t n.depth objective x
      rw [put_put] at accepted
      show Gives (match fractional? c.settings.intTol x with | none => _ | some (var, value) => _) _ _ _ _ _
      rw [fractional, (Recursion.offer_keeps ..).1]
      exact accepted
    | some found =>
      obtain ⟨var, value⟩ := found
      rw [fractional] at judged
      cases judged
      refine ⟨_, _, .split var value (some objective), Gives.pos length (prepared (Gives.neg dominated ?_))⟩
      have branched := gives_branch bounded (place.trans (size_put ..).symm) ((size_put ..).trans size) t var value
      rw [put_divide] at branched
      show Gives (match fractional? c.settings.intTol x with | none => _ | some (var, value) => _) _ _ _ _ _
      rw [fractional]
      exact branched

theorem gives_settle (read : c.nodes[id]? = some n) (place : c.factory.nextId = c.nodes.size)
    (size : c.nodes.size = 2 * n.depth + 1) (answer : Relaxation α) (t : Trail σ α) {verdict}
    (judged : judge p c.settings.intTol n.depth answer t = (verdict, t')) :
    ∃ result c', Visited c id n t' verdict result c' ∧
      Gives (settle p (c.carry t) id n answer) (c.carry t) t.oracle result c' t'.oracle := by
  cases answer with
  | iterationLimit _ _ =>
    cases judged
    exact ⟨_, _, .closed _ .iterationLimit n.bound, gives_close read t _ _ _ _⟩
  | infeasible =>
    cases judged
    exact ⟨_, _, .closed _ .infeasible n.bound, gives_close read t _ _ _ _⟩
  | unbounded =>
    cases judged
    exact ⟨_, _, .closed _ .unbounded n.bound, gives_close read t _ _ _ _⟩
  | optimal objective x =>
    by_cases length : x.length = p.vars
    · exact gives_settle_optimal read place size length t judged
    · unfold judge at judged
      dsimp only at judged
      rw [if_pos (length : x.length ≠ p.vars)] at judged
      cases judged
      exact ⟨_, _, .failed _, Gives.neg length (gives_throw _ _ _).bind_error⟩

theorem gives_process {rows : List (Integer.BranchRow α)} (read : c.nodes[id]? = some n)
    (chain : c.store.chain? n.tip = some rows) {result : Except (Error α) (Option Outcome)} {c' : Controller α}
    {s' : σ}
    (settled : Gives (relax oracle ⟨p, rows⟩ >>= fun answer => do
      count fun k => { k with explored := k.explored + 1 }
      settle p (c.carry t) id n answer) (c.carry t) t.oracle result c' s') :
    Gives (process p oracle id) (c.carry t) t.oracle result c' s' := by
  refine Gives.bind (gives_node (c := c.carry t) read) ?_
  refine (gives_controller _ _).bind ?_
  have carried : (c.carry t).store.chain? n.tip = some rows := chain
  rw [carried]
  exact settled

theorem gives_visit {rows : List (Integer.BranchRow α)} (read : c.nodes[id]? = some n)
    (chain : c.store.chain? n.tip = some rows) (place : c.factory.nextId = c.nodes.size)
    (size : c.nodes.size = 2 * n.depth + 1) {verdict : Except (Error α) (Verdict α)}
    (looked : look p oracle c.settings rows n.depth t = (verdict, t')) :
    ∃ result c', Visited c id n t' verdict result c' ∧
      Gives (visit p oracle id) (c.carry t) t.oracle result c' t'.oracle := by
  unfold look at looked
  by_cases spent : c.settings.maxNodes ≤ t.counters.explored
  · rw [if_pos spent] at looked
    cases looked
    refine ⟨_, _, .closed _ .nodeLimit n.bound, (gives_controller _ _).bind ?_⟩
    exact Gives.pos spent (gives_leave read t)
  · rw [if_neg spent] at looked
    have asked := gives_relax c t oracle ⟨p, rows⟩
    cases replied : (oracle t.oracle ⟨p, rows⟩).result with
    | error e =>
      rw [replied] at looked asked
      cases looked
      refine ⟨_, _, .failed e, (gives_controller _ _).bind (Gives.neg spent ?_)⟩
      exact gives_process read chain asked.bind_error
    | ok answer =>
      rw [replied] at looked asked
      obtain ⟨result, c', visited, settled⟩ := gives_settle read place size answer _ looked
      refine ⟨result, c', visited, (gives_controller _ _).bind (Gives.neg spent ?_)⟩
      exact gives_process read chain (asked.bind ((carry_count _ _ _ _).bind settled))

end Visit

end BranchBound.Search
