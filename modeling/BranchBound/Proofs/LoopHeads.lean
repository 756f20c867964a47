import BranchBound.Proofs.OpenNodes
import BranchBound.Proofs.Refinement

/-!
# Heads of the search loop

A `Head` is a search before its loop takes the next waiting node. `turn_cases` says all that a turn can
do: the node is split and its ceil side comes next, or it is a leaf and the floor side of the last
open split comes next, or it is the last leaf and the root is resolved. So every head that a solve
reaches stands on a path or is finished (`Reached.invariant`), and a solve that returns has reached
a finished one (`finished_of_solve`).
-/

namespace BranchBound.Search

open Integer (BranchRow System)
open Recursion (Trail look)

variable {σ α : Type}

/-- A search at the head of its loop, with the outcomes of the root found so far and the systems of
the leaves resolved so far. -/
structure Head (σ α : Type) where
  frame : Frame σ α
  roots : List Outcome := []
  leaves : List (System α) := []

/-- The system of an open node: the program and the rows on the way to the node. -/
def Controller.systemAt? (c : Controller α) (p : Integer.Program α) (id : Nat) : Option (System α) :=
  (c.nodes[id]?).bind fun n => (c.store.chain? n.tip).map (System.mk p)

/-- The systems of the resolved leaves, then those of the waiting nodes. -/
def Head.systems (p : Integer.Program α) (head : Head σ α) : List (System α) :=
  head.leaves ++ head.frame.controller.waiting.filterMap (head.frame.controller.systemAt? p)

def Frame.pop (frame : Frame σ α) (rest : List Nat) : Frame σ α :=
  { frame with controller := { frame.controller with waiting := rest } }

theorem Gives.of_ok {β : Type} {m : SearchM σ α β} {c c' : Controller α} {s s' : σ} {log : Array (Event α)}
    {result : Except (Error α) β} {a : β} {frame : Frame σ α} (gives : Gives m c s result c' s')
    (ran : m ⟨c, s, log⟩ = .ok a frame) : result = .ok a ∧ ∃ log', frame = ⟨c', s', log'⟩ := by
  obtain ⟨log', same⟩ := gives log
  rw [ran] at same
  cases result with
  | ok b =>
    cases same
    exact ⟨rfl, log', rfl⟩
  | error e => cases same

theorem bind_eq_ok {β γ : Type} {m : SearchM σ α β} {f : β → SearchM σ α γ} {frame last : Frame σ α} {b : γ}
    (ran : (m >>= f) frame = .ok b last) : ∃ a next, m frame = .ok a next ∧ f a next = .ok b last := by
  have ran : EStateM.bind m f frame = .ok b last := ran
  unfold EStateM.bind at ran
  split at ran
  · rename_i a next first
    exact ⟨a, next, first, ran⟩
  · cases ran

section Turns
variable [Scalar α]

/-- One turn of the loop: the next waiting node is visited, and is a leaf if that resolves it. -/
inductive Turn (p : Integer.Program α) (oracle : Oracle σ α) : Head σ α → Head σ α → Prop
  | leaf {head : Head σ α} {id rest outcome root visited frame}
      (waits : head.frame.controller.waiting = id :: rest)
      (closed : visit p oracle id (head.frame.pop rest) = .ok (some outcome) visited)
      (stepped : step p oracle id (head.frame.pop rest) = .ok root frame) :
    Turn p oracle head ⟨frame, root.toList ++ head.roots,
      head.leaves ++ (head.frame.controller.systemAt? p id).toList⟩
  | branch {head : Head σ α} {id rest root visited frame}
      (waits : head.frame.controller.waiting = id :: rest)
      (split : visit p oracle id (head.frame.pop rest) = .ok none visited)
      (stepped : step p oracle id (head.frame.pop rest) = .ok root frame) :
    Turn p oracle head ⟨frame, root.toList ++ head.roots, head.leaves⟩

def Reached (c : Controller α) (p : Integer.Program α) (oracle : Oracle σ α) (state : σ) (head : Head σ α) : Prop :=
  ∃ frame, opening p { controller := c.reset p.vars, oracle := state } = .ok () frame ∧
    Relation.ReflTransGen (Turn p oracle) { frame } head

/-! ### The loop passes its heads -/

section Loop
variable {p : Integer.Program α} {oracle : Oracle σ α} {fuel : Nat}

theorem explore_succ (found : Option Outcome) (frame : Frame σ α) :
    explore p oracle (fuel + 1) found frame =
      match frame.controller.waiting with
      | [] => .ok found frame
      | id :: rest =>
        match step p oracle id (frame.pop rest) with
        | .ok root next => explore p oracle fuel (root.or found) next
        | .error e next => .error e next := by
  rw [explore]
  show EStateM.bind controller _ frame = _
  unfold EStateM.bind
  have read : controller frame = .ok frame.controller frame := rfl
  rw [read]
  dsimp only
  cases frame.controller.waiting with
  | nil => rfl
  | cons id rest =>
    show EStateM.bind (step p oracle id) _ (frame.pop rest) = _
    unfold EStateM.bind
    dsimp only
    cases step p oracle id (frame.pop rest) with
    | ok root next => rfl
    | error e next => rfl

/-- A loop that ends has passed from head to head to where it ends. -/
theorem turns_of_explore (head : Head σ α) {found : Option Outcome} {frame : Frame σ α}
    (ran : explore p oracle fuel head.roots.head? head.frame = .ok found frame) :
    ∃ last, Relation.ReflTransGen (Turn p oracle) head last ∧ last.frame = frame ∧ last.roots.head? = found := by
  induction fuel generalizing head with
  | zero =>
    cases ran
    exact ⟨head, .refl, rfl, rfl⟩
  | succ fuel ih =>
    rw [explore_succ] at ran
    cases waits : head.frame.controller.waiting with
    | nil =>
      rw [waits] at ran
      cases ran
      exact ⟨head, .refl, rfl, rfl⟩
    | cons id rest =>
      rw [waits] at ran
      dsimp only at ran
      cases stepped : step p oracle id (head.frame.pop rest) with
      | error e next =>
        rw [stepped] at ran
        cases ran
      | ok root next =>
        rw [stepped] at ran
        have known : (root.toList ++ head.roots).head? = root.or head.roots.head? := by
          cases root <;> simp
        dsimp only at ran
        rw [← known] at ran
        obtain ⟨resolved, visited, seen, -⟩ := bind_eq_ok stepped
        cases resolved with
        | some outcome =>
          obtain ⟨last, turns, ended⟩ := ih ⟨next, root.toList ++ head.roots, _⟩ ran
          exact ⟨last, .head (.leaf waits seen stepped) turns, ended⟩
        | none =>
          obtain ⟨last, turns, ended⟩ := ih ⟨next, root.toList ++ head.roots, _⟩ ran
          exact ⟨last, .head (.branch waits seen stepped) turns, ended⟩

/-- What a solve has after so many turns of its loop, unless it fails before. -/
def Controller.frameAfter? (c : Controller α) (p : Integer.Program α) (oracle : Oracle σ α) (state : σ)
    (turns : Nat) : Option (Frame σ α) :=
  match opening p { controller := c.reset p.vars, oracle := state } with
  | .error _ _ => none
  | .ok _ frame =>
    match explore p oracle turns none frame with
    | .error _ _ => none
    | .ok _ last => some last

theorem reached_of_frameAfter? {c : Controller α} {state : σ} {turns : Nat} {last : Frame σ α}
    (after : c.frameAfter? p oracle state turns = some last) :
    ∃ head, Reached c p oracle state head ∧ head.frame = last := by
  unfold Controller.frameAfter? at after
  split at after
  · cases after
  · rename_i frame opened
    split at after
    · cases after
    · rename_i explored
      cases after
      obtain ⟨head, passed, same, -⟩ := turns_of_explore { frame } explored
      exact ⟨head, ⟨frame, opened, passed⟩, same⟩

end Loop

/-! ### What a turn does -/

/-- A path and the node at its end, as a head finds them. -/
structure Standing (vars : Nat) (path : Path α) (n : Node α) : Prop where
  sound : path.Sound
  held : path.Held vars
  placed : n.At path
  fresh : n.Fresh

/-- The head before the visit of node `n` at the end of a path. -/
def Head.on (c : Controller α) (path : Path α) (n : Node α) (t : Trail σ α) (log : Array (Event α))
    (leaves : List (System α)) : Head σ α :=
  ⟨⟨(c.headAt path n).carry t, t.oracle, log⟩, [], leaves⟩

def Head.finished (c : Controller α) (n : Node α) (t : Trail σ α) (log : Array (Event α)) (root : Outcome)
    (leaves : List (System α)) : Head σ α :=
  ⟨⟨(c.atPath .root n).carry t, t.oracle, log⟩, [root], leaves⟩

/-- What can follow the head on a path. -/
inductive Next (p : Integer.Program α) (oracle : Oracle σ α) (c : Controller α) (path : Path α) (t : Trail σ α)
    (leaves : List (System α)) : Head σ α → Prop
  | split {var value n t' log}
      (looked : look p oracle c.settings path.rows path.depth t = (.ok (.split var value), t'))
      (standing : Standing p.vars (.down (.opened n path.depth var value) path)
        (n.child (2 * path.depth + 1) .ceil (2 * path.depth))) :
    Next p oracle c path t leaves (.on c (.down (.opened n path.depth var value) path)
      (n.child (2 * path.depth + 1) .ceil (2 * path.depth)) t' log leaves)
  | turned {outcome combined level above n t' log}
      (looked : look p oracle c.settings path.rows path.depth t = (.ok (.closed outcome), t'))
      (climbs : path.climb? = some (level, above))
      (standing : Standing p.vars (.down (level.turn n combined) above) level.other) :
    Next p oracle c path t leaves (.on c (.down (level.turn n combined) above) level.other t' log
      (leaves ++ [⟨p, path.rows⟩]))
  | finished {outcome combined n t' log}
      (looked : look p oracle c.settings path.rows path.depth t = (.ok (.closed outcome), t'))
      (top : path.climb? = none) (placed : n.At .root) :
    Next p oracle c path t leaves (.finished c n t' log combined (leaves ++ [⟨p, path.rows⟩]))

section Cases
variable {p : Integer.Program α} {oracle : Oracle σ α} {c : Controller α} {path : Path α} {n : Node α}
  {t t' : Trail σ α} {log : Array (Event α)} {leaves : List (System α)} {head : Head σ α}

theorem systemAt_headAt (id : Nat) :
    ((c.headAt path n).carry t).systemAt? p id =
      ((path.nodes n)[id]?.bind fun m => (⟨path.store.toArray⟩ : RowStore α).chain? m.tip).map (System.mk p) := by
  have read : ((c.headAt path n).carry t).nodes[id]? = (path.nodes n)[id]? := List.getElem?_toArray ..
  unfold Controller.systemAt?
  rw [read, Option.map_bind]
  rfl

theorem systemAt_on (standing : Standing p.vars path n) :
    ((c.headAt path n).carry t).systemAt? p path.id = some ⟨p, path.rows⟩ := by
  rw [systemAt_headAt, path.nodes_getElem?, Option.bind_some, standing.placed.tip, path.chain_path]
  rfl

omit [Scalar α] in
theorem standing_root (vars : Nat) : Standing vars (.root : Path α) .root :=
  ⟨trivial, trivial, root_at, rfl, rfl, rfl⟩

omit [Scalar α] in
theorem Standing.opened (standing : Standing p.vars path n) {n' : Node α} (placed : n'.At path) (fresh : n'.Fresh)
    {var : Nat} (inside : var < p.vars) (value : α) :
    Standing p.vars (.down (.opened n' path.depth var value) path)
      (n'.child (2 * path.depth + 1) .ceil (2 * path.depth)) where
  sound := ⟨opened_sound placed fresh var value, standing.sound⟩
  held := Path.held_opened standing.held placed inside value
  placed := child_at (Level.opened n' path.depth var value) placed
  fresh := child_fresh _ _ _ _

omit [Scalar α] in
theorem Standing.turned (standing : Standing p.vars path n) {level : Level α} {above : Path α} {n' : Node α}
    (climbs : path.climb? = some (level, above)) (placed : n'.At (.down level above)) (outcome : Outcome) :
    Standing p.vars (.down (level.turn n' outcome) above) level.other := by
  obtain ⟨ceilSide, sound, held⟩ := Path.climb_some climbs
  have sound := sound standing.sound
  have held := held _ standing.held
  have other := held.2.1
  rw [ceilSide] at other
  refine ⟨⟨turn_sound sound.1 ceilSide placed outcome, sound.2⟩, Path.held_turn held ceilSide placed outcome,
    ⟨other.id, other.parent, other.side, other.depth, other.tip⟩, held.2.2.1 ceilSide⟩

/-- A leaf passes its outcome upward: the floor side of an open split comes next, or nothing. -/
theorem next_of_closed (leaves : List (System α)) (standing : Standing p.vars path n) {outcome : Outcome}
    {root : Option Outcome} {frame : Frame σ α} {status : NodeStatus} {bound : Option α}
    (looked : look p oracle c.settings path.rows path.depth t = (.ok (.closed outcome), t'))
    (visited : Gives (visit p oracle path.id) ((c.atPath path n).carry t) t.oracle (.ok (some outcome))
      ((c.atPath path { n with status, bound }).carry t') t'.oracle)
    (stepped : step p oracle path.id ⟨(c.atPath path n).carry t, t.oracle, log⟩ = .ok root frame) :
    Next p oracle c path t leaves ⟨frame, root.toList ++ [], leaves ++ [⟨p, path.rows⟩]⟩ := by
  have placed : ({ n with status, bound } : Node α).At path := standing.placed.of_place rfl
  have through : ∀ {root c₁}, Gives (fold path.id path.id outcome)
      ((c.atPath path { n with status, bound }).carry t') t'.oracle (.ok root) c₁ t'.oracle →
      Gives (step p oracle path.id) ((c.atPath path n).carry t) t.oracle (.ok root) c₁ t'.oracle :=
    fun folded => visited.bind (folded.bind ((gives_tellHowFar _ _).bind (gives_pure _ _ _)))
  rcases fold_climb (c := c) (t := t') (s := t'.oracle) standing.sound placed path.depth_le_id outcome with
    ⟨n', combined, top, rooted, folded⟩ | ⟨level, above, n', combined, climbs, placed', folded⟩
  · obtain ⟨same, log', rfl⟩ := (through folded).of_ok stepped
    obtain rfl := Except.ok.inj same
    exact .finished looked top rooted
  · obtain ⟨same, log', rfl⟩ := (through folded).of_ok stepped
    obtain rfl := Except.ok.inj same
    exact .turned looked climbs (standing.turned climbs placed' combined)

theorem turn_cases (standing : Standing p.vars path n) (turn : Turn p oracle (.on c path n t log leaves) head) :
    Next p oracle c path t leaves head := by
  have popped : ∀ {id rest}, (Head.on c path n t log leaves).frame.controller.waiting = id :: rest →
      id = path.id ∧ (Head.on c path n t log leaves).frame.pop rest = ⟨(c.atPath path n).carry t, t.oracle, log⟩ := by
    intro id rest waits
    obtain ⟨rfl, rfl⟩ := List.cons.inj waits
    exact ⟨rfl, rfl⟩
  rcases looked : look p oracle c.settings path.rows path.depth t with ⟨verdict, t'⟩
  obtain ⟨result, c', visited, ran⟩ := gives_visit_path standing.placed looked
  cases turn with
  | leaf waits closed stepped =>
    obtain ⟨rfl, same⟩ := popped waits
    rw [same] at closed stepped
    obtain ⟨rfl, -⟩ := ran.of_ok closed
    cases visited with
    | closed outcome status bound =>
      rw [atPath_put] at ran
      have system := systemAt_on (c := c) (t := t) standing
      have next := next_of_closed leaves standing looked ran stepped
      show Next p oracle c path t leaves ⟨_, _, leaves ++ (((c.headAt path n).carry t).systemAt? p path.id).toList⟩
      rw [system]
      exact next
  | branch waits split stepped =>
    obtain ⟨rfl, same⟩ := popped waits
    rw [same] at split stepped
    obtain ⟨rfl, -⟩ := ran.of_ok split
    cases visited with
    | split var value bound =>
      have placed : ({ n with bound } : Node α).At path := standing.placed.of_place rfl
      have fresh : ({ n with bound } : Node α).Fresh :=
        ⟨standing.fresh.firstChild, standing.fresh.ceilOutcome, standing.fresh.floorOutcome⟩
      rw [atPath_divide c path n _ var value placed] at ran
      have gives : Gives (step p oracle path.id) ((c.atPath path n).carry t) t.oracle (.ok none) _ t'.oracle :=
        ran.bind ((gives_pure _ _ _).bind ((gives_tellHowFar _ _).bind (gives_pure _ _ _)))
      obtain ⟨same, log', rfl⟩ := gives.of_ok stepped
      obtain rfl := Except.ok.inj same
      exact .split looked (standing.opened placed fresh (Recursion.inside_of_split looked) value)

end Cases

/-! ### All heads -/

inductive AtHead (vars : Nat) (c : Controller α) : Head σ α → Prop
  | on {path n t log leaves} (standing : Standing vars path n) : AtHead vars c (.on c path n t log leaves)
  | finished {n t log root leaves} (placed : n.At .root) : AtHead vars c (.finished c n t log root leaves)

section Reached
variable {c : Controller α} {p : Integer.Program α} {oracle : Oracle σ α} {state : σ} {head : Head σ α}

theorem Next.atHead {path : Path α} {t : Trail σ α} {leaves : List (System α)}
    (next : Next p oracle c path t leaves head) : AtHead p.vars c head := by
  cases next with
  | split _ standing => exact .on standing
  | turned _ _ standing => exact .on standing
  | finished _ _ placed => exact .finished placed

/-- What holds at the first head and is kept by every turn holds at every head of a solve. -/
theorem Reached.invariant {P : Head σ α → Prop}
    (first : ∀ log, P (.on (c.reset p.vars) .root .root (Recursion.start p state) log []))
    (kept : ∀ {path n t log leaves head}, Standing p.vars path n → P (.on (c.reset p.vars) path n t log leaves) →
      Next p oracle (c.reset p.vars) path t leaves head → P head)
    (reached : Reached c p oracle state head) : AtHead p.vars (c.reset p.vars) head ∧ P head := by
  obtain ⟨frame, opened, turns⟩ := reached
  induction turns with
  | refl =>
    obtain ⟨-, log, rfl⟩ := (gives_opening c p state).of_ok opened
    exact ⟨.on (standing_root _), first log⟩
  | tail _ turn ih =>
    obtain ⟨at_, holds⟩ := ih
    cases at_ with
    | on standing =>
      have next := turn_cases standing turn
      exact ⟨next.atHead, kept standing holds next⟩
    | finished placed =>
      -- nothing waits there, so no turn follows
      cases turn with
      | leaf waits _ _ => cases waits
      | branch waits _ _ => cases waits

theorem Reached.atHead (reached : Reached c p oracle state head) : AtHead p.vars (c.reset p.vars) head :=
  (reached.invariant (P := fun _ => True) (fun _ => trivial) (fun _ _ _ => trivial)).1

/-- A solve that returns has reached the finished head of its last leaf. -/
theorem finished_of_solve {solution : Solution α} (solved : (c.solve p oracle state).result = .ok solution) :
    ∃ head, Reached c p oracle state head ∧ head.frame.controller.waiting = [] ∧
      head.frame.controller = (c.solve p oracle state).controller := by
  obtain ⟨valid, sound⟩ := valid_of_solve solved
  obtain ⟨c', ran⟩ := gives_search c p oracle state
  obtain ⟨result, controller, -⟩ := solve_of_gives valid sound ran
  obtain ⟨log, ran⟩ := ran #[]
  rw [← result, solved, ← controller, search] at ran
  obtain ⟨_, _, read, ran⟩ := bind_eq_ok ran
  cases read
  obtain ⟨_, frame, opened, ran⟩ := bind_eq_ok ran
  obtain ⟨found, last, explored, ran⟩ := bind_eq_ok ran
  obtain ⟨head, turns, rfl, rfl⟩ := turns_of_explore { frame } explored
  have reached : Reached c p oracle state head := ⟨frame, opened, turns⟩
  refine ⟨head, reached, ?_⟩
  cases reached.atHead with
  | on _ => cases ran
  | finished _ =>
    obtain ⟨-, _, same⟩ := (gives_conclude _ _ _ _).of_ok ran
    exact ⟨rfl, (congrArg Frame.controller same).symm⟩

end Reached

/-! ### Systems of a head -/

section Systems
variable {c : Controller α} {p : Integer.Program α} {oracle : Oracle σ α} {path : Path α} {n : Node α}
  {t : Trail σ α} {log : Array (Event α)} {leaves : List (System α)} {head : Head σ α}

theorem systems_on (standing : Standing p.vars path n) :
    (Head.on c path n t log leaves).systems p =
      leaves ++ (path.rows :: path.pendingRows).map (System.mk p) := by
  have own := systemAt_on (c := c) (t := t) standing
  have chains := congrArg (List.map (Option.map (System.mk p))) (Path.chains_pending standing.held n [] [])
  have waiting : path.pending.filterMap (((c.headAt path n).carry t).systemAt? p) =
      path.pendingRows.map (System.mk p) := by
    simp only [List.append_nil, List.map_map, Function.comp_def, ← systemAt_headAt (c := c) (t := t)] at chains
    have found := congrArg (List.filterMap fun s => s) chains
    simpa only [List.filterMap_map, Function.comp_def, Option.map_some, List.filterMap_eq_map'] using found
  show leaves ++ (path.id :: path.pending).filterMap (((c.headAt path n).carry t).systemAt? p) = _
  rw [List.filterMap_cons_some own, waiting]
  rfl

/-- A turn leaves the systems as they are, or puts those of the two sides of a split in place of one. -/
theorem Next.systems (next : Next p oracle c path t leaves head) :
    head.systems p = leaves ++ (path.rows :: path.pendingRows).map (System.mk p) ∨
      ∃ var value t', look p oracle c.settings path.rows path.depth t = (.ok (.split var value), t') ∧
        head.systems p = leaves ++ ((path.rows ++ [.split .ceil var value]) ::
          (path.rows ++ [.split .floor var value]) :: path.pendingRows).map (System.mk p) := by
  cases next with
  | split looked standing => exact Or.inr ⟨_, _, _, looked, systems_on standing⟩
  | turned _ climbs standing =>
    refine Or.inl ((systems_on standing).trans ?_)
    rw [Path.pendingRows_of_climb climbs, List.append_assoc]
    rfl
  | finished _ top _ =>
    rw [Path.pendingRows_of_climb_none top]
    exact Or.inl (List.append_nil _)

end Systems

end Turns

end BranchBound.Search
