import BranchBound.Proofs.NodeCounts
import BranchBound.Proofs.Reuse
import BranchBound.Proofs.RowChains

/-!
# Termination

A search ends whatever its oracle answers (`solve_terminates`). Each turn of its loop takes one node from the
waiting list and each split adds two, of which there are no more than the node budget allows (`Paced`). The two
inner loops go down: an outcome that is handed up stands at smaller and smaller ids and depths (`Rise`), and the
links of the branch rows lead to earlier rows (`RowStore.Ordered`).
-/

namespace BranchBound.Search

open Integer (BranchRow System)
open Recursion (Trail Explored look)

variable {σ α : Type}

/-! ### Links of the branch rows -/

theorem Path.tip_lt {path : Path α} {tip : Nat} (last : path.tip = some tip) : tip < 2 * path.depth := by
  cases path with
  | root => cases last
  | down level above =>
    have small : offset level.side ≤ 1 := by cases level.side <;> simp [offset]
    obtain rfl := Option.some.inj last
    rw [Path.depth]
    omega

theorem Path.id_above (level : Level α) (above : Path α) : above.id < (Path.down level above).id := by
  have small := above.id_lt
  rw [Path.id]
  omega

section Rows
variable [Scalar α]

theorem Path.ordered (path : Path α) : (⟨path.store.toArray⟩ : RowStore α).Ordered := by
  induction path with
  | root =>
    intro i linked read
    simp [Path.store] at read
  | down level above ih =>
    intro i linked read parent before
    have read : (Path.down level above).store[i]? = some linked := by rwa [← List.getElem?_toArray]
    by_cases early : i < above.store.length
    · rw [Path.store, List.getElem?_append_left early] at read
      exact ih i linked (by rwa [List.getElem?_toArray]) parent before
    · -- both rows of the split are linked to the last row above it
      rw [Path.store, List.getElem?_append_right (not_lt.mp early)] at read
      have linkedTo : linked.parent = above.tip := by
        generalize i - above.store.length = k at read
        obtain _ | _ | k := k
        · rw [← Option.some.inj read]
        · rw [← Option.some.inj read]
        · cases read
      have earlier := Path.tip_lt (linkedTo.symm.trans before)
      rw [Path.length_store] at early
      omega

end Rows

/-! ### Handing an outcome up -/

/-- An outcome on its way up, at the node with a given id. -/
structure Rise (σ α : Type) where
  id : Nat
  outcome : Outcome
  frame : Frame σ α

/-- One round brings the outcome to the parent, which it resolves. -/
inductive Rise.Round : Rise σ α → Rise σ α → Prop
  | mk {id outcome frame parent combined next} (handed : handUp id outcome frame = .ok (.resolved parent combined) next) :
    Round ⟨id, outcome, frame⟩ ⟨parent, combined, next⟩

/-- The id and the depth of the node are both smaller in `later`. -/
def Rise.Above (earlier later : Rise σ α) : Prop :=
  later.id < earlier.id ∧ ∃ n m : Node α, earlier.frame.controller.nodes[earlier.id]? = some n ∧
    later.frame.controller.nodes[later.id]? = some m ∧ m.depth < n.depth

/-- Every round from here goes to a smaller id and depth, and there are as many rounds as the id at most. -/
structure Rise.Ends (rise : Rise σ α) : Prop where
  falls : ∀ earlier later, Relation.ReflTransGen Round rise earlier → Round earlier later → earlier.Above later
  result : ∃ root last, ∀ fuel, rise.id ≤ fuel → fold fuel rise.id rise.outcome rise.frame = .ok root last

section Fold

theorem fold_more {fuel fuel' id : Nat} {outcome : Outcome} {root : Option Outcome} {frame last : Frame σ α}
    (more : fuel ≤ fuel') (ended : fold fuel id outcome frame = .ok root last) :
    fold fuel' id outcome frame = .ok root last := by
  induction fuel generalizing fuel' id outcome frame with
  | zero =>
    rw [fold.eq_def] at ended ⊢
    obtain ⟨handed, next, ran, ended⟩ := bind_eq_ok ended
    show EStateM.bind (handUp id outcome) _ frame = _
    unfold EStateM.bind
    rw [ran]
    cases handed with
    | ended _ => exact ended
    | resolved _ _ => cases ended
  | succ fuel ih =>
    obtain ⟨fuel', rfl⟩ : ∃ k, fuel' = k + 1 := ⟨fuel' - 1, by omega⟩
    rw [fold.eq_def] at ended ⊢
    obtain ⟨handed, next, ran, ended⟩ := bind_eq_ok ended
    show EStateM.bind (handUp id outcome) _ frame = _
    unfold EStateM.bind
    rw [ran]
    cases handed with
    | ended _ => exact ended
    | resolved _ _ => exact ih (by omega) ended

/-- An outcome at the end of a path whose node is in its place. -/
inductive Rise.OnPath [Scalar α] (c : Controller α) (t : Trail σ α) (s : σ) : Path α → Rise σ α → Prop
  | mk {path n outcome log} (sound : path.Sound) (placed : n.At path) :
    OnPath c t s path ⟨path.id, outcome, ⟨(c.atPath path n).carry t, s, log⟩⟩

variable [Scalar α] {c : Controller α} {path : Path α} {t : Trail σ α} {s : σ} {rise next : Rise σ α}

/-- A round goes from the end of a path to the path above. -/
theorem Rise.OnPath.round (standing : OnPath c t s path rise) (round : Round rise next) :
    ∃ level above, path = .down level above ∧ OnPath c t s above next := by
  cases standing with
  | @mk n outcome log sound placed =>
    cases round with
    | mk handed =>
      cases path with
      | root =>
        obtain ⟨same, -⟩ := (handUp_root placed outcome).of_ok handed
        cases same
      | down level above =>
        cases resolved : level.ceil with
        | none =>
          have ceilSide : level.side = .ceil := by unfold Level.side; rw [resolved]
          obtain ⟨same, -⟩ := (handUp_ceil sound.1 ceilSide placed outcome).of_ok handed
          cases same
        | some first =>
          obtain ⟨same, log', rfl⟩ := (handUp_floor sound.1 resolved placed outcome).of_ok handed
          cases same
          exact ⟨level, above, rfl, .mk sound.2 (sound.1.node.of_place rfl)⟩

theorem Rise.OnPath.node (standing : OnPath c t s path rise) :
    rise.id = path.id ∧ ∃ n, rise.frame.controller.nodes[rise.id]? = some n ∧ n.depth = path.depth := by
  cases standing with
  | @mk n outcome log sound placed => exact ⟨rfl, n, atPath_node c path n, placed.depth⟩

theorem Rise.OnPath.above {level : Level α} {above : Path α} (standing : OnPath c t s (.down level above) rise)
    (higher : OnPath c t s above next) : rise.Above next := by
  obtain ⟨id, n, read, depth⟩ := standing.node
  obtain ⟨id', m, read', depth'⟩ := higher.node
  refine ⟨?_, n, m, read, read', ?_⟩
  · rw [id, id']
    exact above.id_above level
  · rw [depth, depth', Path.depth]
    omega

theorem Rise.OnPath.rounds (standing : OnPath c t s path rise) (rounds : Relation.ReflTransGen Round rise next) :
    ∃ path, OnPath c t s path next := by
  induction rounds with
  | refl => exact ⟨path, standing⟩
  | tail _ round ih =>
    obtain ⟨path, standing⟩ := ih
    obtain ⟨_, above, -, standing⟩ := standing.round round
    exact ⟨above, standing⟩

theorem Rise.OnPath.ends (standing : OnPath c t s path rise) : rise.Ends where
  falls earlier later rounds round := by
    obtain ⟨path, standing⟩ := standing.rounds rounds
    obtain ⟨level, above, rfl, higher⟩ := standing.round round
    exact standing.above higher
  result := by
    cases standing with
    | @mk n outcome log sound placed =>
      rcases fold_climb (c := c) (t := t) (s := s) sound placed path.depth_le_id outcome with
        ⟨_, _, _, _, folded⟩ | ⟨_, _, _, _, _, _, folded⟩
      · obtain ⟨log', folded⟩ := folded log
        exact ⟨_, _, fun fuel enough => fold_more enough folded⟩
      · obtain ⟨log', folded⟩ := folded log
        exact ⟨_, _, fun fuel enough => fold_more enough folded⟩

end Fold

/-! ### Turns of the loop -/

section Turns
variable [Scalar α]

/-- Heads that are `count` turns of the loop apart. -/
inductive Turns (p : Integer.Program α) (oracle : Oracle σ α) (head : Head σ α) : Nat → Head σ α → Prop
  | refl : Turns p oracle head 0 head
  | tail {count next last} (turns : Turns p oracle head count next) (turn : Turn p oracle next last) :
    Turns p oracle head (count + 1) last

def ReachedIn (c : Controller α) (p : Integer.Program α) (oracle : Oracle σ α) (state : σ) (count : Nat)
    (head : Head σ α) : Prop :=
  ∃ frame, opening p { controller := c.reset p.vars, oracle := state } = .ok () frame ∧
    Turns p oracle { frame } count head

section Count
variable {p : Integer.Program α} {oracle : Oracle σ α} {count count' : Nat} {head next last last' : Head σ α}

theorem Turns.reflTransGen (turns : Turns p oracle head count last) :
    Relation.ReflTransGen (Turn p oracle) head last := by
  induction turns with
  | refl => exact .refl
  | tail _ turn ih => exact ih.tail turn

theorem exists_turns (turns : Relation.ReflTransGen (Turn p oracle) head last) :
    ∃ count, Turns p oracle head count last := by
  induction turns with
  | refl => exact ⟨0, .refl⟩
  | tail _ turn ih =>
    obtain ⟨count, turns⟩ := ih
    exact ⟨count + 1, turns.tail turn⟩

theorem Turns.cons (turn : Turn p oracle head next) (turns : Turns p oracle next count last) :
    Turns p oracle head (count + 1) last := by
  induction turns with
  | refl => exact Turns.refl.tail turn
  | tail _ later ih => exact ih.tail later

theorem Turn.unique (turn : Turn p oracle head last) (turn' : Turn p oracle head last') : last = last' := by
  cases turn with
  | leaf waits closed stepped =>
    cases turn' with
    | leaf waits' _ stepped' =>
      cases waits.symm.trans waits'
      cases stepped.symm.trans stepped'
      rfl
    | branch waits' split _ =>
      cases waits.symm.trans waits'
      cases closed.symm.trans split
  | branch waits split stepped =>
    cases turn' with
    | leaf waits' closed _ =>
      cases waits.symm.trans waits'
      cases split.symm.trans closed
    | branch waits' _ stepped' =>
      cases waits.symm.trans waits'
      cases stepped.symm.trans stepped'
      rfl

theorem Turns.unique (turns : Turns p oracle head count last) (turns' : Turns p oracle head count last') :
    last = last' := by
  induction turns generalizing last' with
  | refl =>
    cases turns'
    rfl
  | tail _ turn ih =>
    cases turns' with
    | tail before turn' =>
      obtain rfl := ih before
      exact turn.unique turn'

/-- No turn follows a head where nothing waits, so no run is longer than the one to it. -/
theorem Turns.le_of_empty (turns : Turns p oracle head count last) (empty : last.frame.controller.waiting = [])
    (turns' : Turns p oracle head count' last') : count' ≤ count := by
  induction turns' with
  | refl => exact Nat.zero_le _
  | tail before turn short =>
    rcases short.eq_or_lt with rfl | shorter
    · obtain rfl := turns.unique before
      cases turn with
      | leaf waits _ _ => cases empty.symm.trans waits
      | branch waits _ _ => cases empty.symm.trans waits
    · exact shorter

end Count

/-! ### The number of turns -/

/-- After `count` turns: the nodes taken and the nodes that wait are the root and two for each split, and the
splits are within the node budget. -/
structure Head.Paced (budget count : Nat) (head : Head σ α) : Prop where
  nodes : count + head.frame.controller.waiting.length = 2 * head.frame.controller.counters.branched + 1
  branched : head.frame.controller.counters.branched ≤ head.frame.controller.counters.explored
  explored : head.frame.controller.counters.explored ≤ budget

section Paced
variable {c : Controller α} {p : Integer.Program α} {oracle : Oracle σ α} {path above : Path α} {level : Level α}
  {n : Node α} {t t' : Trail σ α} {log : Array (Event α)} {leaves : List (System α)} {count : Nat} {head : Head σ α}

omit [Scalar α] in
theorem Path.pending_of_climb (next : path.climb? = some (level, above)) :
    path.pending = (2 * above.depth + 2) :: above.pending := by
  induction path with
  | root => cases next
  | down last before ih =>
    cases side : last.side <;> simp only [Path.climb?, Path.pending, side] at next ⊢
    · cases next
      rfl
    · exact ih next

omit [Scalar α] in
theorem Path.pending_of_climb_none (top : path.climb? = none) : path.pending = [] := by
  induction path with
  | root => rfl
  | down level above ih =>
    cases side : level.side <;> simp only [Path.climb?, Path.pending, side] at top ⊢
    · cases top
    · exact ih top

theorem explored_of_closed {outcome : Outcome} {settings : Integer.Settings α} {rows : List (BranchRow α)} {depth : Nat}
    (looked : look p oracle settings rows depth t = (.ok (.closed outcome), t')) :
    t'.counters.branched = t.counters.branched ∧ t.counters.explored ≤ t'.counters.explored ∧
      t'.counters.explored ≤ max t.counters.explored settings.maxNodes :=
  ⟨Recursion.branched_look looked, Recursion.explored_look looked, Recursion.explored_look_le looked⟩

theorem Next.paced (next : Next p oracle c path t leaves head)
    (paced : (Head.on c path n t log leaves).Paced c.settings.maxNodes count) :
    head.Paced c.settings.maxNodes (count + 1) := by
  obtain ⟨nodes, branched, explored⟩ := paced
  have nodes : count + (path.pending.length + 1) = 2 * t.counters.branched + 1 := nodes
  have branched : t.counters.branched ≤ t.counters.explored := branched
  have explored : t.counters.explored ≤ c.settings.maxNodes := explored
  cases next with
  | @split var value n' t' log' looked standing =>
    have more : t'.counters.branched = t.counters.branched + 1 := Recursion.branched_look looked
    have used := Recursion.explored_of_split looked
    refine ⟨?_, ?_, ?_⟩
    · show count + 1 + (path.pending.length + 2) = 2 * t'.counters.branched + 1
      omega
    · show t'.counters.branched ≤ t'.counters.explored
      omega
    · show t'.counters.explored ≤ c.settings.maxNodes
      omega
  | @turned outcome combined level above n' t' log' looked climbs standing =>
    obtain ⟨same, later, within⟩ := explored_of_closed looked
    rw [Path.pending_of_climb climbs, List.length_cons] at nodes
    refine ⟨?_, ?_, ?_⟩
    · show count + 1 + (above.pending.length + 1) = 2 * t'.counters.branched + 1
      omega
    · show t'.counters.branched ≤ t'.counters.explored
      omega
    · show t'.counters.explored ≤ c.settings.maxNodes
      omega
  | @finished outcome combined n' t' log' looked top placed =>
    obtain ⟨same, later, within⟩ := explored_of_closed looked
    rw [Path.pending_of_climb_none top, List.length_nil] at nodes
    refine ⟨?_, ?_, ?_⟩
    · show count + 1 + 0 = 2 * t'.counters.branched + 1
      omega
    · show t'.counters.branched ≤ t'.counters.explored
      omega
    · show t'.counters.explored ≤ c.settings.maxNodes
      omega

end Paced

section Reached
variable {c : Controller α} {p : Integer.Program α} {oracle : Oracle σ α} {state : σ} {count : Nat} {head : Head σ α}

theorem ReachedIn.reached (reached : ReachedIn c p oracle state count head) : Reached c p oracle state head := by
  obtain ⟨frame, opened, turns⟩ := reached
  exact ⟨frame, opened, turns.reflTransGen⟩

theorem ReachedIn.paced (reached : ReachedIn c p oracle state count head) : head.Paced c.settings.maxNodes count := by
  obtain ⟨frame, opened, turns⟩ := reached
  induction turns with
  | refl =>
    obtain ⟨-, log, rfl⟩ := (gives_opening c p state).of_ok opened
    exact ⟨rfl, le_refl _, Nat.zero_le _⟩
  | @tail count next last before turn ih =>
    have reached : Reached c p oracle state next := ⟨frame, opened, before.reflTransGen⟩
    cases reached.atHead with
    | on standing => exact (turn_cases standing turn).paced ih
    | finished _ =>
      cases turn with
      | leaf waits _ _ => cases waits
      | branch waits _ _ => cases waits

theorem ReachedIn.le_budget (reached : ReachedIn c p oracle state count head) :
    count + head.frame.controller.waiting.length ≤ 2 * c.settings.maxNodes + 1 := by
  obtain ⟨nodes, branched, explored⟩ := reached.paced
  omega

/-- Fuel for as many turns as there can be is enough: more of it changes nothing. -/
theorem explore_more (head : Head σ α) {fuel more : Nat} {found : Option Outcome}
    (enough : ∀ count last, Turns p oracle head count last → last.frame.controller.waiting ≠ [] → count < fuel) :
    explore p oracle (fuel + more) found head.frame = explore p oracle fuel found head.frame := by
  induction fuel generalizing head found with
  | zero =>
    have empty : head.frame.controller.waiting = [] := by
      by_contra waits
      exact Nat.not_lt_zero 0 (enough 0 head .refl waits)
    cases more with
    | zero => rfl
    | succ more =>
      rw [Nat.zero_add, explore_succ, empty]
      rfl
  | succ fuel ih =>
    rw [Nat.succ_add, explore_succ, explore_succ]
    cases waits : head.frame.controller.waiting with
    | nil => rfl
    | cons id rest =>
      dsimp only
      cases stepped : step p oracle id (head.frame.pop rest) with
      | error e next => rfl
      | ok root next =>
        dsimp only
        obtain ⟨resolved, visited, seen, -⟩ := bind_eq_ok stepped
        obtain ⟨head', same, turn⟩ : ∃ head', head'.frame = next ∧ Turn p oracle head head' := by
          cases resolved with
          | some outcome => exact ⟨_, rfl, .leaf waits seen stepped⟩
          | none => exact ⟨_, rfl, .branch waits seen stepped⟩
        subst same
        apply ih
        intro count last turns waits
        have less := enough (count + 1) last (.cons turn turns) waits
        omega

/-- The inner loops of a turn end: the chain of branch rows of any node, and the rise of an outcome. -/
structure Head.InnerLoopsEnd (p : Integer.Program α) (oracle : Oracle σ α) (head : Head σ α) : Prop where
  rows : head.frame.controller.store.Ordered
  chains : ∀ tip, ∃ rows : List (BranchRow α), rows.length ≤ head.frame.controller.store.rows.size ∧
    ∀ fuel, head.frame.controller.store.rows.size ≤ fuel → head.frame.controller.store.walk fuel tip [] = some rows
  rises : ∀ id rest outcome visited, head.frame.controller.waiting = id :: rest →
    visit p oracle id (head.frame.pop rest) = .ok (some outcome) visited → Rise.Ends ⟨id, outcome, visited⟩

theorem Reached.ordered (reached : Reached c p oracle state head) : head.frame.controller.store.Ordered := by
  cases reached.atHead with
  | @on path _ _ _ _ _ => exact path.ordered
  | finished _ => exact (Path.root : Path α).ordered

theorem Reached.rises (reached : Reached c p oracle state head) {id : Nat} {rest : List Nat} {outcome : Outcome}
    {visited : Frame σ α} (waits : head.frame.controller.waiting = id :: rest)
    (closed : visit p oracle id (head.frame.pop rest) = .ok (some outcome) visited) :
    Rise.Ends ⟨id, outcome, visited⟩ := by
  cases reached.atHead with
  | finished _ => cases waits
  | @on path n t log leaves standing =>
    obtain ⟨rfl, rfl⟩ := List.cons.inj waits
    rcases looked : look p oracle (c.reset p.vars).settings path.rows path.depth t with ⟨verdict, t'⟩
    obtain ⟨result, c', left, ran⟩ := gives_visit_path standing.placed looked
    obtain ⟨rfl, log', rfl⟩ := ran.of_ok closed
    cases left with
    | closed outcome status bound =>
      rw [atPath_put]
      have placed : ({ n with status, bound } : Node α).At path := standing.placed.of_place rfl
      exact Rise.OnPath.ends (.mk standing.sound placed)

theorem Reached.innerLoopsEnd (reached : Reached c p oracle state head) : head.InnerLoopsEnd p oracle where
  rows := reached.ordered
  chains tip := reached.ordered.chain tip
  rises _ _ _ _ waits closed := reached.rises waits closed

end Reached

/-! ### Calls of the oracle -/

section Calls
variable {p : Integer.Program α} {oracle : Oracle σ α} {settings : Integer.Settings α} {rows : List (BranchRow α)}
  {depth : Nat} {t t' : Trail (σ × List (Oracle.Call α)) α}

/-- The calls so far are the nodes explored, within the node budget. -/
def WithinCalls (budget : Nat) (t : Trail (σ × List (Oracle.Call α)) α) : Prop :=
  t.oracle.2.length = t.counters.explored ∧ t.counters.explored ≤ budget

theorem withinCalls_look {verdict : Recursion.Verdict α}
    (looked : look p oracle.recorded settings rows depth t = (.ok verdict, t'))
    (within : WithinCalls settings.maxNodes t) : WithinCalls settings.maxNodes t' := by
  have grown := Recursion.explored_look_le looked
  rw [max_eq_right within.2] at grown
  exact ⟨length_calls_look looked within.1, grown⟩

theorem length_calls_look_le {verdict : Except (Error α) (Recursion.Verdict α)}
    (looked : look p oracle.recorded settings rows depth t = (verdict, t'))
    (within : WithinCalls settings.maxNodes t) : t'.oracle.2.length ≤ settings.maxNodes := by
  cases verdict with
  | ok verdict =>
    obtain ⟨counted, few⟩ := withinCalls_look looked within
    omega
  | error e =>
    -- a call that fails is not counted, but it was within the budget
    have asked : (t.ask oracle.recorded ⟨p, rows⟩).oracle.2.length = t.counters.explored + 1 :=
      congrArg (· + 1) within.1
    cases Recursion.looked_of_look looked with
    | refused left _ => exact asked.trans_le left
    | wrongLength left _ _ => exact asked.trans_le left

theorem length_calls_explored {result : Except (Error α) Outcome}
    (explored : Explored p oracle.recorded settings rows depth t result t')
    (within : WithinCalls settings.maxNodes t) : t'.oracle.2.length ≤ settings.maxNodes := by
  have kept : ∀ {rows depth t outcome t'}, Explored p oracle.recorded settings rows depth t (.ok outcome) t' →
      WithinCalls settings.maxNodes t → WithinCalls settings.maxNodes t' := fun explored =>
    explored.ok_invariant fun _ _ _ _ _ looked held => withinCalls_look looked held
  induction explored with
  | failed looked => exact length_calls_look_le looked within
  | closed looked => exact length_calls_look_le looked within
  | ceilFailed looked _ ceil => exact ceil (withinCalls_look looked within)
  | floorFailed looked ceilSide _ _ floor => exact floor (kept ceilSide (withinCalls_look looked within))
  | combined looked ceilSide _ _ floor => exact floor (kept ceilSide (withinCalls_look looked within))

variable {c : Controller α} {state : σ}

theorem length_calls_le (c : Controller α) (p : Integer.Program α) (oracle : Oracle σ α) (state : σ) :
    (c.calls p oracle state).length ≤ c.settings.maxNodes := by
  rw [Controller.calls, List.length_reverse]
  by_cases checked : c.settings.isValid = true ∧ p.fault? = none
  · obtain ⟨c', ran⟩ := gives_search c p oracle.recorded (state, [])
    rw [(solve_of_gives checked.1 checked.2 ran).2.2, Recursion.trail_solve]
    apply length_calls_explored (Recursion.explored_explore p oracle.recorded c.settings [] 0 _)
    exact ⟨rfl, Nat.zero_le _⟩
  · have invalid : c.settings.isValid = false ∨ p.fault? ≠ none := by grind
    obtain ⟨e, stopped⟩ := solve_of_invalid invalid
    rw [stopped]
    exact Nat.zero_le _

theorem counters_of_solve {solution : Solution α} (solved : (c.solve p oracle state).result = .ok solution) :
    (c.solve p oracle state).controller.counters = solution.counters := by
  obtain ⟨valid, sound⟩ := valid_of_solve solved
  obtain ⟨c', ran⟩ := gives_search c p oracle state
  obtain ⟨result, controller, -⟩ := solve_of_gives valid sound ran
  rw [result] at solved
  rw [controller]
  show (Recursion.solve p oracle c.settings state).2.counters = _
  unfold Recursion.solve at solved ⊢
  rcases ended : Recursion.explore p oracle c.settings [] 0 (Recursion.start p state) with ⟨_ | outcome, t⟩
  · rw [ended] at solved
    cases solved
  · rw [ended] at solved
    cases solved
    rfl

end Calls

end Turns

/-- A search ends whatever its oracle answers: it asks within the node budget, and its loop takes no more turns
than there are nodes to take, within `2 * maxNodes + 1`, so that more fuel would change nothing. A solve that
returns has taken exactly `2 * branched + 1` turns. At every head of the loop the inner loops end. -/
theorem solve_terminates [Scalar α] (c : Controller α) (p : Integer.Program α) (oracle : Oracle σ α) (state : σ) :
    (c.calls p oracle state).length ≤ c.settings.maxNodes ∧
    (∀ count head, ReachedIn c p oracle state count head →
      count + head.frame.controller.waiting.length = 2 * head.frame.controller.counters.branched + 1 ∧
      head.frame.controller.counters.branched ≤ c.settings.maxNodes ∧ head.InnerLoopsEnd p oracle) ∧
    (∀ frame fuel, opening p { controller := c.reset p.vars, oracle := state } = .ok () frame →
      2 * c.settings.maxNodes + 1 ≤ fuel →
      explore p oracle fuel none frame = explore p oracle (2 * c.settings.maxNodes + 1) none frame) ∧
    ∀ solution, (c.solve p oracle state).result = .ok solution →
      2 * solution.counters.branched + 1 ≤ 2 * c.settings.maxNodes + 1 ∧
      (∃ head, ReachedIn c p oracle state (2 * solution.counters.branched + 1) head ∧
        head.frame.controller.waiting = [] ∧ head.frame.controller = (c.solve p oracle state).controller) ∧
      ∀ count head, ReachedIn c p oracle state count head → count ≤ 2 * solution.counters.branched + 1 := by
  refine ⟨length_calls_le c p oracle state, ?_, ?_, ?_⟩
  · intro count head reached
    obtain ⟨nodes, branched, explored⟩ := reached.paced
    exact ⟨nodes, branched.trans explored, reached.reached.innerLoopsEnd⟩
  · intro frame fuel opened enough
    obtain ⟨more, rfl⟩ := Nat.exists_eq_add_of_le enough
    apply explore_more { frame }
    intro count last turns waits
    have within := ReachedIn.le_budget ⟨frame, opened, turns⟩
    have some := List.length_pos_iff.mpr waits
    omega
  · intro solution solved
    obtain ⟨head, ⟨frame, opened, turns⟩, empty, same⟩ := finished_of_solve solved
    obtain ⟨count, turns⟩ := exists_turns turns
    have reached : ReachedIn c p oracle state count head := ⟨frame, opened, turns⟩
    have taken : count = 2 * solution.counters.branched + 1 := by
      have nodes := reached.paced.nodes
      rw [empty, same, counters_of_solve solved] at nodes
      exact nodes
    subst taken
    refine ⟨(Nat.le_add_right _ _).trans reached.le_budget, ⟨head, reached, empty, same⟩, ?_⟩
    rintro count' head' ⟨frame', opened', turns'⟩
    cases opened.symm.trans opened'
    exact turns.le_of_empty empty turns'

/-- Splits every node, as deep as it is asked. -/
def everFractional : Oracle Unit ℚ :=
  Oracle.byDepth fun depth => .optimal (-1) [depth + 1 / 2]

/-- Three calls split three nodes, and the loop takes seven turns. -/
theorem solve_terminates_ever_fractional :
    ∃ solution : Solution ℚ,
      ((Controller.ofSettings ⟨3, 0, ⟨10, 0, 0⟩, false, 0⟩).solve ⟨[[1]], [4], [-1]⟩ everFractional ()).result =
        .ok solution ∧
      solution.counters.branched = 3 ∧
      ∃ head, ReachedIn (Controller.ofSettings ⟨3, 0, ⟨10, 0, 0⟩, false, 0⟩) ⟨[[1]], [4], [-1]⟩ everFractional () 7 head ∧
        head.frame.controller.waiting = [] ∧ head.InnerLoopsEnd ⟨[[1]], [4], [-1]⟩ everFractional := by
  have solved : ((Controller.ofSettings ⟨3, 0, ⟨10, 0, 0⟩, false, 0⟩).solve ⟨[[1]], [4], [-1]⟩
      everFractional ()).result = .ok ⟨.iterationLimit, ⟨none, [0]⟩, ⟨3, 0, 3, 0, 0, 0, 4, 0, 3, 7, true⟩⟩ := by
    decide +kernel
  obtain ⟨-, heads, -, ends⟩ := solve_terminates (Controller.ofSettings ⟨3, 0, ⟨10, 0, 0⟩, false, 0⟩)
    ⟨[[1]], [4], [-1]⟩ everFractional ()
  obtain ⟨-, ⟨head, reached, empty, -⟩, -⟩ := ends _ solved
  obtain ⟨-, -, inner⟩ := heads 7 head reached
  exact ⟨_, solved, rfl, head, reached, empty, inner⟩

end BranchBound.Search
