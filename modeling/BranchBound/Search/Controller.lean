import BranchBound.Integer.Settings
import BranchBound.Oracle
import BranchBound.Search.Counters
import BranchBound.Search.Incumbent
import BranchBound.Search.Integrality
import BranchBound.Search.Node

/-!
# The search controller

Depth-first branch and bound on an explicit list of waiting nodes. A branched
node puts its two children in front, ceil side first, so that the ceil subtree
is finished before the floor side is looked at. Outcomes are folded upward as
soon as both children of a node are known; the nodes and rows of a resolved
subtree are the newest ones and are dropped.
-/

namespace BranchBound.Search

/-- The state that a controller keeps from solve to solve. -/
structure Controller (α : Type) where
  settings : Integer.Settings α
  incumbent : Incumbent α
  /-- The branch rows of the open nodes. -/
  store : RowStore α := {}
  factory : Factory := {}
  /-- The open nodes, each at the position of its id. -/
  nodes : Array (Node α) := #[]
  /-- The nodes that wait to be visited, next one first. -/
  waiting : List Nat := []
  counters : Counters := {}

/-- A controller at work, with the state of its oracle and the journal. -/
structure Frame (σ α : Type) where
  controller : Controller α
  oracle : σ
  log : Array (Event α) := #[]

/-- A step of a search; a failed one leaves its frame behind. -/
abbrev SearchM (σ α : Type) :=
  EStateM (Error α) (Frame σ α)

def Controller.ofSettings {α : Type} [Scalar α] (settings : Integer.Settings α) : Controller α :=
  { settings, incumbent := .empty 0 }

variable {σ α : Type} [Scalar α]

/-! ### Parts of the frame -/

def controller : SearchM σ α (Controller α) :=
  return (← get).controller

def modifyController (f : Controller α → Controller α) : SearchM σ α Unit :=
  modify fun frame => { frame with controller := f frame.controller }

def count (f : Counters → Counters) : SearchM σ α Unit :=
  modifyController fun c => { c with counters := f c.counters }

def tell (event : Event α) : SearchM σ α Unit :=
  modify fun frame => { frame with log := frame.log.push event }

/-- Tells an event only if the settings ask for progress. -/
def tellProgress (event : Event α) : SearchM σ α Unit := do
  if (← controller).settings.verbose then tell event

def node (id : Nat) : SearchM σ α (Node α) := do
  match (← controller).nodes[id]? with
  | some n => return n
  | none => throw (.internal (.unknownNode id))

/-- Replaces the node at `id`, which must exist. -/
def setNode (id : Nat) (n : Node α) : SearchM σ α Unit := do
  let _ : Node α ← node id
  modifyController fun c => { c with nodes := c.nodes.setIfInBounds id n }

def setStatus (id : Nat) (status : NodeStatus) : SearchM σ α Unit := do
  setNode id { ← node id with status }

/-- Puts a new node at the end of the list, where its id belongs. -/
def addNode (n : Node α) : SearchM σ α Unit := do
  let c ← controller
  unless n.id = c.nodes.size do
    throw (.internal (.outOfOrder n.id c.nodes.size))
  modifyController fun c => { c with nodes := c.nodes.push n }
  count fun k => { k with
    maxDepth := max k.maxDepth n.depth
    peakNodes := max k.peakNodes (c.nodes.size + 1) }

/-! ### Visiting a node -/

/-- The outcome of a node whose relaxation is not optimal. -/
def close (id depth : Nat) (outcome : Outcome) (status : NodeStatus)
    (counted : Counters → Counters) : SearchM σ α (Option Outcome) := do
  count counted
  tell (.nodeClosed id depth outcome)
  setStatus id status
  return some outcome

def prune (id depth : Nat) (bound : α) : SearchM σ α (Option Outcome) := do
  tell (.nodePruned id depth bound (← controller).incumbent.objective)
  count fun k => { k with pruned := k.pruned + 1 }
  setStatus id .pruned
  return some .optimal

/-- The outcome of a node with a whole relaxation, which may become the incumbent. -/
def accept (id depth : Nat) (objective : α) (x : List α) : SearchM σ α (Option Outcome) := do
  count fun k => { k with integral := k.integral + 1 }
  setStatus id .integral
  if (← controller).incumbent.improvedBy objective then
    modifyController fun c => { c with incumbent := c.incumbent.update objective x }
    count fun k => { k with updates := k.updates + 1 }
    tellProgress (.incumbentFound id depth objective)
  return some .optimal

/-- Splits a node at `x[var] = value`; it has no outcome yet. -/
def branch (id depth var : Nat) (value : α) : SearchM σ α (Option Outcome) := do
  tell (.nodeBranched id depth var value)
  count fun k => { k with branched := k.branched + 1 }
  setStatus id .branched
  let parent ← node id
  let c ← controller
  let split := c.factory.split c.store parent var value
  modifyController fun c => { c with store := split.store, factory := split.factory }
  setNode id { parent with firstChild := some split.ceil.id }
  addNode split.ceil
  addNode split.floor
  modifyController fun c =>
    { c with waiting := split.ceil.id :: split.floor.id :: c.waiting }
  return none

/-- Solves the relaxation of a system and takes over the oracle's state and journal. -/
def relax (oracle : Oracle σ α) (system : Integer.System α) : SearchM σ α (Relaxation α) := do
  let reply := oracle (← get).oracle system
  modify fun frame => { frame with oracle := reply.state, log := frame.log ++ reply.log }
  match reply.result with
  | .ok answer => return answer
  | .error e => throw e

/-- Solves the relaxation of a node: its outcome, or none if it was split. -/
def process (p : Integer.Program α) (oracle : Oracle σ α) (id : Nat) :
    SearchM σ α (Option Outcome) := do
  let n ← node id
  let c ← controller
  let some branches := c.store.chain? n.tip | throw (.internal .cyclicRows)
  let answer ← relax oracle ⟨p, branches⟩
  count fun k => { k with explored := k.explored + 1 }
  match answer with
  | .iterationLimit _ _ =>
    close id n.depth .iterationLimit .iterationLimit
      fun k => { k with limited := k.limited + 1 }
  | .infeasible =>
    close id n.depth .infeasible .infeasible
      fun k => { k with infeasible := k.infeasible + 1 }
  | .unbounded =>
    close id n.depth .unbounded .unbounded
      fun k => { k with unbounded := k.unbounded + 1 }
  | .optimal objective x =>
    unless x.length = p.vars do
      throw (.wrongLength x.length p.vars)
    setNode id { n with bound := some objective }
    if c.incumbent.dominates objective then prune id n.depth objective
    else match fractional? c.settings.intTol x with
      | none => accept id n.depth objective x
      | some (var, value) => branch id n.depth var value

def leave (id : Nat) : SearchM σ α (Option Outcome) := do
  let c ← controller
  unless c.counters.nodeLimitReached do
    tellProgress (.nodeLimitReached c.settings.maxNodes (c.waiting.length + 1))
  count fun k => { k with nodeLimitReached := true, limited := k.limited + 1 }
  setStatus id .nodeLimit
  return some .iterationLimit

def visit (p : Integer.Program α) (oracle : Oracle σ α) (id : Nat) :
    SearchM σ α (Option Outcome) := do
  let c ← controller
  if c.settings.maxNodes ≤ c.counters.explored then leave id else process p oracle id

/-! ### Folding outcomes upward -/

/-- Drops the descendants of a resolved node, with their rows. -/
def releaseChildren (id : Nat) : SearchM σ α Unit := do
  let n ← node id
  match n.firstChild with
  | none => return
  | some first =>
    setNode id { n with firstChild := none }
    let tip := (← node first).tip
    modifyController fun c => { c with
      nodes := c.nodes.take first
      factory := c.factory.release first
      store := match tip with
        | some start => c.store.truncate start
        | none => c.store }

/-- Where an outcome has come to: an end, with the outcome of the root if that is reached, or a
parent that it resolves. -/
inductive Handed where
  | ended (root : Option Outcome)
  | resolved (parent : Nat) (outcome : Outcome)

/-- Hands the outcome of a node to its parent. -/
def handUp (id : Nat) (outcome : Outcome) : SearchM σ α Handed := do
  let n ← node id
  match n.parent, n.side with
  | some parent, some side =>
    let (recorded, combined) := (← node parent).record side outcome
    setNode parent recorded
    match combined with
    | none => return .ended none
    | some outcome =>
      releaseChildren parent
      return .resolved parent outcome
  | _, _ => return .ended (some outcome)

/-- Hands the outcome of a node to its ancestors, as far as they are resolved by it; gives the
outcome of the root if that is reached. An ancestor has a smaller id, so `fuel` need not exceed
the id of the node. -/
def fold (fuel id : Nat) (outcome : Outcome) : SearchM σ α (Option Outcome) := do
  match ← handUp id outcome with
  | .ended root => return root
  | .resolved parent outcome =>
    match fuel with
    | 0 => throw (.internal .unresolvedRoot)
    | fuel + 1 => fold fuel parent outcome

/-! ### The search -/

/-- Tells how far the search has come, at every `logEvery`-th node. -/
def tellHowFar : SearchM σ α Unit := do
  let c ← controller
  let explored := c.counters.explored
  if c.settings.logEvery ≠ 0 ∧ 0 < explored ∧ explored % c.settings.logEvery = 0 ∧
      !c.counters.nodeLimitReached then
    tellProgress (.progress explored c.waiting.length c.incumbent.objective c.counters.maxDepth)

def step (p : Integer.Program α) (oracle : Oracle σ α) (id : Nat) :
    SearchM σ α (Option Outcome) := do
  let resolved ← visit p oracle id
  let outcome ← match resolved with
    | some outcome => fold id id outcome
    | none => pure none
  tellHowFar
  return outcome

/-- Visits waiting nodes until none is left, at most `fuel` of them; `found` is the outcome of
the root as far as it is known. -/
def explore (p : Integer.Program α) (oracle : Oracle σ α) (fuel : Nat)
    (found : Option Outcome) : SearchM σ α (Option Outcome) := do
  match fuel with
  | 0 => return found
  | fuel + 1 =>
    match (← controller).waiting with
    | [] => return found
    | id :: rest =>
      modifyController fun c => { c with waiting := rest }
      let outcome ← step p oracle id
      explore p oracle fuel (outcome.or found)

structure Solution (α : Type) where
  outcome : Outcome
  incumbent : Incumbent α
  counters : Counters
  deriving DecidableEq, Repr

/-- Whether an integer point with a finite objective value was found. -/
def Solution.hasPoint (s : Solution α) : Bool :=
  s.incumbent.objective.any Scalar.isFinite

/-- The outcome of the search from that of the root: infeasibility is not proven if part of the
tree was left unexplored. -/
def conclude (outcome : Outcome) : SearchM σ α (Solution α) := do
  let c ← controller
  let outcome :=
    if c.counters.nodeLimitReached ∧ outcome = .infeasible then .iterationLimit else outcome
  tellProgress (.searchFinished outcome c.incumbent.objective c.counters.explored
    c.counters.pruned)
  return ⟨outcome, c.incumbent, c.counters⟩

/-- Lets the root wait, and nothing else. -/
def opening (p : Integer.Program α) : SearchM σ α Unit := do
  let settings := (← controller).settings
  tellProgress (.searchStarted p.vars p.rows.length settings.maxNodes settings.intTol)
  modifyController fun c => { c with factory := {}, waiting := [(Node.root : Node α).id] }
  addNode .root

/-- Searches the whole tree. Every explored node adds at most two nodes to the root. -/
def search (p : Integer.Program α) (oracle : Oracle σ α) : SearchM σ α (Solution α) := do
  let c ← controller
  opening p
  match ← explore p oracle (2 * c.settings.maxNodes + 2) none with
  | some outcome => conclude outcome
  | none => throw (.internal .unresolvedRoot)

end BranchBound.Search
