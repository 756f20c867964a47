import BranchBound.Proofs.SearchSteps

/-!
# The path of a search

Between two visits the open nodes, the branch rows, the waiting list and the next id are all
determined by the path from the root to the node that comes next. `Controller.atPath` is the
controller of a path; folding an outcome upward moves it along the path.
-/

namespace BranchBound.Search

open Integer (BranchRow Side)

/-- A split on the way down, with the child that is off the path. -/
structure Level (α : Type) where
  node : Node α
  other : Node α
  var : Nat
  value : α
  /-- The outcome of the ceil side, once the path is on the floor side. -/
  ceil : Option Outcome

/-- A path from the root down, the last split first. -/
inductive Path (α : Type) where
  | root
  | down (level : Level α) (above : Path α)

variable {σ α : Type}

def Level.side (level : Level α) : Side :=
  match level.ceil with
  | none => .ceil
  | some _ => .floor

def offset : Side → Nat
  | .ceil => 0
  | .floor => 1

namespace Path

def depth : Path α → Nat
  | root => 0
  | down _ above => above.depth + 1

def id : Path α → Nat
  | root => 0
  | down level above => 2 * above.depth + 1 + offset level.side

def tip : Path α → Option Nat
  | root => none
  | down level above => some (2 * above.depth + offset level.side)

def parent : Path α → Option Nat
  | root => none
  | down _ above => some above.id

def side : Path α → Option Side
  | root => none
  | down level _ => some level.side

/-- The open nodes when the path ends at `n`. -/
def nodes : Path α → Node α → List (Node α)
  | root, n => [n]
  | down level above, n =>
    above.nodes level.node ++
      match level.side with
      | .ceil => [n, level.other]
      | .floor => [level.other, n]

/-- The nodes that wait behind the one at the end of a path: the floor sides on it. -/
def pending : Path α → List Nat
  | root => []
  | down level above =>
    match level.side with
    | .ceil => (2 * above.depth + 2) :: above.pending
    | .floor => above.pending

section Nodes

theorem length_nodes (path : Path α) (n : Node α) : (path.nodes n).length = 2 * path.depth + 1 := by
  induction path generalizing n with
  | root => rfl
  | down level above ih =>
    rw [nodes, List.length_append, ih, depth]
    cases level.side <;> simp <;> omega

theorem id_lt (path : Path α) : path.id < 2 * path.depth + 1 := by
  cases path with
  | root => simp [id]
  | down level above =>
    have small : offset level.side ≤ 1 := by cases level.side <;> simp [offset]
    rw [id, depth]
    omega

theorem depth_le_id (path : Path α) : path.depth ≤ path.id := by
  cases path with
  | root => simp [depth]
  | down level above =>
    rw [id, depth]
    omega

theorem nodes_getElem? (path : Path α) (n : Node α) : (path.nodes n)[path.id]? = some n := by
  cases path with
  | root => rfl
  | down level above =>
    rw [nodes, id, List.getElem?_append_right (by rw [length_nodes]; omega), length_nodes]
    cases level.side <;> simp [offset]

theorem nodes_set (path : Path α) (n n' : Node α) : (path.nodes n).set path.id n' = path.nodes n' := by
  cases path with
  | root => rfl
  | down level above =>
    rw [nodes, nodes, id, List.set_append_right _ _ (by rw [length_nodes]; omega), length_nodes]
    cases level.side <;> simp [offset]

end Nodes

/-! ### Rows of a path -/

section Rows
variable [Scalar α]

def rows : Path α → List (BranchRow α)
  | root => []
  | down level above => above.rows ++ [.split level.side level.var level.value]

def store : Path α → List (LinkedRow α)
  | root => []
  | down level above =>
    above.store ++ [⟨.split .ceil level.var level.value, above.tip⟩,
      ⟨.split .floor level.var level.value, above.tip⟩]

theorem length_store (path : Path α) : path.store.length = 2 * path.depth := by
  induction path with
  | root => rfl
  | down level above ih =>
    rw [store, List.length_append, ih, depth, List.length_cons, List.length_cons, List.length_nil]
    omega

/-- The links from the tip of a path lead over its rows, whatever is stored after them. -/
theorem walk_path (path : Path α) (rest : List (LinkedRow α)) {fuel : Nat} (enough : path.depth ≤ fuel)
    (found : List (BranchRow α)) :
    (⟨(path.store ++ rest).toArray⟩ : RowStore α).walk fuel path.tip found = some (path.rows ++ found) := by
  induction path generalizing rest fuel found with
  | root =>
    unfold RowStore.walk
    rfl
  | down level above ih =>
    rw [depth] at enough
    obtain _ | fuel := fuel
    · omega
    · have stored : ((down level above).store ++ rest)[2 * above.depth + offset level.side]? =
          some ⟨.split level.side level.var level.value, above.tip⟩ := by
        rw [store, List.append_assoc, List.getElem?_append_right (by rw [length_store]; omega), length_store]
        cases level.side <;> simp [offset]
      rw [tip, RowStore.walk]
      simp only [List.getElem?_toArray, stored]
      rw [store, List.append_assoc, ih _ (by omega), rows, List.append_assoc]
      rfl

theorem chain_path (path : Path α) :
    (⟨path.store.toArray⟩ : RowStore α).chain? path.tip = some path.rows := by
  have enough : path.depth ≤ path.store.length := by rw [length_store]; omega
  have walked := walk_path path [] enough []
  rw [List.append_nil, List.append_nil] at walked
  exact walked

end Rows

end Path

/-! ### Nodes on a path -/

/-- The node's own data is that of the end of a path. -/
structure Node.At (n : Node α) (path : Path α) : Prop where
  id : n.id = path.id
  parent : n.parent = path.parent
  side : n.side = path.side
  depth : n.depth = path.depth
  tip : n.tip = path.tip

def Node.place (n : Node α) : Nat × Option Nat × Option Side × Nat × Option Nat :=
  (n.id, n.parent, n.side, n.depth, n.tip)

theorem Node.At.of_place {n m : Node α} {path : Path α} (placed : n.At path) (same : m.place = n.place) :
    m.At path := by
  obtain ⟨id, parent, side, depth, tip⟩ := placed
  simp only [Node.place, Prod.mk.injEq] at same
  obtain ⟨sameId, sameParent, sameSide, sameDepth, sameTip⟩ := same
  exact ⟨sameId.trans id, sameParent.trans parent, sameSide.trans side, sameDepth.trans depth, sameTip.trans tip⟩

structure Node.Fresh (n : Node α) : Prop where
  firstChild : n.firstChild = none
  ceilOutcome : n.ceilOutcome = none
  floorOutcome : n.floorOutcome = none

/-- What is known of the nodes at a split while the path goes through it. -/
structure Level.Sound (level : Level α) (above : Path α) : Prop where
  node : level.node.At above
  firstChild : level.node.firstChild = some (2 * above.depth + 1)
  ceilOutcome : level.node.ceilOutcome = level.ceil
  floorOutcome : level.node.floorOutcome = none
  first : level.side = .floor → level.other.tip = some (2 * above.depth)

def Path.Sound : Path α → Prop
  | .root => True
  | .down level above => level.Sound above ∧ above.Sound

section Levels
variable {path above : Path α} {level : Level α} {n : Node α}

/-- The split of node `n` at a depth, with the path on its ceil side. -/
def Level.opened (n : Node α) (depth var : Nat) (value : α) : Level α :=
  { node := { n with status := .branched, firstChild := some (2 * depth + 1) }
    other := n.child (2 * depth + 2) .floor (2 * depth + 1)
    var
    value
    ceil := none }

def Level.turn (level : Level α) (n : Node α) (outcome : Outcome) : Level α :=
  { level with
    node := { level.node with ceilOutcome := some outcome }
    other := n
    ceil := some outcome }

theorem child_at (level : Level α) {n' : Node α} (placed : n'.At above) :
    (n'.child (2 * above.depth + 1 + offset level.side) level.side (2 * above.depth + offset level.side)).At
      (.down level above) where
  id := rfl
  parent := congrArg some placed.id
  side := rfl
  depth := congrArg (· + 1) placed.depth
  tip := rfl

theorem child_fresh (n : Node α) (id : Nat) (side : Side) (tip : Nat) : (n.child id side tip).Fresh :=
  ⟨rfl, rfl, rfl⟩

theorem root_at : (Node.root : Node α).At .root :=
  ⟨rfl, rfl, rfl, rfl, rfl⟩

theorem opened_sound (placed : n.At path) (fresh : n.Fresh) (var : Nat) (value : α) :
    (Level.opened n path.depth var value).Sound path where
  node := placed.of_place rfl
  firstChild := rfl
  ceilOutcome := fresh.ceilOutcome
  floorOutcome := fresh.floorOutcome
  first floorSide := nomatch floorSide

theorem turn_sound (sound : level.Sound above) (ceilSide : level.side = .ceil) (placed : n.At (.down level above))
    (outcome : Outcome) : (level.turn n outcome).Sound above where
  node := sound.node.of_place rfl
  firstChild := sound.firstChild
  ceilOutcome := rfl
  floorOutcome := sound.floorOutcome
  first _ := by
    show n.tip = _
    rw [placed.tip, Path.tip, ceilSide]
    rfl

end Levels

/-! ### The controller of a path -/

section Controller
variable [Scalar α]

/-- The controller on the visit of node `n` at the end of a path. -/
def Controller.atPath (c : Controller α) (path : Path α) (n : Node α) : Controller α :=
  { c with
    store := ⟨path.store.toArray⟩
    factory := ⟨2 * path.depth + 1⟩
    nodes := (path.nodes n).toArray
    waiting := path.pending }

/-- The controller before that visit, with the node in front of the waiting ones. -/
def Controller.headAt (c : Controller α) (path : Path α) (n : Node α) : Controller α :=
  { c.atPath path n with waiting := path.id :: path.pending }

variable {c : Controller α} {path above : Path α} {level : Level α} {n : Node α} {t : Recursion.Trail σ α} {s : σ}

theorem atPath_node (c : Controller α) (path : Path α) (n : Node α) :
    (c.atPath path n).nodes[path.id]? = some n := by
  show (path.nodes n).toArray[path.id]? = some n
  rw [List.getElem?_toArray, path.nodes_getElem?]

theorem atPath_put (c : Controller α) (path : Path α) (n n' : Node α) :
    (c.atPath path n).put path.id n' = c.atPath path n' := by
  unfold Controller.put Controller.atPath
  simp only [List.setIfInBounds_toArray, path.nodes_set]

theorem atPath_parent (c : Controller α) (level : Level α) (above : Path α) (n : Node α) :
    (c.atPath (.down level above) n).nodes[above.id]? = some level.node := by
  show ((Path.down level above).nodes n).toArray[above.id]? = some level.node
  have inside : above.id < (above.nodes level.node).length := by rw [above.length_nodes]; exact above.id_lt
  rw [List.getElem?_toArray, Path.nodes, List.getElem?_append_left inside, above.nodes_getElem?]

theorem atPath_divide (c : Controller α) (path : Path α) (n n' : Node α) (var : Nat) (value : α)
    (placed : n'.At path) : (c.atPath path n).divide path.id n' var value =
      c.headAt (.down (.opened n' path.depth var value) path)
        (n'.child (2 * path.depth + 1) .ceil (2 * path.depth)) := by
  rw [← put_divide _ _ _ n', atPath_put]
  unfold Controller.divide Controller.headAt Controller.atPath Factory.split RowStore.push
  simp only [Path.nodes, Path.store, Path.pending, Path.depth, Level.opened, placed.tip,
    List.setIfInBounds_toArray, List.push_toArray, path.nodes_set, path.length_store, List.size_toArray,
    List.append_assoc, List.cons_append, List.nil_append]
  rfl

theorem atPath_turn (ceilSide : level.side = .ceil) (c : Controller α) (above : Path α) (n : Node α)
    (outcome : Outcome) :
    (c.atPath (.down level above) n).put above.id { level.node with ceilOutcome := some outcome } =
      c.headAt (.down (level.turn n outcome) above) level.other := by
  have inside : above.id < (above.nodes level.node).length := by rw [above.length_nodes]; exact above.id_lt
  have turned : (level.turn n outcome).side = .floor := rfl
  unfold Controller.put Controller.headAt Controller.atPath
  simp only [Path.nodes, Path.store, Path.pending, Path.depth, ceilSide, turned, List.setIfInBounds_toArray,
    List.set_append_left _ _ inside, above.nodes_set]
  rfl

/-- The controller once the split at the end of the path is resolved and its subtree dropped. -/
theorem atPath_release (floorSide : level.side = .floor) (c : Controller α) (above : Path α) (n n' n'' : Node α) :
    { ((c.atPath (.down level above) n).put above.id n').put above.id n'' with
      nodes := (((c.atPath (.down level above) n).put above.id n').put above.id n'').nodes.take
        (2 * above.depth + 1)
      factory := ⟨2 * above.depth + 1⟩
      store := (c.atPath (.down level above) n).store.truncate (2 * above.depth) } =
      c.atPath above n'' := by
  have inside : above.id < (above.nodes level.node).length := by rw [above.length_nodes]; exact above.id_lt
  rw [put_put]
  unfold Controller.put Controller.atPath RowStore.truncate
  simp only [Path.nodes, Path.store, Path.pending, floorSide, List.setIfInBounds_toArray,
    List.set_append_left _ _ inside, above.nodes_set, List.take_toArray]
  rw [List.take_left' (above.length_nodes n''), List.take_left' above.length_store]

end Controller

/-! ### Folding outcomes upward -/

section Fold
variable [Scalar α] {c c' : Controller α} {path above : Path α} {level : Level α} {n : Node α}
  {t : Recursion.Trail σ α} {s s' : σ}

theorem handUp_root (placed : n.At .root) (outcome : Outcome) :
    Gives (handUp (Path.root : Path α).id outcome) ((c.atPath .root n).carry t) s (.ok (.ended (some outcome)))
      ((c.atPath .root n).carry t) s := by
  refine Gives.bind (gives_node (c := (c.atPath .root n).carry t) (atPath_node c .root n)) ?_
  rw [placed.parent, placed.side]
  exact gives_pure _ _ _

/-- The outcome of a ceil side is kept, and the floor side comes next. -/
theorem handUp_ceil (sound : level.Sound above) (ceilSide : level.side = .ceil) (placed : n.At (.down level above))
    (outcome : Outcome) :
    Gives (handUp (Path.down level above).id outcome) ((c.atPath (.down level above) n).carry t) s (.ok (.ended none))
      ((c.headAt (.down (level.turn n outcome) above) level.other).carry t) s := by
  have recorded : level.node.record .ceil outcome =
      ({ level.node with ceilOutcome := some outcome }, none) := by
    unfold Node.record
    simp only [sound.floorOutcome]
  have side : (Path.down level above).side = some .ceil := congrArg some ceilSide
  refine Gives.bind (gives_node (c := (c.atPath (.down level above) n).carry t) (atPath_node c _ n)) ?_
  rw [placed.parent, placed.side, side]
  refine Gives.bind (gives_node (c := (c.atPath (.down level above) n).carry t) (atPath_parent c level above n)) ?_
  rw [recorded]
  refine Gives.bind (carry_setNode (atPath_parent c level above n) _ _ _) ?_
  rw [atPath_turn ceilSide]
  exact gives_pure _ _ _

theorem gives_release (sound : level.Sound above) (floorSide : level.side = .floor) {n' : Node α}
    (firstChild : n'.firstChild = some (2 * above.depth + 1)) :
    Gives (releaseChildren above.id) (((c.atPath (.down level above) n).put above.id n').carry t) s (.ok ())
      ((c.atPath above { n' with firstChild := none }).carry t) s := by
  have parent := nodes_put (atPath_parent c level above n) n'
  have first : (((c.atPath (.down level above) n).put above.id n').put above.id
      { n' with firstChild := none }).nodes[2 * above.depth + 1]? = some level.other := by
    rw [put_put]
    show (((Path.down level above).nodes n).toArray.setIfInBounds above.id _)[2 * above.depth + 1]? = _
    have apart : above.id ≠ 2 * above.depth + 1 := above.id_lt.ne
    rw [Array.getElem?_setIfInBounds_ne apart, List.getElem?_toArray, Path.nodes,
      List.getElem?_append_right (by rw [above.length_nodes]), above.length_nodes, floorSide]
    simp
  unfold releaseChildren
  refine Gives.bind (gives_node (c := ((c.atPath (.down level above) n).put above.id n').carry t) parent) ?_
  rw [firstChild]
  refine Gives.bind (carry_setNode parent _ _ _) ?_
  refine Gives.bind (gives_node (n := level.other) first) ?_
  rw [sound.first floorSide]
  rw [← atPath_release floorSide c above n n']
  exact gives_modify _ _ _

/-- The outcome of a floor side resolves the split. -/
theorem handUp_floor (sound : level.Sound above) {first : Outcome} (resolved : level.ceil = some first)
    (placed : n.At (.down level above)) (outcome : Outcome) :
    Gives (handUp (Path.down level above).id outcome) ((c.atPath (.down level above) n).carry t) s
      (.ok (.resolved above.id (first.combine outcome)))
      ((c.atPath above { level.node with floorOutcome := some outcome, firstChild := none }).carry t) s := by
  have floorSide : level.side = .floor := by unfold Level.side; rw [resolved]
  have recorded : level.node.record .floor outcome =
      ({ level.node with floorOutcome := some outcome }, some (first.combine outcome)) := by
    unfold Node.record
    simp only [sound.ceilOutcome, resolved]
  have side : (Path.down level above).side = some .floor := congrArg some floorSide
  have parent := atPath_parent c level above n
  refine Gives.bind (gives_node (c := (c.atPath (.down level above) n).carry t) (atPath_node c _ n)) ?_
  rw [placed.parent, placed.side, side]
  refine Gives.bind (gives_node (c := (c.atPath (.down level above) n).carry t) parent) ?_
  rw [recorded]
  refine Gives.bind (carry_setNode parent _ _ _) ?_
  refine Gives.bind (gives_release sound floorSide sound.firstChild) ?_
  exact gives_pure _ _ _

theorem fold_root (placed : n.At .root) (fuel : Nat) (outcome : Outcome) :
    Gives (fold fuel (Path.root : Path α).id outcome) ((c.atPath .root n).carry t) s (.ok (some outcome))
      ((c.atPath .root n).carry t) s := by
  rw [fold.eq_def]
  exact (handUp_root placed outcome).bind (gives_pure _ _ _)

theorem fold_ceil (sound : level.Sound above) (ceilSide : level.side = .ceil) (placed : n.At (.down level above))
    (fuel : Nat) (outcome : Outcome) :
    Gives (fold fuel (Path.down level above).id outcome) ((c.atPath (.down level above) n).carry t) s (.ok none)
      ((c.headAt (.down (level.turn n outcome) above) level.other).carry t) s := by
  rw [fold.eq_def]
  exact (handUp_ceil sound ceilSide placed outcome).bind (gives_pure _ _ _)

/-- The combined outcome of a split goes on upward. -/
theorem fold_floor (sound : level.Sound above) {first : Outcome} (resolved : level.ceil = some first)
    (placed : n.At (.down level above)) {fuel : Nat} {outcome : Outcome}
    {result : Except (Error α) (Option Outcome)}
    (next : Gives (fold fuel above.id (first.combine outcome))
      ((c.atPath above { level.node with floorOutcome := some outcome, firstChild := none }).carry t) s
      result c' s') :
    Gives (fold (fuel + 1) (Path.down level above).id outcome) ((c.atPath (.down level above) n).carry t) s
      result c' s' := by
  rw [fold.eq_def]
  exact (handUp_floor sound resolved placed outcome).bind next

end Fold

end BranchBound.Search
