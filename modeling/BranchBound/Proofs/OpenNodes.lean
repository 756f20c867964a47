import BranchBound.Proofs.SearchPath

/-!
# Open nodes of a path

The nodes held on the way down a path: every one of them stands at its id and its branch rows can be
followed (`nodes_held`), and those that wait are the floor sides on the path (`chains_pending`). An outcome
folded upward stops at the last ceil side on the path, or resolves the root (`fold_climb`).
-/

namespace BranchBound.Search

open Integer (BranchRow Side System)

variable {σ α : Type}

def opposite : Side → Side
  | .ceil => .floor
  | .floor => .ceil

/-- The same split with the path on a given side. -/
def Level.facing (level : Level α) (side : Side) : Level α :=
  { level with ceil := match side with
      | .ceil => none
      | .floor => some .optimal }

@[simp] theorem Level.side_facing (level : Level α) (side : Side) : (level.facing side).side = side := by
  cases side <;> rfl

theorem Node.At.facing {n : Node α} {level : Level α} {above : Path α} (placed : n.At (.down level above)) :
    n.At (.down (level.facing level.side) above) := by
  obtain ⟨id, parent, side, depth, tip⟩ := placed
  refine ⟨?_, parent, ?_, depth, ?_⟩
  · rw [Path.id, Level.side_facing]
    exact id
  · rw [Path.side, Level.side_facing]
    exact side
  · rw [Path.tip, Level.side_facing]
    exact tip

/-- What holds of an open node at position `i`: its id, its parent and its branch rows. -/
structure Node.Held (n : Node α) (vars : Nat) (store : RowStore α) (i : Nat) : Prop where
  id : n.id = i
  parent : ∀ parent, n.parent = some parent → parent < i
  rows : ∃ rows, store.chain? n.tip = some rows ∧ ∀ row ∈ rows, row.var < vars

namespace Path

/-- What is known of the splits of a path besides `Sound`: the variable exists, and the child off the
path is in its place, untouched while it waits. -/
def Held (vars : Nat) : Path α → Prop
  | root => True
  | down level above =>
    level.var < vars ∧ level.other.At (.down (level.facing (opposite level.side)) above) ∧
      (level.side = .ceil → level.other.Fresh) ∧ above.Held vars

section Held
variable {vars : Nat} {path above : Path α} {level : Level α} {n : Node α}

theorem held_opened (held : path.Held vars) (placed : n.At path) {var : Nat} (inside : var < vars) (value : α) :
    (down (.opened n path.depth var value) path).Held vars := by
  refine ⟨inside, ?_, fun _ => child_fresh _ _ _ _, held⟩
  exact child_at ((Level.opened n path.depth var value).facing .floor) placed

theorem held_turn (held : (down level above).Held vars) (ceilSide : level.side = .ceil)
    (placed : n.At (.down level above)) (outcome : Outcome) : (down (level.turn n outcome) above).Held vars := by
  obtain ⟨inside, -, -, held⟩ := held
  refine ⟨inside, ?_, (fun floorSide => nomatch floorSide), held⟩
  have facing := placed.facing
  rw [ceilSide] at facing
  exact ⟨facing.id, facing.parent, facing.side, facing.depth, facing.tip⟩

end Held

/-! ### Rows of the open nodes -/

section Rows
variable [Scalar α]

/-- The branch rows of a child are found from its tip, whatever is stored after its split. -/
theorem chain_child {n : Node α} {level : Level α} {above : Path α} {side : Side}
    (placed : n.At (.down (level.facing side) above)) (rest : List (LinkedRow α)) :
    (⟨((down level above).store ++ rest).toArray⟩ : RowStore α).chain? n.tip =
      some (above.rows ++ [.split side level.var level.value]) := by
  have enough : (down (level.facing side) above).depth ≤ ((down (level.facing side) above).store ++ rest).length := by
    rw [List.length_append, length_store]
    omega
  have walked := walk_path (down (level.facing side) above) rest enough []
  rw [rows, Level.side_facing, List.append_nil] at walked
  rw [placed.tip]
  exact walked

omit [Scalar α] in
theorem chain_root (store : RowStore α) : store.chain? (root : Path α).tip = some [] := by
  show store.walk _ none [] = _
  unfold RowStore.walk
  rfl

/-- The rows of the nodes that wait behind the end of a path. -/
def pendingRows : Path α → List (List (BranchRow α))
  | root => []
  | down level above =>
    match level.side with
    | .ceil => (above.rows ++ [.split .floor level.var level.value]) :: above.pendingRows
    | .floor => above.pendingRows

theorem var_lt_of_mem_rows {vars : Nat} {path : Path α} (held : path.Held vars) :
    ∀ row ∈ path.rows, row.var < vars := by
  induction path with
  | root => simp [rows]
  | down level above ih =>
    obtain ⟨inside, -, -, held⟩ := held
    intro row member
    rw [rows, List.mem_append, List.mem_singleton] at member
    rcases member with old | rfl
    · exact ih held row old
    · exact inside

theorem child_held {vars : Nat} {n : Node α} {level : Level α} {above : Path α} {side : Side}
    (held : (down level above).Held vars) (placed : n.At (.down (level.facing side) above))
    (rest : List (LinkedRow α)) :
    n.Held vars ⟨((down level above).store ++ rest).toArray⟩ (2 * above.depth + 1 + offset side) where
  id := by rw [placed.id, Path.id, Level.side_facing]
  parent parent known := by
    rw [placed.parent] at known
    obtain rfl := Option.some.inj known
    have small := above.id_lt
    omega
  rows := by
    refine ⟨_, chain_child placed rest, ?_⟩
    intro row member
    rw [List.mem_append, List.mem_singleton] at member
    rcases member with old | rfl
    · exact var_lt_of_mem_rows held.2.2.2 row old
    · exact held.1

/-- An open node is the root or a child of one of the splits on the path. -/
theorem nodes_cases {vars : Nat} {path : Path α} {n : Node α} (sound : path.Sound) (held : path.Held vars)
    (placed : n.At path) {i : Nat} {m : Node α} (read : (path.nodes n)[i]? = some m) :
    i = 0 ∧ m.At .root ∨
      ∃ level above side, i = 2 * above.depth + 1 + offset side ∧ m.At (.down (level.facing side) above) ∧
        (down level above).Held vars ∧ (down level above).store <+: path.store := by
  induction path generalizing n with
  | root =>
    obtain ⟨rfl, rfl⟩ : i = 0 ∧ m = n := by
      cases i with
      | zero => exact ⟨rfl, (Option.some.inj read).symm⟩
      | succ i => simp [nodes] at read
    exact Or.inl ⟨rfl, placed⟩
  | down level above ih =>
    by_cases early : i < (above.nodes level.node).length
    · -- The rows of this split are stored after those of the path above.
      rw [nodes, List.getElem?_append_left early] at read
      rcases ih sound.2 held.2.2.2 sound.1.node read with rooted | ⟨last, higher, side, place, child, kept, stored⟩
      · exact Or.inl rooted
      · exact Or.inr ⟨last, higher, side, place, child, kept, stored.trans (List.prefix_append _ _)⟩
    · have other := held.2.1
      have own := placed.facing
      rw [nodes, List.getElem?_append_right (not_lt.mp early)] at read
      rw [length_nodes] at read early
      obtain ⟨k, rfl⟩ : ∃ k, i = 2 * above.depth + 1 + k := ⟨i - (2 * above.depth + 1), by omega⟩
      rw [Nat.add_sub_cancel_left] at read
      refine Or.inr ⟨level, above, if k = 0 then .ceil else .floor, ?_⟩
      cases side : level.side with
      | ceil =>
        rw [side] at read own other
        obtain _ | _ | k := k
        · obtain rfl : n = m := Option.some.inj read
          exact ⟨rfl, own, held, List.prefix_rfl⟩
        · obtain rfl : level.other = m := Option.some.inj read
          exact ⟨rfl, other, held, List.prefix_rfl⟩
        · cases read
      | floor =>
        rw [side] at read own other
        obtain _ | _ | k := k
        · obtain rfl : level.other = m := Option.some.inj read
          exact ⟨rfl, other, held, List.prefix_rfl⟩
        · obtain rfl : n = m := Option.some.inj read
          exact ⟨rfl, own, held, List.prefix_rfl⟩
        · cases read

/-- Every open node stands at its id, its parent before it, and its rows can be followed. -/
theorem nodes_held {vars : Nat} {path : Path α} {n : Node α} (sound : path.Sound) (held : path.Held vars)
    (placed : n.At path) (rest : List (LinkedRow α)) {i : Nat} {m : Node α}
    (read : (path.nodes n)[i]? = some m) : m.Held vars ⟨(path.store ++ rest).toArray⟩ i := by
  rcases nodes_cases sound held placed read with
    ⟨rfl, rooted⟩ | ⟨level, above, side, rfl, child, kept, later, stored⟩
  · refine ⟨rooted.id, ?_, ⟨[], ?_, by simp⟩⟩
    · intro parent known
      rw [rooted.parent] at known
      cases known
    · rw [rooted.tip]
      exact chain_root _
  · rw [← stored, List.append_assoc]
    exact child_held kept child _

/-- Each open node after the root has the row before its position for its last branch row. -/
theorem tip_of_nodes {vars : Nat} {path : Path α} {n : Node α} (sound : path.Sound) (held : path.Held vars)
    (placed : n.At path) {i : Nat} {m : Node α} (read : (path.nodes n)[i]? = some m) (later : 1 ≤ i) :
    m.tip = some (i - 1) := by
  rcases nodes_cases sound held placed read with ⟨rfl, -⟩ | ⟨level, above, side, rfl, child, -⟩
  · omega
  · rw [child.tip, tip, Level.side_facing]
    congr 1
    omega

/-- The waiting nodes behind the end of a path have the rows of its floor sides. -/
theorem chains_pending {vars : Nat} {path : Path α} (held : path.Held vars) (n : Node α) (nodes : List (Node α))
    (rows : List (LinkedRow α)) :
    (path.pending.map fun id => ((path.nodes n ++ nodes)[id]?).bind fun m =>
      (⟨(path.store ++ rows).toArray⟩ : RowStore α).chain? m.tip) = path.pendingRows.map some := by
  induction path generalizing n nodes rows with
  | root => rfl
  | down level above ih =>
    obtain ⟨-, placed, -, heldAbove⟩ := held
    have later := ih heldAbove level.node
      ((match level.side with | .ceil => [n, level.other] | .floor => [level.other, n]) ++ nodes)
      ([⟨.split .ceil level.var level.value, above.tip⟩, ⟨.split .floor level.var level.value, above.tip⟩] ++ rows)
    rw [← List.append_assoc, ← List.append_assoc] at later
    cases side : level.side with
    | ceil =>
      rw [side] at placed later
      have read : ((down level above).nodes n ++ nodes)[2 * above.depth + 2]? = some level.other := by
        rw [Path.nodes, side, List.append_assoc, List.getElem?_append_right (by rw [length_nodes]; omega), length_nodes]
        simp
      simp only [pending, pendingRows, side, List.map_cons, read, Option.bind_some]
      rw [chain_child placed rows]
      simp only [Path.nodes, side]
      exact congrArg _ later
    | floor =>
      rw [side] at later
      simp only [pending, pendingRows, Path.nodes, side]
      exact later

end Rows

/-! ### Climbing -/

/-- The last split that a path passes on its ceil side, with the path to it. -/
def climb? : Path α → Option (Level α × Path α)
  | root => none
  | down level above =>
    match level.side with
    | .ceil => some (level, above)
    | .floor => above.climb?

section Climb
variable {path above : Path α} {level : Level α}

theorem pending_lt (path : Path α) : ∀ id ∈ path.pending, id < 2 * path.depth + 1 := by
  induction path with
  | root => simp [pending]
  | down level above ih =>
    intro id member
    rw [depth]
    cases side : level.side <;> simp only [pending, side, List.mem_cons] at member
    · rcases member with rfl | later
      · omega
      · have := ih id later
        omega
    · have := ih id member
      omega

theorem climb_some (next : path.climb? = some (level, above)) :
    level.side = .ceil ∧ (path.Sound → (down level above).Sound) ∧
      ∀ vars, path.Held vars → (down level above).Held vars := by
  induction path with
  | root => cases next
  | down last before ih =>
    cases side : last.side <;> simp only [climb?, side] at next
    · cases next
      exact ⟨side, fun whole => whole, fun _ whole => whole⟩
    · obtain ⟨ceilSide, sound, held⟩ := ih next
      exact ⟨ceilSide, fun whole => sound whole.2, fun vars whole => held vars whole.2.2.2⟩

variable [Scalar α]

theorem pendingRows_of_climb_none (top : path.climb? = none) : path.pendingRows = [] := by
  induction path with
  | root => rfl
  | down level above ih =>
    cases side : level.side <;> simp only [climb?, pendingRows, side] at top ⊢
    · cases top
    · exact ih top

theorem pendingRows_of_climb (next : path.climb? = some (level, above)) :
    path.pendingRows = (above.rows ++ [.split .floor level.var level.value]) :: above.pendingRows := by
  induction path with
  | root => cases next
  | down last before ih =>
    cases side : last.side <;> simp only [climb?, pendingRows, side] at next ⊢
    · cases next
      rfl
    · exact ih next

end Climb

end Path

/-- An outcome folded upward from the end of a path resolves the splits that are on their floor side.
It stops at the last ceil side, where the floor side comes next, or resolves the root. -/
theorem fold_climb [Scalar α] {c : Controller α} {path : Path α} {n : Node α} {t : Recursion.Trail σ α} {s : σ}
    (sound : path.Sound) (placed : n.At path) {fuel : Nat} (enough : path.depth ≤ fuel) (outcome : Outcome) :
    (∃ n' combined, path.climb? = none ∧ n'.At .root ∧
        Gives (fold fuel path.id outcome) ((c.atPath path n).carry t) s (.ok (some combined))
          ((c.atPath .root n').carry t) s) ∨
      ∃ level above n' combined, path.climb? = some (level, above) ∧ n'.At (.down level above) ∧
        Gives (fold fuel path.id outcome) ((c.atPath path n).carry t) s (.ok none)
          ((c.headAt (.down (level.turn n' combined) above) level.other).carry t) s := by
  induction path generalizing n fuel outcome with
  | root => exact Or.inl ⟨n, outcome, rfl, placed, fold_root placed fuel outcome⟩
  | down level above ih =>
    rw [Path.depth] at enough
    cases resolved : level.ceil with
    | none =>
      have ceilSide : level.side = .ceil := by unfold Level.side; rw [resolved]
      refine Or.inr ⟨level, above, n, outcome, ?_, placed, fold_ceil sound.1 ceilSide placed fuel outcome⟩
      rw [Path.climb?, ceilSide]
    | some first =>
      have floorSide : level.side = .floor := by unfold Level.side; rw [resolved]
      have climb : (Path.down level above).climb? = above.climb? := by rw [Path.climb?, floorSide]
      obtain ⟨fuel, rfl⟩ : ∃ k, fuel = k + 1 := ⟨fuel - 1, by omega⟩
      -- Both sides of the split are resolved, so the fold goes on from its node.
      rw [climb]
      rcases ih sound.2 (n := { level.node with floorOutcome := some outcome, firstChild := none })
          (sound.1.node.of_place rfl) (Nat.le_of_succ_le_succ enough)
          (first.combine outcome) with ⟨n', combined, top, placed', ran⟩ | ⟨next, higher, n', combined, climbs, placed', ran⟩
      · exact Or.inl ⟨n', combined, top, placed', fold_floor sound.1 resolved placed ran⟩
      · exact Or.inr ⟨next, higher, n', combined, climbs, placed', fold_floor sound.1 resolved placed ran⟩

end BranchBound.Search
