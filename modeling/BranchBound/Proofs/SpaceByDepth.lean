import BranchBound.Proofs.LoopHeads

/-!
# The space of a search

A search holds its root and both children of every split on the path to the next node, with one
branch row for each child, and nothing else (`solve_space_by_depth`): resolved subtrees are
dropped as soon as their outcome is known.
-/

namespace BranchBound.Search

open Integer (BranchRow System)
open Recursion (Trail Explored look)

variable {σ α : Type} [Scalar α]

/-- The open nodes and their rows are those of a path to a node at `depth`. -/
structure Head.Fits (head : Head σ α) (depth : Nat) : Prop where
  nodes : head.frame.controller.nodes.size = 2 * depth + 1
  rows : head.frame.controller.store.rows.size = 2 * depth
  tips : ∀ (i : Nat) (m : Node α), head.frame.controller.nodes[i]? = some m → 1 ≤ i → m.tip = some (i - 1)

section Heads
variable {c : Controller α} {vars : Nat} {path : Path α} {n : Node α}

theorem fits_on (standing : Standing vars path n) (t : Trail σ α) (log : Array (Event α))
    (leaves : List (System α)) : (Head.on c path n t log leaves).Fits n.depth where
  nodes := by
    show (path.nodes n).toArray.size = _
    rw [List.size_toArray, path.length_nodes, standing.placed.depth]
  rows := by
    show path.store.toArray.size = _
    rw [List.size_toArray, path.length_store, standing.placed.depth]
  tips i m read later := by
    have read : (path.nodes n).toArray[i]? = some m := read
    rw [List.getElem?_toArray] at read
    exact Path.tip_of_nodes standing.sound standing.held standing.placed read later

variable {p : Integer.Program α} {oracle : Oracle σ α} {state : σ} {head : Head σ α}

theorem fits_of_reached (reached : Reached c p oracle state head) {id : Nat} {rest : List Nat}
    (waits : head.frame.controller.waiting = id :: rest) :
    ∃ n, head.frame.controller.nodes[id]? = some n ∧ head.Fits n.depth := by
  cases reached.atHead with
  | @on path n t log leaves standing =>
    obtain ⟨rfl, -⟩ := List.cons.inj waits
    exact ⟨n, atPath_node (c.reset p.vars) path n, fits_on standing t log leaves⟩
  | finished _ => cases waits

theorem left_of_solve {solution : Solution α} (solved : (c.solve p oracle state).result = .ok solution) :
    (∃ root : Node α, root.At .root ∧ (c.solve p oracle state).controller.nodes = #[root]) ∧
      (c.solve p oracle state).controller.store.rows = #[] := by
  obtain ⟨head, reached, empty, same⟩ := finished_of_solve solved
  rw [← same]
  cases reached.atHead with
  | on _ => cases empty
  | @finished n _ _ _ _ placed => exact ⟨⟨n, placed, rfl⟩, rfl⟩

end Heads

/-! ### The most nodes held -/

section Peak
variable {p : Integer.Program α} {oracle : Oracle σ α} {settings : Integer.Settings α}
  {rows : List (BranchRow α)} {depth : Nat} {t t' : Trail σ α}

def Counters.PeaksAtDepth (k : Counters) : Prop :=
  k.peakNodes = 2 * k.maxDepth + 1

theorem peaksAtDepth_splitAt {k : Counters} (peaks : k.PeaksAtDepth) (depth : Nat) :
    (Recursion.splitAt depth k).PeaksAtDepth := by
  unfold Counters.PeaksAtDepth Recursion.splitAt at *
  dsimp only
  omega

theorem peaksAtDepth_look {verdict : Except (Error α) (Recursion.Verdict α)}
    (looked : look p oracle settings rows depth t = (verdict, t')) (peaks : t.counters.PeaksAtDepth) :
    t'.counters.PeaksAtDepth := by
  cases Recursion.looked_of_look looked with
  | split _ _ _ _ _ => exact peaksAtDepth_splitAt (k := { t.counters with explored := _ }) peaks depth
  | integral _ _ _ _ _ =>
    unfold Recursion.Trail.offer
    split <;> exact peaks
  | _ => exact peaks

end Peak

/-- Before each visit a search holds `2 d + 1` nodes and `2 d` rows, where `d` is the depth of the next node, and
the node at position `i` after the root has row `i - 1` for its last one. The most nodes that a solve held are
`2 d + 1` for its greatest depth `d`; once it returns, the root alone is left, and no row. -/
theorem solve_space_by_depth (c : Controller α) (p : Integer.Program α) (oracle : Oracle σ α) (state : σ) :
    (∀ head, Reached c p oracle state head → ∀ id rest, head.frame.controller.waiting = id :: rest →
      ∃ n : Node α, head.frame.controller.nodes[id]? = some n ∧ head.Fits n.depth) ∧
    ∀ solution, (c.solve p oracle state).result = .ok solution →
      solution.counters.peakNodes = 2 * solution.counters.maxDepth + 1 ∧
      (∃ root : Node α, root.At .root ∧ (c.solve p oracle state).controller.nodes = #[root]) ∧
      (c.solve p oracle state).controller.store.rows = #[] := by
  refine ⟨fun head reached id rest waits => fits_of_reached reached waits, ?_⟩
  intro solution solved
  obtain ⟨outcome, t, explored, rfl⟩ := explored_of_solve solved
  have peaks := explored.invariant (P := fun t => t.counters.PeaksAtDepth)
    (fun _ _ _ _ _ looked held => peaksAtDepth_look looked held) rfl
  exact ⟨peaks, left_of_solve solved⟩

/-- Splits two levels down, then finds no point. -/
def twoLevels : Oracle Unit ℚ :=
  Oracle.byDepth fun depth => if depth < 2 then .optimal (-1) [1 / 2, 1 / 2] else .infeasible

/-- Of the seven nodes of a full tree five are held at once, before the first leaf. After the two leaves on the ceil
side of the root three are held, and the root alone at the end. -/
theorem solve_space_by_depth_full_tree : ∃ (c : Controller ℚ) (p : Integer.Program ℚ) (solution : Solution ℚ),
    c = Controller.ofSettings ⟨9, 0, ⟨10, 0, 0⟩, false, 0⟩ ∧ p = ⟨[[1, 1]], [4], [-1, -1]⟩ ∧
      (c.solve p twoLevels ()).result = .ok solution ∧
      solution.counters.explored = 7 ∧ solution.counters.peakNodes = 5 ∧
      solution.counters.peakNodes = 2 * solution.counters.maxDepth + 1 ∧
      (c.solve p twoLevels ()).controller.store.rows = #[] ∧
      (∃ head n, Reached c p twoLevels () head ∧ head.frame.controller.waiting = [3, 4, 2] ∧
        head.frame.controller.nodes[3]? = some n ∧ n.depth = 2 ∧ head.Fits n.depth) ∧
      ∃ head n, Reached c p twoLevels () head ∧ head.frame.controller.waiting = [2] ∧
        head.frame.controller.nodes[2]? = some n ∧ n.depth = 1 ∧ head.Fits n.depth := by
  obtain ⟨c, made⟩ : ∃ c : Controller ℚ, c = Controller.ofSettings ⟨9, 0, ⟨10, 0, 0⟩, false, 0⟩ := ⟨_, rfl⟩
  obtain ⟨p, posed⟩ : ∃ p : Integer.Program ℚ, p = ⟨[[1, 1]], [4], [-1, -1]⟩ := ⟨_, rfl⟩
  obtain ⟨heads, ends⟩ := solve_space_by_depth c p twoLevels ()
  have solved : (c.solve p twoLevels ()).result =
      .ok ⟨.infeasible, ⟨none, [0, 0]⟩, ⟨7, 0, 3, 0, 4, 0, 0, 0, 2, 5, false⟩⟩ := by
    rw [made, posed]
    decide +kernel
  obtain ⟨peak, -, rows⟩ := ends _ solved
  -- what waits after so many turns, and how deep the next node is
  have after : ∀ turns id rest depth, (c.frameAfter? p twoLevels () turns).map (fun frame =>
      (frame.controller.waiting, (frame.controller.nodes[id]?).map Node.depth)) = some (id :: rest, some depth) →
      ∃ head n, Reached c p twoLevels () head ∧ head.frame.controller.waiting = id :: rest ∧
        head.frame.controller.nodes[id]? = some n ∧ n.depth = depth ∧ head.Fits n.depth := by
    intro turns id rest depth seen
    obtain ⟨frame, ran, read⟩ := Option.map_eq_some_iff.mp seen
    obtain ⟨head, reached, rfl⟩ := reached_of_frameAfter? ran
    obtain ⟨waits, deep⟩ := Prod.mk.inj read
    obtain ⟨n, found, fits⟩ := heads head reached id rest waits
    rw [found] at deep
    exact ⟨head, n, reached, waits, found, Option.some.inj deep, fits⟩
  refine ⟨c, p, _, made, posed, solved, rfl, rfl, peak, rows, after 2 3 [4, 2] 2 ?_, after 4 2 [] 1 ?_⟩
  · rw [made, posed]
    decide +kernel
  · rw [made, posed]
    decide +kernel

end BranchBound.Search
