import BranchBound.Proofs.Overflow
import BranchBound.Proofs.Partition

/-!
# Branching tightens

Along every path of a search the branch rows on one side of a variable get strictly tighter, and all rows of
a node have an integer point in common (`branches_tighten`). Both rest on the same two facts about a split: the
optimum that is split satisfies every row above it, and the coordinate it is split at is no integer while the
bounds of those rows are.
-/

namespace BranchBound

open Integer (BranchRow Program Side System)

/-- An oracle whose optima satisfy the branch rows of their systems. -/
def Oracle.Respects {σ : Type} (oracle : Oracle σ ℚ) : Prop :=
  ∀ state system objective x, (oracle state system).result = .ok (.optimal objective x) →
    ∀ row ∈ system.branches, row.Admits x

theorem Oracle.Respects.noted {σ : Type} {oracle : Oracle σ ℚ} (respects : oracle.Respects) : oracle.noted.Respects :=
  fun state => respects state.1

theorem Oracle.Truthful.respects {σ : Type} {oracle : Oracle σ ℚ} (truthful : oracle.Truthful) : oracle.Respects :=
  fun state system _ _ optimal => (truthful state system _ optimal).1.2

/-! ### One row -/

namespace Integer.BranchRow

/-- On the same side of the same variable the later row is strictly tighter. -/
def Tightens (earlier later : BranchRow ℚ) : Prop :=
  earlier.var = later.var → earlier.side = later.side → later.rhs < earlier.rhs

/-- The integer next to `v` on a side of it. -/
def rounded (side : Side) (v : ℚ) : ℤ :=
  match side with
  | .ceil => ⌈v⌉
  | .floor => ⌊v⌋

theorem bound_split (side : Side) (var : Nat) (value : ℚ) : (split side var value).bound = rounded side value := by
  cases side with
  | ceil => exact Rational.scalar_ceil value
  | floor => exact Rational.scalar_floor value

theorem le_rounded {k : ℤ} {v : ℚ} (side : Side) (below : (k : ℚ) ≤ v) : k ≤ rounded side v := by
  cases side with
  | ceil => exact_mod_cast below.trans (Int.le_ceil v)
  | floor => exact Int.le_floor.mpr below

theorem rounded_le {k : ℤ} {v : ℚ} (side : Side) (above : v ≤ k) : rounded side v ≤ k := by
  cases side with
  | ceil => exact Int.ceil_le.mpr above
  | floor => exact_mod_cast (Int.floor_le v).trans above

variable {r : BranchRow ℚ} {x : List ℚ} {k : ℤ}

theorem admits_iff {y : List ℚ} : r.Admits y ↔ ∃ v, y[r.var]? = some v ∧
    match r.side with
    | .ceil => r.bound ≤ v
    | .floor => v ≤ r.bound := by
  unfold Admits rhs coefficient
  cases r.side <;> simp

/-- A row with an integer bound that admits a point admits it with its coordinates rounded. -/
theorem Admits.rounded (admits : r.Admits x) (whole : r.bound = k) (side : Side) :
    r.Admits (rational (x.map (rounded side))) := by
  obtain ⟨v, read, holds⟩ := admits_iff.mp admits
  refine admits_iff.mpr ⟨BranchRow.rounded side v, by simp [rational, read], ?_⟩
  rw [whole] at holds ⊢
  cases own : r.side with
  | ceil =>
    rw [own] at holds
    exact_mod_cast le_rounded side holds
  | floor =>
    rw [own] at holds
    exact_mod_cast rounded_le side holds

theorem admits_split {var : Nat} {value : ℚ} (read : x[var]? = some value) (side : Side) :
    (split side var value).Admits (rational (x.map (rounded side))) := by
  have found : (rational (x.map (BranchRow.rounded side)))[var]? = some ((BranchRow.rounded side value : ℤ) : ℚ) := by
    simp [rational, read]
  refine admits_iff.mpr ⟨_, found, ?_⟩
  rw [bound_split]
  cases side <;> exact le_refl _

theorem tightens_split {var : Nat} {value : ℚ} (admits : r.Admits x) (whole : r.bound = k) (read : x[var]? = some value)
    (between : ⌊value⌋ < ⌈value⌉) (side : Side) : r.Tightens (split side var value) := by
  intro (sameVar : r.var = var) (sameSide : r.side = side)
  obtain ⟨v, found, holds⟩ := admits_iff.mp admits
  rw [sameVar, read] at found
  obtain rfl := Option.some.inj found
  unfold rhs coefficient
  rw [bound_split, whole, sameSide]
  rw [whole, sameSide] at holds
  cases side with
  | ceil =>
    -- an integer up to `value` is at most its floor, which is below its ceiling
    have closer : k < ⌈value⌉ := (Int.le_floor.mpr holds).trans_lt between
    simpa [split, BranchRow.rounded] using closer
  | floor =>
    have closer : ⌊value⌋ < k := between.trans_le (Int.ceil_le.mpr holds)
    simpa [split, BranchRow.rounded] using closer

end Integer.BranchRow

namespace Search

open Recursion (Trail Explored look)

/-! ### Rows on a path -/

/-- The bounds on one side of a variable, from first to last. -/
def bounds (side : Side) (var : Nat) (rows : List (BranchRow ℚ)) : List ℚ :=
  (rows.filter fun r => r.side = side ∧ r.var = var).map (·.bound)

/-- Bounds from below increase, bounds from above decrease, and they leave room for an integer point. -/
structure Tightening (vars : Nat) (rows : List (BranchRow ℚ)) : Prop where
  ceils : ∀ var, (bounds .ceil var rows).Pairwise (· < ·)
  floors : ∀ var, (bounds .floor var rows).Pairwise (· > ·)
  apart : ∀ var, ∀ low ∈ bounds .ceil var rows, ∀ high ∈ bounds .floor var rows, low ≤ high
  distinct : rows.Nodup
  point : ∃ y : List ℤ, y.length = vars ∧ ∀ row ∈ rows, row.Admits (rational y)

/-- What a split keeps of the rows on a path. -/
structure Chained (vars : Nat) (rows : List (BranchRow ℚ)) : Prop where
  whole : ∀ row ∈ rows, ∃ k : ℤ, row.bound = k
  tightens : rows.Pairwise BranchRow.Tightens
  point : ∃ y : List ℤ, y.length = vars ∧ ∀ row ∈ rows, row.Admits (rational y)

theorem chained_nil (vars : Nat) : Chained vars [] where
  whole := by simp
  tightens := .nil
  point := ⟨List.replicate vars 0, List.length_replicate, by simp⟩

section Chained
variable {vars : Nat} {rows : List (BranchRow ℚ)} {var : Nat} {low high : ℚ}

theorem mem_bounds {side : Side} {bound : ℚ} :
    bound ∈ bounds side var rows ↔ ∃ row ∈ rows, row.side = side ∧ row.var = var ∧ row.bound = bound := by
  simp [bounds, and_assoc]

theorem pairwise_bounds (tightens : rows.Pairwise BranchRow.Tightens) (side : Side) {R : ℚ → ℚ → Prop}
    (closer : ∀ earlier later : BranchRow ℚ, earlier.side = side → later.side = side → later.rhs < earlier.rhs →
      R earlier.bound later.bound) (var : Nat) : (bounds side var rows).Pairwise R := by
  rw [bounds, List.pairwise_map]
  refine (tightens.filter _).imp_of_mem fun {earlier later} first second tighter => ?_
  obtain ⟨onSide, onVar⟩ := of_decide_eq_true (List.mem_filter.mp first).2
  obtain ⟨sameSide, sameVar⟩ := of_decide_eq_true (List.mem_filter.mp second).2
  exact closer earlier later onSide sameSide (tighter (onVar.trans sameVar.symm) (onSide.trans sameSide.symm))

theorem le_of_common_point {y : List ℚ} (admits : ∀ row ∈ rows, row.Admits y) (below : low ∈ bounds .ceil var rows)
    (above : high ∈ bounds .floor var rows) : low ≤ high := by
  obtain ⟨lower, lowerMem, lowerSide, rfl, rfl⟩ := mem_bounds.mp below
  obtain ⟨upper, upperMem, upperSide, sameVar, rfl⟩ := mem_bounds.mp above
  obtain ⟨v, read, least⟩ := BranchRow.admits_iff.mp (admits lower lowerMem)
  obtain ⟨w, again, most⟩ := BranchRow.admits_iff.mp (admits upper upperMem)
  rw [sameVar, read] at again
  obtain rfl := Option.some.inj again
  rw [lowerSide] at least
  rw [upperSide] at most
  exact least.trans most

theorem Chained.tightening (chained : Chained vars rows) : Tightening vars rows where
  ceils := pairwise_bounds chained.tightens .ceil fun earlier later first second tighter => by
    simpa [BranchRow.rhs, BranchRow.coefficient, first, second] using tighter
  floors := pairwise_bounds chained.tightens .floor fun earlier later first second tighter => by
    simpa [BranchRow.rhs, BranchRow.coefficient, first, second] using tighter
  apart var low below high above := by
    obtain ⟨y, -, admits⟩ := chained.point
    exact le_of_common_point admits below above
  distinct := chained.tightens.imp fun tighter same => by
    subst same
    exact lt_irrefl _ (tighter rfl rfl)
  point := chained.point

end Chained

/-! ### Splits -/

variable {σ : Type} {c : Controller ℚ} {p : Program ℚ} {oracle : Oracle σ ℚ} {state : σ}
  {settings : Integer.Settings ℚ} {rows : List (BranchRow ℚ)} {depth : Nat}

theorem Chained.split {var : Nat} {value : ℚ} {t t' : Trail σ ℚ} (respects : oracle.Respects)
    (tolerant : 0 ≤ settings.intTol) (chained : Chained p.vars rows)
    (looked : look p oracle settings rows depth t = (.ok (.split var value), t')) (side : Side) :
    Chained p.vars (rows ++ [.split side var value]) := by
  have between := floor_lt_ceil_of_split tolerant looked
  cases Recursion.looked_of_look looked with
  | @split objective x _ _ _ replied length _ fractional =>
    have admits : ∀ row ∈ rows, row.Admits x := respects _ _ objective x replied
    obtain ⟨read, -⟩ := fractional?_eq_some fractional
    -- rounded to the side of the child, the optimum satisfies the new row and still those above, which are integer
    refine ⟨?_, ?_, x.map (BranchRow.rounded side), by simpa using length, ?_⟩
    · rw [List.forall_mem_append, List.forall_mem_singleton]
      exact ⟨chained.whole, _, BranchRow.bound_split side var value⟩
    · rw [List.pairwise_append]
      refine ⟨chained.tightens, List.pairwise_singleton _ _, fun row member new single => ?_⟩
      obtain rfl := List.mem_singleton.mp single
      obtain ⟨k, whole⟩ := chained.whole row member
      exact BranchRow.tightens_split (admits row member) whole read between side
    · rw [List.forall_mem_append, List.forall_mem_singleton]
      refine ⟨fun row member => ?_, BranchRow.admits_split read side⟩
      obtain ⟨k, whole⟩ := chained.whole row member
      exact (admits row member).rounded whole side

/-! ### Systems of a search -/

theorem chained_of_look {t t' : Trail (σ × List (Exchange ℚ)) ℚ} {verdict : Except (Error ℚ) (Recursion.Verdict ℚ)}
    (looked : look p oracle.noted settings rows depth t = (verdict, t')) (chained : Chained p.vars rows)
    (earlier : ∀ x ∈ t.oracle.2, Chained p.vars x.system.branches) :
    ∀ x ∈ t'.oracle.2, Chained p.vars x.system.branches := by
  rcases notes_look looked with same | more
  · rw [same]
    exact earlier
  · rw [more, List.forall_mem_cons]
    exact ⟨chained, earlier⟩

theorem chained_of_explored {t t' : Trail (σ × List (Exchange ℚ)) ℚ} {result : Except (Error ℚ) Outcome}
    (respects : oracle.Respects) (tolerant : 0 ≤ settings.intTol)
    (explored : Explored p oracle.noted settings rows depth t result t') (chained : Chained p.vars rows)
    (earlier : ∀ x ∈ t.oracle.2, Chained p.vars x.system.branches) :
    ∀ x ∈ t'.oracle.2, Chained p.vars x.system.branches := by
  induction explored with
  | failed looked => exact chained_of_look looked chained earlier
  | closed looked => exact chained_of_look looked chained earlier
  | ceilFailed looked _ ceil =>
    exact ceil (chained.split respects.noted tolerant looked .ceil) (chained_of_look looked chained earlier)
  | floorFailed looked _ _ ceil floor =>
    have first := ceil (chained.split respects.noted tolerant looked .ceil) (chained_of_look looked chained earlier)
    exact floor (chained.split respects.noted tolerant looked .floor) first
  | combined looked _ _ ceil floor =>
    have first := ceil (chained.split respects.noted tolerant looked .ceil) (chained_of_look looked chained earlier)
    exact floor (chained.split respects.noted tolerant looked .floor) first

theorem chained_of_mem_exchanges (respects : oracle.Respects) (tolerant : 0 ≤ c.settings.intTol) {x : Exchange ℚ}
    (member : x ∈ c.exchanges p oracle state) : Chained p.vars x.system.branches := by
  obtain ⟨result, t', explored, notes⟩ := explored_of_mem_exchanges member
  rw [notes] at member
  exact chained_of_explored respects tolerant explored (chained_nil _) (fun x none => nomatch none) x member

theorem chained_of_reached (respects : oracle.Respects) (tolerant : 0 ≤ c.settings.intTol) {head : Head σ ℚ}
    (reached : Reached c p oracle state head) : ∀ s ∈ head.systems p, Chained p.vars s.branches := by
  refine (reached.invariant (P := fun head => ∀ s ∈ head.systems p, Chained p.vars s.branches) ?_ ?_).2
  · intro log
    rw [systems_on (standing_root _)]
    exact List.forall_mem_singleton.mpr (chained_nil p.vars)
  · intro path n t log leaves head standing chained next
    rw [systems_on standing, List.forall_mem_append, List.map_cons, List.forall_mem_cons] at chained
    obtain ⟨resolved, own, pending⟩ := chained
    rcases next.systems with same | ⟨var, value, t', looked, split⟩
    · rw [same, List.forall_mem_append, List.map_cons, List.forall_mem_cons]
      exact ⟨resolved, own, pending⟩
    · rw [split, List.forall_mem_append, List.map_cons, List.map_cons, List.forall_mem_cons, List.forall_mem_cons]
      exact ⟨resolved, Chained.split respects tolerant own looked .ceil,
        Chained.split respects tolerant own looked .floor, pending⟩

/-- With an oracle whose optima satisfy their branch rows, the rows of every system that the oracle is asked, and
of every node from its creation on, tighten from first to last. -/
theorem branches_tighten (c : Controller ℚ) (p : Program ℚ) (oracle : Oracle σ ℚ) (state : σ)
    (valid : c.settings.isValid = true) (respects : oracle.Respects) :
    (∀ x ∈ c.exchanges p oracle state, Tightening p.vars x.system.branches) ∧
      ∀ head, Reached c p oracle state head → ∀ s ∈ head.systems p, Tightening p.vars s.branches := by
  have tolerant : 0 ≤ c.settings.intTol := ((Integer.Settings.isValid_iff _).mp valid).1
  refine ⟨fun x member => (chained_of_mem_exchanges respects tolerant member).tightening, ?_⟩
  intro head reached s member
  exact (chained_of_reached respects tolerant reached s member).tightening

/-- Minimise `-4 x₀ - x₁` with `5 x₀ + 2 x₁ ≤ 11`. -/
def steep : Program ℚ :=
  ⟨[[5, 2]], [11], [-4, -1]⟩

def exactly : Integer.Settings ℚ :=
  ⟨20, 0, ⟨20, 0, 0⟩, false, 0⟩

/-- On the way to `x₁ ≥ 1` and beyond, `x₀` is bounded by `2` and then by `1`. -/
theorem branches_tighten_steep :
    exactly.isValid = true ∧ (Oracle.simplex exactly.linear).Respects ∧
      (∃ x ∈ (Controller.ofSettings exactly).exchanges steep (Oracle.simplex exactly.linear) {},
        x.system.branches = [⟨0, .floor, 2⟩, ⟨1, .ceil, 1⟩, ⟨0, .floor, 1⟩] ∧ Tightening 2 x.system.branches) ∧
      ∃ head, Reached (Controller.ofSettings exactly) steep (Oracle.simplex exactly.linear) {} head ∧
        ∃ s ∈ head.systems steep, s.holdsAt [1, 3] 0 = .ok true ∧ Tightening 2 s.branches := by
  have valid : exactly.isValid = true := by decide +kernel
  have respects : (Oracle.simplex exactly.linear).Respects := (Oracle.simplex_truthful rfl rfl).respects
  have asked : ((Controller.ofSettings exactly).exchanges steep (Oracle.simplex exactly.linear) {}).any
      (·.system.branches = [⟨0, .floor, 2⟩, ⟨1, .ceil, 1⟩, ⟨0, .floor, 1⟩]) = true := by decide +kernel
  have solved : ((Controller.ofSettings exactly).solve steep (Oracle.simplex exactly.linear) {}).result =
      .ok ⟨.optimal, ⟨some (-8), [2, 0]⟩, ⟨7, 0, 3, 2, 2, 0, 0, 2, 3, 7, false⟩⟩ := by decide +kernel
  obtain ⟨tighten, nodes⟩ := branches_tighten (Controller.ofSettings exactly) steep (Oracle.simplex exactly.linear) {}
    valid respects
  obtain ⟨x, member, rows⟩ := List.any_eq_true.mp asked
  obtain ⟨head, reached, -⟩ := finished_of_solve solved
  have once := (partitions_of_reached valid reached).once [1, 3] (Program.holdsAt_iff.mp (by decide +kernel))
  obtain ⟨s, leaf, holds⟩ := List.countP_pos_iff.mp (once.symm ▸ Nat.one_pos)
  exact ⟨valid, respects, ⟨x, member, of_decide_eq_true rows, tighten x member⟩, head, reached, s, leaf,
    of_decide_eq_true holds, nodes head reached s leaf⟩

end Search

end BranchBound
