import BranchBound.Proofs.LoopHeads
import BranchBound.Proofs.Truthful

/-!
# No point is lost and none is searched twice

At every head of the loop each integer point of the program satisfies the system of exactly one node
among the leaves and the waiting nodes (`systems_partition`). A split keeps this because the value it is
taken at is no integer; every other turn only moves a system from the waiting nodes to the leaves.
-/

namespace BranchBound

open Integer (BranchRow Program System)

/-! ### Points of a system -/

namespace Integer

variable {x : List ℚ}

theorem Program.holdsAt_iff {p : Program ℚ} : p.holdsAt x 0 = true ↔ p.Feasible x := by
  unfold Program.holdsAt
  simp only [Bool.and_eq_true, decide_eq_true_eq, List.all_eq_true, Rational.scalar_lt, Rational.scalar_le,
    neg_zero, add_zero, ← form_rat, Bool.not_eq_true', decide_eq_false_iff_not, not_lt]
  constructor
  · rintro ⟨⟨length, nonneg⟩, rows⟩
    exact ⟨length, nonneg, fun row member => by simpa using rows row member⟩
  · rintro ⟨length, nonneg, rows⟩
    exact ⟨⟨length, nonneg⟩, fun row member => by simpa using rows row member⟩

theorem BranchRow.holdsAt_iff {r : BranchRow ℚ} : r.holdsAt x 0 = .ok true ↔ r.Admits x := by
  unfold BranchRow.holdsAt BranchRow.Admits
  cases x[r.var]? with
  | none => simp
  | some v => simp

theorem System.branchesHoldAt_iff {branches : List (BranchRow ℚ)} :
    System.branchesHoldAt x 0 branches = .ok true ↔ ∀ r ∈ branches, r.Admits x := by
  induction branches with
  | nil => simp [System.branchesHoldAt]
  | cons r rest ih =>
    rw [List.forall_mem_cons, ← BranchRow.holdsAt_iff, ← ih, System.branchesHoldAt]
    split
    · rename_i holds
      simp [holds]
    · rename_i fails
      exact ⟨fun holds => absurd holds fails, fun holds => absurd holds.1 fails⟩

/-- The test of a point with tolerance zero decides whether the system has it. -/
theorem System.holdsAt_iff {s : System ℚ} : s.holdsAt x 0 = .ok true ↔ s.Feasible x := by
  unfold System.holdsAt System.Feasible
  rw [← Program.holdsAt_iff, ← System.branchesHoldAt_iff]
  split
  · rename_i holds
    simp [holds]
  · rename_i fails
    simp [fails]

end Integer

namespace Search

open Recursion (Trail look)

variable {σ : Type} {c : Controller ℚ} {p : Program ℚ} {oracle : Oracle σ ℚ} {state : σ} {y : List ℤ}

def holding (y : List ℤ) (systems : List (System ℚ)) : Nat :=
  systems.countP fun s => s.holdsAt (rational y) 0 = .ok true

theorem holding_append (first second : List (System ℚ)) :
    holding y (first ++ second) = holding y first + holding y second :=
  List.countP_append

theorem holding_cons_of {s : System ℚ} (feasible : s.Feasible (rational y)) (rest : List (System ℚ)) :
    holding y (s :: rest) = holding y rest + 1 :=
  List.countP_cons_of_pos (by simpa using System.holdsAt_iff.mpr feasible)

theorem holding_cons_of_not {s : System ℚ} (infeasible : ¬s.Feasible (rational y)) (rest : List (System ℚ)) :
    holding y (s :: rest) = holding y rest :=
  List.countP_cons_of_neg (by simpa using fun holds => infeasible (System.holdsAt_iff.mp holds))

/-! ### Splits -/

section Split
variable {settings : Integer.Settings ℚ} {rows : List (BranchRow ℚ)} {depth var : Nat} {value : ℚ}
  {t t' : Trail σ ℚ}

/-- A split is never taken at an integer. -/
theorem floor_lt_ceil_of_split (tolerant : 0 ≤ settings.intTol)
    (looked : look p oracle settings rows depth t = (.ok (.split var value), t')) : ⌊value⌋ < ⌈value⌉ := by
  cases Recursion.looked_of_look looked with
  | split _ _ _ _ fractional =>
    by_contra closed
    have above : (⌈value⌉ : ℚ) ≤ ⌊value⌋ := by exact_mod_cast not_lt.mp closed
    have whole : value = ⌊value⌋ := le_antisymm ((Int.le_ceil value).trans above) (Int.floor_le value)
    have passes := isWhole_intCast tolerant ⌊value⌋
    rw [← whole, (fractional?_eq_some fractional).2] at passes
    cases passes

theorem not_both_of_split (tolerant : 0 ≤ settings.intTol)
    (looked : look p oracle settings rows depth t = (.ok (.split var value), t'))
    (high : System.Feasible ⟨p, rows ++ [.split .ceil var value]⟩ (rational y)) :
    ¬System.Feasible ⟨p, rows ++ [.split .floor var value]⟩ (rational y) := by
  intro low
  obtain ⟨v, read, above⟩ := BranchRow.admits_ceil.mp (System.feasible_append.mp high).2
  obtain ⟨w, again, below⟩ := BranchRow.admits_floor.mp (System.feasible_append.mp low).2
  obtain rfl : v = w := Option.some.inj (read.symm.trans again)
  have apart := floor_lt_ceil_of_split tolerant looked
  have meet : (⌈value⌉ : ℚ) ≤ ⌊value⌋ := above.trans below
  exact absurd (by exact_mod_cast meet) (not_le.mpr apart)

/-- The two sides of a split have each integer point as often as the node. -/
theorem holding_split (tolerant : 0 ≤ settings.intTol)
    (looked : look p oracle settings rows depth t = (.ok (.split var value), t')) (rest : List (System ℚ)) :
    holding y (⟨p, rows ++ [.split .ceil var value]⟩ :: ⟨p, rows ++ [.split .floor var value]⟩ :: rest) =
      holding y (⟨p, rows⟩ :: rest) := by
  by_cases feasible : System.Feasible ⟨p, rows⟩ (rational y)
  · rw [holding_cons_of feasible]
    by_cases high : System.Feasible ⟨p, rows ++ [.split .ceil var value]⟩ (rational y)
    · rw [holding_cons_of high, holding_cons_of_not (not_both_of_split tolerant looked high)]
    · rw [holding_cons_of_not high, holding_cons_of ((feasible_of_split looked feasible).resolve_left high)]
  · have neither : ∀ side, ¬System.Feasible ⟨p, rows ++ [.split side var value]⟩ (rational y) :=
      fun side child => feasible (System.feasible_append.mp child).1
    rw [holding_cons_of_not feasible, holding_cons_of_not (neither .ceil), holding_cons_of_not (neither .floor)]

end Split

/-! ### Heads -/

/-- The systems are of the program, and each of its integer points is in one of them. -/
structure Partitions (p : Program ℚ) (systems : List (System ℚ)) : Prop where
  program : ∀ s ∈ systems, s.program = p
  once : ∀ y : List ℤ, p.Feasible (rational y) → holding y systems = 1

theorem Partitions.outside {systems : List (System ℚ)} (partitions : Partitions p systems)
    (infeasible : ¬p.Feasible (rational y)) : holding y systems = 0 := by
  refine List.countP_eq_zero.mpr fun s member => ?_
  have program := partitions.program s member
  simp only [decide_eq_true_eq, System.holdsAt_iff]
  intro feasible
  rw [← program] at infeasible
  exact infeasible feasible.1

theorem partitions_root : Partitions p [⟨p, []⟩] where
  program := by simp
  once y feasible := holding_cons_of ⟨feasible, by simp⟩ []

theorem partitions_split {settings : Integer.Settings ℚ} {rows : List (BranchRow ℚ)} {depth var : Nat} {value : ℚ}
    {t t' : Trail σ ℚ} (tolerant : 0 ≤ settings.intTol)
    (looked : look p oracle settings rows depth t = (.ok (.split var value), t')) {before after : List (System ℚ)}
    (partitions : Partitions p (before ++ ⟨p, rows⟩ :: after)) :
    Partitions p (before ++ ⟨p, rows ++ [.split .ceil var value]⟩ ::
      ⟨p, rows ++ [.split .floor var value]⟩ :: after) where
  program s member := by
    have earlier := partitions.program s
    simp only [List.mem_append, List.mem_cons] at member earlier
    rcases member with old | rfl | rfl | old
    · exact earlier (Or.inl old)
    · rfl
    · rfl
    · exact earlier (Or.inr (Or.inr old))
  once y feasible := by
    rw [holding_append, holding_split tolerant looked, ← holding_append]
    exact partitions.once y feasible

theorem partitions_of_reached (valid : c.settings.isValid = true) {head : Head σ ℚ}
    (reached : Reached c p oracle state head) : Partitions p (head.systems p) := by
  have tolerant : 0 ≤ (c.reset p.vars).settings.intTol := ((Integer.Settings.isValid_iff _).mp valid).1
  refine (reached.invariant (P := fun head => Partitions p (head.systems p)) ?_ ?_).2
  · intro log
    rw [systems_on (standing_root _)]
    exact partitions_root
  · intro path n t log leaves head standing partitions next
    rw [systems_on standing] at partitions
    rcases next.systems with same | ⟨var, value, t', looked, split⟩
    · rw [same]
      exact partitions
    · rw [split]
      exact partitions_split tolerant looked partitions

/-- At every head of the loop each integer point of the program satisfies the system of exactly one of the
resolved leaves and waiting nodes; at the end the leaves alone partition the integer points. -/
theorem systems_partition (c : Controller ℚ) (p : Program ℚ) (oracle : Oracle σ ℚ) (state : σ)
    (valid : c.settings.isValid = true) :
    (∀ head, Reached c p oracle state head → ∀ y : List ℤ, p.Feasible (rational y) →
      holding y (head.systems p) = 1) ∧
    ∀ solution, (c.solve p oracle state).result = .ok solution →
      ∃ head, Reached c p oracle state head ∧ head.frame.controller.waiting = [] ∧
        head.frame.controller = (c.solve p oracle state).controller ∧
        ∀ y : List ℤ, (p.Feasible (rational y) → holding y head.leaves = 1) ∧
          (¬p.Feasible (rational y) → holding y head.leaves = 0) := by
  refine ⟨fun head reached => (partitions_of_reached valid reached).once, ?_⟩
  intro solution solved
  obtain ⟨head, reached, empty, same⟩ := finished_of_solve solved
  have partitions := partitions_of_reached valid reached
  have leaves : head.systems p = head.leaves := by
    unfold Head.systems
    rw [empty]
    exact List.append_nil _
  rw [leaves] at partitions
  exact ⟨head, reached, empty, same, fun y => ⟨partitions.once y, partitions.outside⟩⟩

/-- The root of the largest `x` with `2 x ≤ 3` is split: `1` is in one of its leaves, `2` in none. -/
theorem systems_partition_one_split :
    (Controller.ofSettings (⟨5, 0, ⟨10, 0, 0⟩, false, 0⟩ : Integer.Settings ℚ)).settings.isValid = true ∧
      ∃ head, Reached (Controller.ofSettings ⟨5, 0, ⟨10, 0, 0⟩, false, 0⟩) (⟨[[2]], [3], [-1]⟩ : Program ℚ)
          (Oracle.simplex ⟨10, 0, 0⟩) {} head ∧
        head.frame.controller.counters.branched = 1 ∧ holding [1] head.leaves = 1 ∧ holding [2] head.leaves = 0 := by
  have valid : (Controller.ofSettings (⟨5, 0, ⟨10, 0, 0⟩, false, 0⟩ : Integer.Settings ℚ)).settings.isValid = true := by
    decide +kernel
  have solved : ((Controller.ofSettings ⟨5, 0, ⟨10, 0, 0⟩, false, 0⟩).solve ⟨[[2]], [3], [-1]⟩
      (Oracle.simplex (⟨10, 0, 0⟩ : Linear.Settings ℚ)) {}).result =
      .ok ⟨.optimal, ⟨some (-1), [1]⟩, ⟨3, 0, 1, 1, 1, 0, 0, 1, 1, 3, false⟩⟩ := by decide +kernel
  have branched : ((Controller.ofSettings ⟨5, 0, ⟨10, 0, 0⟩, false, 0⟩).solve ⟨[[2]], [3], [-1]⟩
      (Oracle.simplex (⟨10, 0, 0⟩ : Linear.Settings ℚ)) {}).controller.counters.branched = 1 := by decide +kernel
  obtain ⟨head, reached, -, same, leaves⟩ := (systems_partition (Controller.ofSettings ⟨5, 0, ⟨10, 0, 0⟩, false, 0⟩)
    ⟨[[2]], [3], [-1]⟩ (Oracle.simplex ⟨10, 0, 0⟩) {} valid).2 _ solved
  refine ⟨valid, head, reached, ?_, (leaves [1]).1 ?_, (leaves [2]).2 ?_⟩
  · rw [same]
    exact branched
  · rw [← Program.holdsAt_iff]
    decide +kernel
  · rw [← Program.holdsAt_iff]
    decide +kernel

end Search

end BranchBound
