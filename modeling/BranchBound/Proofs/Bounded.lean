import BranchBound.Proofs.Truthful

/-!
# Bounded programs

If the relaxation of a program is bounded, its integer points lie in a box, and every split cuts
the box of its node (`Tight.split`). So the search tree is finite, and with nodes and pivots enough
a solve closes all of its nodes (`explored_bounded`).
-/

namespace BranchBound.Search

open Integer (BranchRow System)
open Recursion (Trail Explored look)

/-! ### Boxes -/

/-- The real points of a system lie between `lo` and `hi`. -/
def Boxed (s : System ℚ) (lo hi : ℕ → ℤ) : Prop :=
  ∀ y : List ℝ, s.Feasible y → ∀ (j : ℕ) (v : ℝ), y[j]? = some v → (lo j : ℝ) ≤ v ∧ v ≤ (hi j : ℝ)

def width (vars : ℕ) (lo hi : ℕ → ℤ) : ℕ :=
  ∑ j ∈ Finset.range vars, (hi j - lo j).toNat

theorem width_lt {vars var : ℕ} {lo hi lo' hi' : ℕ → ℤ} (inside : var < vars)
    (same : ∀ j, j ≠ var → lo' j = lo j ∧ hi' j = hi j)
    (less : (hi' var - lo' var).toNat < (hi var - lo var).toNat) : width vars lo' hi' < width vars lo hi := by
  unfold width
  refine Finset.sum_lt_sum ?_ ⟨var, Finset.mem_range.mpr inside, less⟩
  intro j _
  by_cases here : j = var
  · rw [here]
    exact less.le
  · rw [(same j here).1, (same j here).2]

/-- A system whose points lie in a box of width at most `size`. -/
structure Tight (p : Integer.Program ℚ) (rows : List (BranchRow ℚ)) (size : ℕ) : Prop where
  inside : ∀ r ∈ rows, r.var < p.vars
  box : ∃ lo hi, Boxed ⟨p, rows⟩ lo hi ∧ width p.vars lo hi ≤ size

section Split
variable {p : Integer.Program ℚ} {rows : List (BranchRow ℚ)} {var : ℕ} {value : ℚ} {lo hi : ℕ → ℤ}

theorem boxed_ceil (boxed : Boxed ⟨p, rows⟩ lo hi) :
    Boxed ⟨p, rows ++ [.split .ceil var value]⟩ (Function.update lo var ⌈value⌉) hi := by
  intro y feasible j v read
  rw [System.feasible_append, BranchRow.admits_ceil] at feasible
  obtain ⟨base, w, readW, above⟩ := feasible
  refine ⟨?_, (boxed y base j v read).2⟩
  by_cases here : j = var
  · subst j
    obtain rfl : v = w := Option.some.inj (read.symm.trans readW)
    rw [Function.update_self]
    exact above
  · rw [Function.update_of_ne here]
    exact (boxed y base j v read).1

theorem boxed_floor (boxed : Boxed ⟨p, rows⟩ lo hi) :
    Boxed ⟨p, rows ++ [.split .floor var value]⟩ lo (Function.update hi var ⌊value⌋) := by
  intro y feasible j v read
  rw [System.feasible_append, BranchRow.admits_floor] at feasible
  obtain ⟨base, w, readW, below⟩ := feasible
  refine ⟨(boxed y base j v read).1, ?_⟩
  by_cases here : j = var
  · subst j
    obtain rfl : v = w := Option.some.inj (read.symm.trans readW)
    rw [Function.update_self]
    exact below
  · rw [Function.update_of_ne here]
    exact (boxed y base j v read).2

/-- Both sides of a split at a point of the system have a narrower box. -/
theorem Tight.split {size : ℕ} {x : List ℚ} (tight : Tight p rows size) (feasible : System.Feasible ⟨p, rows⟩ x)
    (read : x[var]? = some value) (fractional : ∀ k : ℤ, value ≠ k) :
    ∃ smaller, size = smaller + 1 ∧ Tight p (rows ++ [.split .ceil var value]) smaller ∧
      Tight p (rows ++ [.split .floor var value]) smaller := by
  obtain ⟨inside, lo, hi, boxed, narrow⟩ := tight
  have within : var < p.vars := by
    rw [← feasible.1.length]
    exact (List.getElem?_eq_some_iff.mp read).1
  have real : (x.map (Rat.cast : ℚ → ℝ))[var]? = some (value : ℝ) := by
    rw [List.getElem?_map, read]
    rfl
  obtain ⟨above, below⟩ := boxed _ (System.feasible_cast.mpr feasible) var value real
  have above : (lo var : ℚ) ≤ value := by exact_mod_cast above
  have below : value ≤ (hi var : ℚ) := by exact_mod_cast below
  have ceilHigh : lo var < ⌈value⌉ := Int.lt_ceil.mpr (lt_of_le_of_ne above (fractional (lo var)).symm)
  have floorLow : ⌊value⌋ < hi var := Int.floor_lt.mpr (lt_of_le_of_ne below (fractional (hi var)))
  have ceilLow : ⌈value⌉ ≤ hi var := Int.ceil_le.mpr below
  have floorHigh : lo var ≤ ⌊value⌋ := Int.le_floor.mpr above
  have ceilWidth : width p.vars (Function.update lo var ⌈value⌉) hi < width p.vars lo hi := by
    refine width_lt within (fun j other => ⟨Function.update_of_ne other _ _, rfl⟩) ?_
    rw [Function.update_self]
    omega
  have floorWidth : width p.vars lo (Function.update hi var ⌊value⌋) < width p.vars lo hi := by
    refine width_lt within (fun j other => ⟨rfl, Function.update_of_ne other _ _⟩) ?_
    rw [Function.update_self]
    omega
  have added : ∀ side, ∀ r ∈ rows ++ [BranchRow.split side var value], r.var < p.vars := by
    intro side r member
    rcases List.mem_append.mp member with old | new
    · exact inside r old
    · rw [List.mem_singleton.mp new]
      exact within
  exact ⟨size - 1, by omega, ⟨added .ceil, _, _, boxed_ceil boxed, by omega⟩,
    ⟨added .floor, _, _, boxed_floor boxed, by omega⟩⟩

end Split

/-! ### The root -/

section Root
variable {p : Integer.Program ℚ} {bound : ℝ}

theorem form_lower (coeffs : List ℚ) {y : List ℝ} (nonneg : ∀ v ∈ y, 0 ≤ v) (upper : ∀ v ∈ y, v ≤ bound)
    (positive : 0 ≤ bound) : -(((coeffs.map abs).sum : ℚ) : ℝ) * bound ≤ form coeffs y := by
  induction coeffs generalizing y with
  | nil => simp [form]
  | cons a rest ih =>
    obtain _ | ⟨v, others⟩ := y
    · have sum : (0 : ℝ) ≤ (((a :: rest).map abs).sum : ℚ) := by
        exact_mod_cast List.sum_nonneg (by simp)
      have := mul_nonneg sum positive
      simp only [form, List.zipWith_nil_right, List.sum_nil]
      linarith
    · have later := ih (y := others) (fun w member => nonneg w (List.mem_cons_of_mem _ member))
        (fun w member => upper w (List.mem_cons_of_mem _ member))
      have small := nonneg v List.mem_cons_self
      have large := upper v List.mem_cons_self
      have term : -(|(a : ℝ)| * bound) ≤ (a : ℝ) * v := by
        have lower := neg_abs_le (a : ℝ)
        have size := abs_nonneg (a : ℝ)
        nlinarith
      simp only [form, List.map_cons, List.sum_cons, List.zipWith_cons_cons] at later ⊢
      rw [Rat.cast_add, Rat.cast_abs]
      linarith

theorem tight_root (bounded : ∀ y : List ℝ, p.Feasible y → ∀ v ∈ y, v ≤ bound) :
    Tight p [] (width p.vars (fun _ => 0) fun _ => ⌈bound⌉) where
  inside := by simp
  box := by
    refine ⟨fun _ => 0, fun _ => ⌈bound⌉, ?_, le_refl _⟩
    intro y feasible j v read
    have member := List.mem_of_getElem? read
    refine ⟨by simpa using feasible.1.nonneg v member, ?_⟩
    exact (bounded y feasible.1 v member).trans (Int.le_ceil bound)

theorem not_unbounded (bounded : ∀ y : List ℝ, p.Feasible y → ∀ v ∈ y, v ≤ bound) {rows : List (BranchRow ℚ)}
    (inside : ∀ r ∈ rows, r.var < p.vars) : ¬(System.relaxation ⟨p, rows⟩).Answers .unbounded := by
  intro deep
  obtain ⟨y, feasible, below⟩ := deep (-(((p.objective.map abs).sum : ℚ) : ℝ) * max bound 0)
  have base : p.Feasible y := ((System.feasible_relaxation inside).mp feasible).1
  have lower := form_lower p.objective base.nonneg
    (fun v member => (bounded y base v member).trans (le_max_left bound 0)) (le_max_right bound 0)
  exact absurd below (not_lt.mpr lower)

end Root

/-! ### The tree -/

/-- No node was left open in between. -/
structure Steady {σ : Type} (t t' : Trail σ ℚ) : Prop where
  limited : t'.counters.limited = t.counters.limited
  unbounded : t'.counters.unbounded = t.counters.unbounded
  nodeLimitReached : t'.counters.nodeLimitReached = t.counters.nodeLimitReached

theorem Steady.trans {σ : Type} {t₁ t₂ t₃ : Trail σ ℚ} (first : Steady t₁ t₂) (second : Steady t₂ t₃) :
    Steady t₁ t₃ :=
  ⟨second.limited.trans first.limited, second.unbounded.trans first.unbounded,
    second.nodeLimitReached.trans first.nodeLimitReached⟩

theorem steady_offer {σ : Type} (t : Trail σ ℚ) (objective : ℚ) (x : List ℚ) : Steady t (t.offer objective x) := by
  unfold Recursion.Trail.offer
  split <;> exact ⟨rfl, rfl, rfl⟩

section Tree
variable {p : Integer.Program ℚ} {bound : ℝ} {settings : Integer.Settings ℚ} {rows : List (BranchRow ℚ)}
  {depth size : ℕ} {t t' : Trail Oracle.Tally ℚ}

structure Exact (p : Integer.Program ℚ) (bound : ℝ) (settings : Integer.Settings ℚ) : Prop where
  valid : p.fault? = none
  bounded : ∀ y : List ℝ, p.Feasible y → ∀ v ∈ y, v ≤ bound
  intTol : settings.intTol = 0
  pivotTol : settings.linear.pivotTol = 0
  feasTol : settings.linear.feasTol = 0

/-- The budget of pivots for systems with at most `rows` branch rows. -/
def pivotsFor (p : Integer.Program ℚ) (rows : ℕ) : ℕ :=
  2 * 2 ^ (p.vars + 2 * (p.rhs.length + rows))

theorem look_tight (exact : Exact p bound settings) (pivots : pivotsFor p rows.length ≤ settings.linear.maxPivots)
    (tight : Tight p rows size) (left : t.counters.explored < settings.maxNodes)
    {verdict : Except (Error ℚ) (Recursion.Verdict ℚ)}
    (looked : look p (Oracle.simplex settings.linear) settings rows depth t = (verdict, t')) :
    t'.counters.explored = t.counters.explored + 1 ∧ Steady t t' ∧
      match verdict with
      | .error _ => False
      | .ok (.closed _) => True
      | .ok (.split var value) => ∃ smaller, size = smaller + 1 ∧
          Tight p (rows ++ [.split .ceil var value]) smaller ∧
          Tight p (rows ++ [.split .floor var value]) smaller := by
  obtain ⟨answer, replied, answers, ends⟩ := Oracle.simplex_answers t.oracle ⟨p, rows⟩ exact.pivotTol
    exact.feasTol exact.valid tight.inside pivots
  cases Recursion.looked_of_look looked with
  | spent spent => exact absurd left (not_lt.mpr spent)
  | refused _ failed =>
    rw [replied] at failed
    cases failed
  | limited _ given =>
    rw [replied] at given
    exact absurd (Except.ok.inj given) (ends _ _)
  | infeasible _ _ => exact ⟨rfl, ⟨rfl, rfl, rfl⟩, trivial⟩
  | unbounded _ given =>
    rw [replied] at given
    obtain rfl := Except.ok.inj given
    exact absurd answers (not_unbounded exact.bounded tight.inside)
  | wrongLength _ given wrong =>
    rw [replied] at given
    obtain rfl := Except.ok.inj given
    exact absurd answers.1.length wrong
  | pruned _ _ _ _ => exact ⟨rfl, ⟨rfl, rfl, rfl⟩, trivial⟩
  | integral _ _ _ _ _ =>
    have asked : Steady t (t.answered (Oracle.simplex settings.linear) ⟨p, rows⟩) := ⟨rfl, rfl, rfl⟩
    exact ⟨(Recursion.offer_keeps ..).2.2.1, asked.trans (steady_offer _ _ _), trivial⟩
  | split _ given _ _ fractional =>
    rw [replied] at given
    obtain rfl := Except.ok.inj given
    refine ⟨rfl, ⟨rfl, rfl, rfl⟩, ?_⟩
    have feasible := (System.feasible_relaxation tight.inside).mp answers.1
    obtain ⟨read, notWhole⟩ := fractional?_eq_some fractional
    refine tight.split feasible read ?_
    rintro k rfl
    rw [isWhole_intCast exact.intTol.ge k] at notWhole
    cases notWhole

theorem pivotsFor_le {fewer more : ℕ} (le : fewer ≤ more) : pivotsFor p fewer ≤ pivotsFor p more := by
  unfold pivotsFor
  exact Nat.mul_le_mul_left 2 (Nat.pow_le_pow_right (by norm_num) (by omega))

/-- From a box of width `size` a subtree has fewer than `2 ^ (size + 1)` nodes, all of them closed. -/
theorem explored_tight (exact : Exact p bound settings) {most : ℕ}
    (pivots : pivotsFor p most ≤ settings.linear.maxPivots) {result : Except (Error ℚ) Outcome}
    (explored : Explored p (Oracle.simplex settings.linear) settings rows depth t result t') :
    ∀ size, Tight p rows size → rows.length + size ≤ most →
      t.counters.explored + 2 ^ (size + 1) ≤ settings.maxNodes + 1 →
      (∃ outcome, result = .ok outcome) ∧ Steady t t' ∧
        t'.counters.explored + 1 ≤ t.counters.explored + 2 ^ (size + 1) := by
  have enough : ∀ {rows : List (BranchRow ℚ)} {size : ℕ}, rows.length + size ≤ most →
      pivotsFor p rows.length ≤ settings.linear.maxPivots :=
    fun few => (pivotsFor_le (by omega)).trans pivots
  have double : ∀ size : ℕ, 2 ^ (size + 1 + 1) = 2 * 2 ^ (size + 1) := fun size => pow_succ' 2 (size + 1)
  have positive : ∀ size : ℕ, 2 ≤ 2 ^ (size + 1) := fun size => Nat.le_self_pow (by omega) 2
  induction explored with
  | failed looked =>
    intro size tight few nodes
    have least := positive size
    exact (look_tight exact (enough few) tight (by omega) looked).2.2.elim
  | closed looked =>
    intro size tight few nodes
    have least := positive size
    obtain ⟨used, steady, -⟩ := look_tight exact (enough few) tight (by omega) looked
    exact ⟨⟨_, rfl⟩, steady, by omega⟩
  | ceilFailed looked _ ceil =>
    intro size tight few nodes
    have least := positive size
    obtain ⟨used, -, smaller, rfl, ceilTight, -⟩ := look_tight exact (enough few) tight (by omega) looked
    have twice := double smaller
    obtain ⟨⟨_, impossible⟩, -⟩ := ceil smaller ceilTight (by simp; omega) (by omega)
    cases impossible
  | floorFailed looked _ _ ceil floor =>
    intro size tight few nodes
    have least := positive size
    obtain ⟨used, -, smaller, rfl, ceilTight, floorTight⟩ := look_tight exact (enough few) tight (by omega) looked
    have twice := double smaller
    obtain ⟨-, -, ceilNodes⟩ := ceil smaller ceilTight (by simp; omega) (by omega)
    obtain ⟨⟨_, impossible⟩, -⟩ := floor smaller floorTight (by simp; omega) (by omega)
    cases impossible
  | combined looked _ _ ceil floor =>
    intro size tight few nodes
    have least := positive size
    obtain ⟨used, steady, smaller, rfl, ceilTight, floorTight⟩ :=
      look_tight exact (enough few) tight (by omega) looked
    have twice := double smaller
    obtain ⟨-, ceilSteady, ceilNodes⟩ := ceil smaller ceilTight (by simp; omega) (by omega)
    obtain ⟨-, floorSteady, floorNodes⟩ := floor smaller floorTight (by simp; omega) (by omega)
    exact ⟨⟨_, rfl⟩, steady.trans (ceilSteady.trans floorSteady), by omega⟩

end Tree

/-! ### Solves -/

theorem incumbent_of_explored {σ : Type} {p : Integer.Program ℚ} {oracle : Oracle σ ℚ}
    {settings : Integer.Settings ℚ} {rows : List (BranchRow ℚ)} {depth : ℕ} {t t' : Trail σ ℚ} {outcome : Outcome}
    (explored : Explored p oracle settings rows depth t (.ok outcome) t') (other : outcome ≠ .optimal) :
    t'.incumbent = t.incumbent := by
  induction explored using Explored.ok_induction with
  | closed looked =>
    cases Recursion.looked_of_look looked with
    | integral _ _ _ _ _ => exact absurd rfl other
    | _ => rfl
  | @combined _ _ _ _ _ _ ceil _ floor _ looked _ _ ceilSide floorSide =>
    have both : ceil ≠ .optimal ∧ floor ≠ .optimal := by
      constructor
      · rintro rfl
        exact other (by simp [Outcome.combine])
      · rintro rfl
        exact other (by simp [Outcome.combine])
    rw [floorSide both.2, ceilSide both.1]
    cases Recursion.looked_of_look looked with
    | split _ _ _ _ _ => rfl

/-- With nodes and pivots enough for the box of the root, a solve explores the whole tree. -/
theorem explored_bounded {p : Integer.Program ℚ} {bound : ℝ} {settings : Integer.Settings ℚ} {size : ℕ}
    (exact : Exact p bound settings) (tight : Tight p [] size) (nodes : 2 ^ (size + 1) ≤ settings.maxNodes)
    (pivots : pivotsFor p size ≤ settings.linear.maxPivots) :
    ∃ outcome t, Explored p (Oracle.simplex settings.linear) settings [] 0 (Recursion.start p {}) (.ok outcome) t ∧
      Steady (Recursion.start p {}) t ∧ (solve p settings).result = .ok ⟨outcome, t.incumbent, t.counters⟩ := by
  have accepted : settings.isValid = true := by
    rw [Integer.Settings.isValid_iff, exact.intTol]
    norm_num
  have explored := Recursion.explored_explore p (Oracle.simplex settings.linear) settings [] 0 (Recursion.start p {})
  obtain ⟨c', ran⟩ := gives_search (Controller.ofSettings settings) p (Oracle.simplex settings.linear) {}
  have solved := (solve_of_gives accepted exact.valid ran).1
  have unvisited : (Recursion.start p ({} : Oracle.Tally)).counters.explored = 0 := rfl
  obtain ⟨⟨outcome, found⟩, steady, -⟩ := explored_tight exact pivots explored size tight (by simp) (by omega)
  rcases ended : Recursion.explore p (Oracle.simplex settings.linear) settings [] 0 (Recursion.start p {}) with
    ⟨result, t⟩
  rw [ended] at explored found steady
  obtain rfl : result = .ok outcome := found
  have uncapped : t.counters.nodeLimitReached = false := steady.nodeLimitReached
  refine ⟨outcome, t, explored, steady, ?_⟩
  have same : (Controller.ofSettings settings).settings = settings := rfl
  rw [result_solve, solved, same, Recursion.solve, ended]
  dsimp only
  rw [Recursion.finalOutcome, uncapped, if_neg (by simp)]

/-- The search is complete on bounded programs: with exact scalars and budgets that are large enough,
a solve ends with the best integer point, or shows that there is none. -/
theorem solve_bounded {p : Integer.Program ℚ} (valid : p.fault? = none) {bound : ℝ}
    (bounded : ∀ y : List ℝ, p.Feasible y → ∀ v ∈ y, v ≤ bound) :
    ∃ nodes pivots, ∀ settings : Integer.Settings ℚ, settings.intTol = 0 → settings.linear.pivotTol = 0 →
      settings.linear.feasTol = 0 → nodes ≤ settings.maxNodes → pivots ≤ settings.linear.maxPivots →
      ∃ solution, (solve p settings).result = .ok solution ∧ solution.counters.nodeLimitReached = false ∧
        ((∃ y : List ℤ, p.Feasible (rational y)) →
          solution.outcome = .optimal ∧ ∃ z : List ℤ, solution.incumbent.point = rational z ∧
            p.Feasible (rational z) ∧ solution.incumbent.objective = some (p.value (rational z)) ∧
            ∀ y : List ℤ, p.Feasible (rational y) → p.value (rational z) ≤ p.value (rational y)) ∧
        ((¬∃ y : List ℤ, p.Feasible (rational y)) →
          solution.outcome = .infeasible ∧ solution.incumbent = ⟨none, List.replicate p.vars 0⟩) := by
  have tight := tight_root bounded
  generalize width p.vars (fun _ => 0) (fun _ => ⌈bound⌉) = size at tight
  refine ⟨2 ^ (size + 1), pivotsFor p size, ?_⟩
  intro settings intTol pivotTol feasTol nodes pivots
  have exact : Exact p bound settings := ⟨valid, bounded, intTol, pivotTol, feasTol⟩
  have truthful := Oracle.simplex_truthful pivotTol feasTol
  obtain ⟨outcome, t, explored, steady, solved⟩ := explored_bounded exact tight nodes pivots
  have consistent := consistent_of_explored truthful explored (consistent_start p settings.intTol _)
  have covers := covers_of_explored truthful explored steady.limited steady.unbounded
  refine ⟨_, solved, steady.nodeLimitReached, ?_, ?_⟩
  · rintro ⟨y, feasible⟩
    obtain ⟨best, reached, -⟩ := covers.atMost feasible
    refine ⟨?_, ?_⟩
    · by_contra other
      have empty := incumbent_of_explored explored other
      rw [empty] at reached
      cases reached
    · obtain ⟨z, same, integral, rfl⟩ := consistent.holds.exists_integer intTol reached
      exact ⟨z, same, integral, reached, fun y' feasible' => (covers.atMost feasible').le reached⟩
  · intro empty
    have nothing : ∀ limit, ¬t.incumbent.AtMost limit := by
      rintro limit ⟨best, reached, -⟩
      obtain ⟨z, -, feasible, -⟩ := consistent.holds.exists_integer intTol reached
      exact empty ⟨z, feasible⟩
    have infeasible := infeasible_of_explored explored steady.limited steady.unbounded nothing
    have unchanged := incumbent_of_explored explored (by rw [infeasible]; decide)
    exact ⟨infeasible, unchanged⟩

/-- The largest `x` with `2 x ≤ 3`: with budgets that are large enough, a solve finds it. -/
theorem solve_bounded_one_split :
    ∃ settings : Integer.Settings ℚ, settings.intTol = 0 ∧ settings.linear.pivotTol = 0 ∧
      settings.linear.feasTol = 0 ∧ ∃ solution, (solve ⟨[[2]], [3], [-1]⟩ settings).result = .ok solution ∧
        solution.outcome = .optimal ∧ ∃ best, solution.incumbent.objective = some best ∧ best ≤ -1 := by
  have valid : (⟨[[2]], [3], [-1]⟩ : Integer.Program ℚ).fault? = none := by decide +kernel
  have bounded : ∀ y : List ℝ, Integer.Program.Feasible (⟨[[2]], [3], [-1]⟩ : Integer.Program ℚ) y →
      ∀ v ∈ y, v ≤ (3 / 2 : ℝ) := by
    intro y feasible
    obtain ⟨v, rfl⟩ := List.length_eq_one_iff.mp feasible.length
    have row := feasible.rows ([2], 3) (by simp)
    rw [List.forall_mem_singleton]
    norm_num [form] at row
    linarith
  have one : Integer.Program.Feasible (⟨[[2]], [3], [-1]⟩ : Integer.Program ℚ) (rational [1]) :=
    ⟨rfl, by simp [rational], by simp [rational, form]; norm_num⟩
  obtain ⟨nodes, pivots, solves⟩ := solve_bounded valid bounded
  obtain ⟨solution, solved, -, optimal, -⟩ :=
    solves ⟨nodes, 0, ⟨pivots, 0, 0⟩, false, 0⟩ rfl rfl rfl (le_refl nodes) (le_refl pivots)
  obtain ⟨outcome, z, -, -, reached, least⟩ := optimal ⟨[1], one⟩
  refine ⟨_, rfl, rfl, rfl, solution, solved, outcome, _, reached, (least [1] one).trans ?_⟩
  decide +kernel

end BranchBound.Search
