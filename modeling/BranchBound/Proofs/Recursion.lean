import Mathlib.Tactic
import BranchBound.Search.Solve

/-!
# Recursive branch and bound

The search as a recursion over the tree. `look` solves the relaxation of one node and says how it
is closed or split; `explore` explores a node's ceil side completely, then its floor side, and
combines their outcomes. What passes from node to node is a `Trail`.
-/

namespace BranchBound.Search.Recursion

open Integer (BranchRow System)

/-- The oracle's state, the systems it was asked so far, the incumbent and the counters. -/
structure Trail (σ α : Type) where
  oracle : σ
  asked : List (System α) := []
  incumbent : Incumbent α
  counters : Counters

/-- How a node goes on after its relaxation. -/
inductive Verdict (α : Type) where
  | closed (outcome : Outcome)
  | split (var : Nat) (value : α)

variable {σ α : Type} [Scalar α]

/-! ### One node -/

def Trail.count (t : Trail σ α) (f : Counters → Counters) : Trail σ α :=
  { t with counters := f t.counters }

/-- The trail with an integer point, which becomes the incumbent if it is better. -/
def Trail.offer (t : Trail σ α) (objective : α) (x : List α) : Trail σ α :=
  if t.incumbent.improvedBy objective then
    { t with
      incumbent := ⟨some objective, x⟩
      counters := { t.counters with
        integral := t.counters.integral + 1, updates := t.counters.updates + 1 } }
  else t.count fun k => { k with integral := k.integral + 1 }

/-- The counters after a split at `depth`; the nodes held are the root and both children of every
node on the path. -/
def splitAt (depth : Nat) (k : Counters) : Counters :=
  { k with
    branched := k.branched + 1
    maxDepth := max k.maxDepth (depth + 1)
    peakNodes := max k.peakNodes (2 * (depth + 1) + 1) }

/-- What the answer to the relaxation of a node at `depth` means for it. -/
def judge (p : Integer.Program α) (tol : α) (depth : Nat) (answer : Relaxation α) (t : Trail σ α) :
    Except (Error α) (Verdict α) × Trail σ α :=
  match answer with
  | .iterationLimit _ _ =>
    (.ok (.closed .iterationLimit), t.count fun k => { k with limited := k.limited + 1 })
  | .infeasible => (.ok (.closed .infeasible), t.count fun k => { k with infeasible := k.infeasible + 1 })
  | .unbounded => (.ok (.closed .unbounded), t.count fun k => { k with unbounded := k.unbounded + 1 })
  | .optimal objective x =>
    if x.length ≠ p.vars then (.error (.wrongLength x.length p.vars), t)
    else if t.incumbent.dominates objective then
      (.ok (.closed .optimal), t.count fun k => { k with pruned := k.pruned + 1 })
    else match fractional? tol x with
      | none => (.ok (.closed .optimal), t.offer objective x)
      | some (var, value) => (.ok (.split var value), t.count (splitAt depth))

def Trail.ask (t : Trail σ α) (oracle : Oracle σ α) (system : System α) : Trail σ α :=
  { t with oracle := (oracle t.oracle system).state, asked := t.asked ++ [system] }

def Trail.answered (t : Trail σ α) (oracle : Oracle σ α) (system : System α) : Trail σ α :=
  (t.ask oracle system).count fun k => { k with explored := k.explored + 1 }

/-- Looks at the node with branch rows `rows`, unless the node budget is spent. -/
def look (p : Integer.Program α) (oracle : Oracle σ α) (settings : Integer.Settings α)
    (rows : List (BranchRow α)) (depth : Nat) (t : Trail σ α) : Except (Error α) (Verdict α) × Trail σ α :=
  if settings.maxNodes ≤ t.counters.explored then
    (.ok (.closed .iterationLimit),
      t.count fun k => { k with nodeLimitReached := true, limited := k.limited + 1 })
  else match (oracle t.oracle ⟨p, rows⟩).result with
    | .error e => (.error e, t.ask oracle ⟨p, rows⟩)
    | .ok answer =>
      judge p settings.intTol depth answer (t.answered oracle ⟨p, rows⟩)

def splits : Except (Error α) (Verdict α) → Nat
  | .ok (.split _ _) => 1
  | _ => 0

/-- What a look can find, with the trail that it leaves. -/
inductive Looked (p : Integer.Program α) (oracle : Oracle σ α) (settings : Integer.Settings α)
    (rows : List (BranchRow α)) (depth : Nat) (t : Trail σ α) :
    Except (Error α) (Verdict α) → Trail σ α → Prop
  | spent (spent : settings.maxNodes ≤ t.counters.explored) :
    Looked p oracle settings rows depth t (.ok (.closed .iterationLimit))
      (t.count fun k => { k with nodeLimitReached := true, limited := k.limited + 1 })
  | refused {e} (left : t.counters.explored < settings.maxNodes)
      (replied : (oracle t.oracle ⟨p, rows⟩).result = .error e) :
    Looked p oracle settings rows depth t (.error e) (t.ask oracle ⟨p, rows⟩)
  | limited {objective x} (left : t.counters.explored < settings.maxNodes)
      (replied : (oracle t.oracle ⟨p, rows⟩).result = .ok (.iterationLimit objective x)) :
    Looked p oracle settings rows depth t (.ok (.closed .iterationLimit))
      ((t.answered oracle ⟨p, rows⟩).count fun k => { k with limited := k.limited + 1 })
  | infeasible (left : t.counters.explored < settings.maxNodes)
      (replied : (oracle t.oracle ⟨p, rows⟩).result = .ok .infeasible) :
    Looked p oracle settings rows depth t (.ok (.closed .infeasible))
      ((t.answered oracle ⟨p, rows⟩).count fun k => { k with infeasible := k.infeasible + 1 })
  | unbounded (left : t.counters.explored < settings.maxNodes)
      (replied : (oracle t.oracle ⟨p, rows⟩).result = .ok .unbounded) :
    Looked p oracle settings rows depth t (.ok (.closed .unbounded))
      ((t.answered oracle ⟨p, rows⟩).count fun k => { k with unbounded := k.unbounded + 1 })
  | wrongLength {objective x} (left : t.counters.explored < settings.maxNodes)
      (replied : (oracle t.oracle ⟨p, rows⟩).result = .ok (.optimal objective x)) (wrong : x.length ≠ p.vars) :
    Looked p oracle settings rows depth t (.error (.wrongLength x.length p.vars)) (t.answered oracle ⟨p, rows⟩)
  | pruned {objective x} (left : t.counters.explored < settings.maxNodes)
      (replied : (oracle t.oracle ⟨p, rows⟩).result = .ok (.optimal objective x)) (length : x.length = p.vars)
      (dominated : t.incumbent.dominates objective = true) :
    Looked p oracle settings rows depth t (.ok (.closed .optimal))
      ((t.answered oracle ⟨p, rows⟩).count fun k => { k with pruned := k.pruned + 1 })
  | integral {objective x} (left : t.counters.explored < settings.maxNodes)
      (replied : (oracle t.oracle ⟨p, rows⟩).result = .ok (.optimal objective x)) (length : x.length = p.vars)
      (open_ : t.incumbent.dominates objective = false) (whole : fractional? settings.intTol x = none) :
    Looked p oracle settings rows depth t (.ok (.closed .optimal))
      ((t.answered oracle ⟨p, rows⟩).offer objective x)
  | split {objective x var value} (left : t.counters.explored < settings.maxNodes)
      (replied : (oracle t.oracle ⟨p, rows⟩).result = .ok (.optimal objective x)) (length : x.length = p.vars)
      (open_ : t.incumbent.dominates objective = false)
      (fractional : fractional? settings.intTol x = some (var, value)) :
    Looked p oracle settings rows depth t (.ok (.split var value))
      ((t.answered oracle ⟨p, rows⟩).count (splitAt depth))

section Look
variable {p : Integer.Program α} {oracle : Oracle σ α} {settings : Integer.Settings α}
  {rows : List (BranchRow α)} {depth : Nat} {t t' : Trail σ α} {verdict : Except (Error α) (Verdict α)}

theorem looked_of_look (looked : look p oracle settings rows depth t = (verdict, t')) :
    Looked p oracle settings rows depth t verdict t' := by
  unfold look at looked
  split at looked
  · rename_i spent
    cases looked
    exact .spent spent
  · rename_i left
    have left := not_le.mp left
    split at looked
    · rename_i e replied
      cases looked
      exact .refused left replied
    · rename_i answer replied
      unfold judge at looked
      cases answer with
      | iterationLimit objective x =>
        cases looked
        exact .limited left replied
      | infeasible =>
        cases looked
        exact .infeasible left replied
      | unbounded =>
        cases looked
        exact .unbounded left replied
      | optimal objective x =>
        dsimp only at looked
        split at looked
        · rename_i wrong
          cases looked
          exact .wrongLength left replied wrong
        · rename_i length
          have length := not_not.mp length
          split at looked
          · rename_i dominated
            cases looked
            exact .pruned left replied length dominated
          · rename_i notDominated
            have notDominated := Bool.eq_false_iff.mpr notDominated
            split at looked
            · rename_i whole
              cases looked
              exact .integral left replied length notDominated whole
            · rename_i fractional
              cases looked
              exact .split left replied length notDominated fractional

theorem offer_keeps (t : Trail σ α) (objective : α) (x : List α) :
    (t.offer objective x).oracle = t.oracle ∧ (t.offer objective x).asked = t.asked ∧
      (t.offer objective x).counters.explored = t.counters.explored ∧
      (t.offer objective x).counters.branched = t.counters.branched := by
  unfold Trail.offer
  split <;> exact ⟨rfl, rfl, rfl, rfl⟩

theorem explored_look (looked : look p oracle settings rows depth t = (verdict, t')) :
    t.counters.explored ≤ t'.counters.explored := by
  cases looked_of_look looked with
  | spent _ => exact le_refl _
  | refused _ _ => exact le_refl _
  | integral _ _ _ _ _ =>
    rw [(offer_keeps ..).2.2.1]
    exact Nat.le_succ _
  | _ => exact Nat.le_succ _

theorem explored_of_split {var : Nat} {value : α}
    (looked : look p oracle settings rows depth t = (.ok (.split var value), t')) :
    t.counters.explored < settings.maxNodes ∧ t'.counters.explored = t.counters.explored + 1 := by
  cases looked_of_look looked with
  | split left _ _ _ _ => exact ⟨left, rfl⟩

theorem inside_of_split {var : Nat} {value : α}
    (looked : look p oracle settings rows depth t = (.ok (.split var value), t')) : var < p.vars := by
  cases looked_of_look looked with
  | split _ _ length _ fractional =>
    unfold fractional? at fractional
    obtain ⟨⟨v, index⟩, first, same⟩ := Option.map_eq_some_iff.mp fractional
    obtain ⟨rfl, rfl⟩ := Prod.mk.inj same
    have read := List.mem_zipIdx_iff_getElem?.mp (List.mem_of_find?_eq_some first)
    rw [← length]
    exact (List.getElem?_eq_some_iff.mp read).1

theorem explored_look_le (looked : look p oracle settings rows depth t = (verdict, t')) :
    t'.counters.explored ≤ max t.counters.explored settings.maxNodes := by
  cases looked_of_look looked with
  | spent _ => exact le_max_left _ _
  | refused _ _ => exact le_max_left _ _
  | integral left _ _ _ _ =>
    rw [(offer_keeps ..).2.2.1]
    exact le_max_of_le_right left
  | limited left _ => exact le_max_of_le_right left
  | infeasible left _ => exact le_max_of_le_right left
  | unbounded left _ => exact le_max_of_le_right left
  | wrongLength left _ _ => exact le_max_of_le_right left
  | pruned left _ _ _ => exact le_max_of_le_right left
  | split left _ _ _ _ => exact le_max_of_le_right left

theorem branched_look (looked : look p oracle settings rows depth t = (verdict, t')) :
    t'.counters.branched = t.counters.branched + splits verdict := by
  cases looked_of_look looked with
  | integral _ _ _ _ _ => exact (offer_keeps ..).2.2.2
  | _ => rfl

end Look

/-! ### The tree -/

/-- Explores the subtree of a node, with the count of relaxations known not to fall. -/
def exploreFrom (p : Integer.Program α) (oracle : Oracle σ α) (settings : Integer.Settings α)
    (rows : List (BranchRow α)) (depth : Nat) (t : Trail σ α) :
    { r : Except (Error α) Outcome × Trail σ α // t.counters.explored ≤ r.2.counters.explored } :=
  match looked : look p oracle settings rows depth t with
  | (.error e, t₁) => ⟨(.error e, t₁), explored_look looked⟩
  | (.ok (.closed outcome), t₁) => ⟨(.ok outcome, t₁), explored_look looked⟩
  | (.ok (.split var value), t₁) =>
    have used := explored_of_split looked
    match exploreFrom p oracle settings (rows ++ [.split .ceil var value]) (depth + 1) t₁ with
    | ⟨(.error e, t₂), later⟩ => ⟨(.error e, t₂), by dsimp only at later ⊢; omega⟩
    | ⟨(.ok ceil, t₂), later⟩ =>
      match exploreFrom p oracle settings (rows ++ [.split .floor var value]) (depth + 1) t₂ with
      | ⟨(.error e, t₃), latest⟩ => ⟨(.error e, t₃), by dsimp only at later latest ⊢; omega⟩
      | ⟨(.ok floor, t₃), latest⟩ => ⟨(.ok (ceil.combine floor), t₃), by dsimp only at later latest ⊢; omega⟩
termination_by settings.maxNodes - t.counters.explored
decreasing_by
  · omega
  · dsimp only at later
    omega

def explore (p : Integer.Program α) (oracle : Oracle σ α) (settings : Integer.Settings α)
    (rows : List (BranchRow α)) (depth : Nat) (t : Trail σ α) : Except (Error α) Outcome × Trail σ α :=
  (exploreFrom p oracle settings rows depth t).1

/-- The recursion that `explore` follows: the ceil side completely, then the floor side. -/
theorem explore_eq (p : Integer.Program α) (oracle : Oracle σ α) (settings : Integer.Settings α)
    (rows : List (BranchRow α)) (depth : Nat) (t : Trail σ α) :
    explore p oracle settings rows depth t =
      match look p oracle settings rows depth t with
      | (.error e, t₁) => (.error e, t₁)
      | (.ok (.closed outcome), t₁) => (.ok outcome, t₁)
      | (.ok (.split var value), t₁) =>
        match explore p oracle settings (rows ++ [.split .ceil var value]) (depth + 1) t₁ with
        | (.error e, t₂) => (.error e, t₂)
        | (.ok ceil, t₂) =>
          match explore p oracle settings (rows ++ [.split .floor var value]) (depth + 1) t₂ with
          | (.error e, t₃) => (.error e, t₃)
          | (.ok floor, t₃) => (.ok (ceil.combine floor), t₃) := by
  unfold explore
  rw [exploreFrom]
  split
  · rename_i looked
    dsimp only
    rw [looked]
  · rename_i looked
    dsimp only
    rw [looked]
  · rename_i var value t₁ looked
    simp only [looked]
    split
    · rename_i ended
      simp only [ended]
    · rename_i ended
      simp only [ended]
      split
      · rename_i finished
        simp only [finished]
      · rename_i finished
        simp only [finished]

/-- The recursion as a relation, a node's trail and branch rows to its result and trail. -/
inductive Explored (p : Integer.Program α) (oracle : Oracle σ α) (settings : Integer.Settings α) :
    List (BranchRow α) → Nat → Trail σ α → Except (Error α) Outcome → Trail σ α → Prop
  | failed {rows depth t e t₁} (looked : look p oracle settings rows depth t = (.error e, t₁)) :
    Explored p oracle settings rows depth t (.error e) t₁
  | closed {rows depth t outcome t₁}
      (looked : look p oracle settings rows depth t = (.ok (.closed outcome), t₁)) :
    Explored p oracle settings rows depth t (.ok outcome) t₁
  | ceilFailed {rows depth t var value t₁ e t₂}
      (looked : look p oracle settings rows depth t = (.ok (.split var value), t₁))
      (ceilSide : Explored p oracle settings (rows ++ [.split .ceil var value]) (depth + 1) t₁ (.error e) t₂) :
    Explored p oracle settings rows depth t (.error e) t₂
  | floorFailed {rows depth t var value t₁ ceil t₂ e t₃}
      (looked : look p oracle settings rows depth t = (.ok (.split var value), t₁))
      (ceilSide : Explored p oracle settings (rows ++ [.split .ceil var value]) (depth + 1) t₁ (.ok ceil) t₂)
      (floorSide : Explored p oracle settings (rows ++ [.split .floor var value]) (depth + 1) t₂ (.error e) t₃) :
    Explored p oracle settings rows depth t (.error e) t₃
  | combined {rows depth t var value t₁ ceil t₂ floor t₃}
      (looked : look p oracle settings rows depth t = (.ok (.split var value), t₁))
      (ceilSide : Explored p oracle settings (rows ++ [.split .ceil var value]) (depth + 1) t₁ (.ok ceil) t₂)
      (floorSide : Explored p oracle settings (rows ++ [.split .floor var value]) (depth + 1) t₂ (.ok floor) t₃) :
    Explored p oracle settings rows depth t (.ok (ceil.combine floor)) t₃

variable {p : Integer.Program α} {oracle : Oracle σ α} {settings : Integer.Settings α}

/-- Induction over the nodes of a subtree that was explored to its end. -/
@[elab_as_elim]
theorem Explored.ok_induction
    {motive : ∀ rows depth t outcome t', Explored p oracle settings rows depth t (.ok outcome) t' → Prop}
    (closed : ∀ {rows depth t outcome t₁}
      (looked : look p oracle settings rows depth t = (.ok (.closed outcome), t₁)),
      motive rows depth t outcome t₁ (.closed looked))
    (combined : ∀ {rows depth t var value t₁ ceil t₂ floor t₃}
      (looked : look p oracle settings rows depth t = (.ok (.split var value), t₁))
      (ceilSide : Explored p oracle settings (rows ++ [.split .ceil var value]) (depth + 1) t₁ (.ok ceil) t₂)
      (floorSide : Explored p oracle settings (rows ++ [.split .floor var value]) (depth + 1) t₂ (.ok floor) t₃),
      motive _ _ _ _ _ ceilSide → motive _ _ _ _ _ floorSide →
      motive rows depth t (ceil.combine floor) t₃ (.combined looked ceilSide floorSide))
    {rows : List (BranchRow α)} {depth : Nat} {t : Trail σ α} {outcome : Outcome} {t' : Trail σ α}
    (explored : Explored p oracle settings rows depth t (.ok outcome) t') :
    motive rows depth t outcome t' explored := by
  have every : ∀ {rows depth t result t'} (explored : Explored p oracle settings rows depth t result t')
      (outcome : Outcome) (ended : result = .ok outcome), motive rows depth t outcome t' (ended ▸ explored) := by
    intro rows depth t result t' explored
    induction explored with
    | failed _ => intro outcome ended; cases ended
    | ceilFailed _ _ _ => intro outcome ended; cases ended
    | floorFailed _ _ _ _ _ => intro outcome ended; cases ended
    | closed looked =>
      intro outcome ended
      cases ended
      exact closed looked
    | combined looked ceilSide floorSide ceil floor =>
      intro outcome ended
      cases ended
      exact combined looked ceilSide floorSide (ceil _ rfl) (floor _ rfl)
  exact every explored outcome rfl

/-- What every look keeps, a subtree keeps. -/
theorem Explored.keeps {R : Trail σ α → Trail σ α → Prop} (trans : ∀ t₁ t₂ t₃, R t₁ t₂ → R t₂ t₃ → R t₁ t₃)
    (step : ∀ rows depth t verdict t', look p oracle settings rows depth t = (verdict, t') → R t t')
    {rows : List (BranchRow α)} {depth : Nat} {t t' : Trail σ α} {result : Except (Error α) Outcome}
    (explored : Explored p oracle settings rows depth t result t') : R t t' := by
  induction explored with
  | failed looked => exact step _ _ _ _ _ looked
  | closed looked => exact step _ _ _ _ _ looked
  | ceilFailed looked _ ceil => exact trans _ _ _ (step _ _ _ _ _ looked) ceil
  | floorFailed looked _ _ ceil floor => exact trans _ _ _ (step _ _ _ _ _ looked) (trans _ _ _ ceil floor)
  | combined looked _ _ ceil floor => exact trans _ _ _ (step _ _ _ _ _ looked) (trans _ _ _ ceil floor)

theorem Explored.invariant {P : Trail σ α → Prop}
    (step : ∀ rows depth t verdict t', look p oracle settings rows depth t = (verdict, t') → P t → P t')
    {rows : List (BranchRow α)} {depth : Nat} {t t' : Trail σ α} {result : Except (Error α) Outcome}
    (explored : Explored p oracle settings rows depth t result t') (holds : P t) : P t' :=
  explored.keeps (R := fun t t' => P t → P t') (fun _ _ _ first second held => second (first held)) step holds

/-- What every look that finds a verdict keeps, a subtree explored to its end keeps. -/
theorem Explored.ok_invariant {P : Trail σ α → Prop}
    (step : ∀ rows depth t verdict t', look p oracle settings rows depth t = (.ok verdict, t') → P t → P t')
    {rows : List (BranchRow α)} {depth : Nat} {t t' : Trail σ α} {outcome : Outcome}
    (explored : Explored p oracle settings rows depth t (.ok outcome) t') (holds : P t) : P t' := by
  induction explored using Explored.ok_induction with
  | closed looked => exact step _ _ _ _ _ looked holds
  | combined looked _ _ ceil floor => exact floor (ceil (step _ _ _ _ _ looked holds))

/-- The relaxations of a subtree are at least its splits, and stay within the budget. -/
theorem Explored.effort {rows : List (BranchRow α)} {depth : Nat} {t t' : Trail σ α}
    {result : Except (Error α) Outcome} (explored : Explored p oracle settings rows depth t result t') :
    t.counters.branched ≤ t'.counters.branched ∧
      t'.counters.branched + t.counters.explored ≤ t.counters.branched + t'.counters.explored ∧
      t'.counters.explored ≤ max t.counters.explored settings.maxNodes := by
  induction explored with
  | @failed _ _ t _ t₁ looked =>
    have branched : t₁.counters.branched = t.counters.branched := branched_look looked
    have grown := explored_look looked
    exact ⟨by omega, by omega, explored_look_le looked⟩
  | @closed _ _ t _ t₁ looked =>
    have branched : t₁.counters.branched = t.counters.branched := branched_look looked
    have grown := explored_look looked
    exact ⟨by omega, by omega, explored_look_le looked⟩
  | @ceilFailed _ _ t _ _ t₁ _ _ looked _ ceil =>
    have branched : t₁.counters.branched = t.counters.branched + 1 := branched_look looked
    have used := explored_of_split looked
    omega
  | @floorFailed _ _ t _ _ t₁ _ _ _ _ looked _ _ ceil floor =>
    have branched : t₁.counters.branched = t.counters.branched + 1 := branched_look looked
    have used := explored_of_split looked
    omega
  | @combined _ _ t _ _ t₁ _ _ _ _ looked _ _ ceil floor =>
    have branched : t₁.counters.branched = t.counters.branched + 1 := branched_look looked
    have used := explored_of_split looked
    omega

theorem Explored.explored_le {rows : List (BranchRow α)} {depth : Nat} {t t' : Trail σ α}
    {result : Except (Error α) Outcome} (explored : Explored p oracle settings rows depth t result t') :
    t.counters.explored ≤ t'.counters.explored := by
  have effort := explored.effort
  omega

theorem explored_explore (p : Integer.Program α) (oracle : Oracle σ α) (settings : Integer.Settings α)
    (rows : List (BranchRow α)) (depth : Nat) (t : Trail σ α) :
    Explored p oracle settings rows depth t (explore p oracle settings rows depth t).1
      (explore p oracle settings rows depth t).2 := by
  -- on the relaxations left, of which a split takes one
  induction left : settings.maxNodes - t.counters.explored using Nat.strong_induction_on
    generalizing rows depth t with
  | _ budget ih =>
    rw [explore_eq]
    split
    · rename_i looked
      exact .failed looked
    · rename_i looked
      exact .closed looked
    · rename_i var value t₁ looked
      have used := explored_of_split looked
      have ceilSide := ih _ (by omega) (rows ++ [.split .ceil var value]) (depth + 1) t₁ rfl
      split
      · rename_i ended
        rw [ended] at ceilSide
        exact .ceilFailed looked ceilSide
      · rename_i ceil t₂ ended
        rw [ended] at ceilSide
        have later := ceilSide.explored_le
        dsimp only at later
        have floorSide := ih _ (by omega) (rows ++ [.split .floor var value]) (depth + 1) t₂ rfl
        split
        · rename_i finished
          rw [finished] at floorSide
          exact .floorFailed looked ceilSide floorSide
        · rename_i finished
          rw [finished] at floorSide
          exact .combined looked ceilSide floorSide

theorem Explored.explore_eq {rows : List (BranchRow α)} {depth : Nat} {t t' : Trail σ α}
    {result : Except (Error α) Outcome} (explored : Explored p oracle settings rows depth t result t') :
    explore p oracle settings rows depth t = (result, t') := by
  induction explored with
  | failed looked => rw [Recursion.explore_eq, looked]
  | closed looked => rw [Recursion.explore_eq, looked]
  | ceilFailed looked _ ceil =>
    rw [Recursion.explore_eq, looked]
    simp only [ceil]
  | floorFailed looked _ _ ceil floor =>
    rw [Recursion.explore_eq, looked]
    simp only [ceil, floor]
  | combined looked _ _ ceil floor =>
    rw [Recursion.explore_eq, looked]
    simp only [ceil, floor]

theorem Explored.of_closed {rows : List (BranchRow α)} {depth : Nat} {t t' t₁ : Trail σ α} {outcome outcome' : Outcome}
    (explored : Explored p oracle settings rows depth t (.ok outcome') t')
    (looked : look p oracle settings rows depth t = (.ok (.closed outcome), t₁)) : outcome' = outcome ∧ t' = t₁ := by
  cases explored with
  | closed other =>
    cases looked.symm.trans other
    exact ⟨rfl, rfl⟩
  | combined other _ _ => cases looked.symm.trans other

/-! ### The whole search -/

def start (p : Integer.Program α) (state : σ) : Trail σ α :=
  { oracle := state, incumbent := .empty p.vars, counters := { peakNodes := 1 } }

/-- The outcome of a search from that of the root. -/
def finalOutcome (k : Counters) (outcome : Outcome) : Outcome :=
  if k.nodeLimitReached ∧ outcome = .infeasible then .iterationLimit else outcome

def solve (p : Integer.Program α) (oracle : Oracle σ α) (settings : Integer.Settings α) (state : σ) :
    Except (Error α) (Solution α) × Trail σ α :=
  match explore p oracle settings [] 0 (start p state) with
  | (.error e, t) => (.error e, t)
  | (.ok outcome, t) => (.ok ⟨finalOutcome t.counters outcome, t.incumbent, t.counters⟩, t)

theorem trail_solve (p : Integer.Program α) (oracle : Oracle σ α) (settings : Integer.Settings α) (state : σ) :
    (solve p oracle settings state).2 = (explore p oracle settings [] 0 (start p state)).2 := by
  unfold solve
  split
  · rename_i ended
    rw [ended]
  · rename_i ended
    rw [ended]

/-! ### Oracles that keep more -/

/-- Oracle `tapped` answers as `oracle`, for which `view` forgets a part of its state. -/
def Taps {τ : Type} (view : τ → σ) (tapped : Oracle τ α) (oracle : Oracle σ α) : Prop :=
  ∀ state system, (oracle (view state) system).result = (tapped state system).result ∧
    (oracle (view state) system).state = view (tapped state system).state

section Erase
variable {τ : Type} {view : τ → σ} {tapped : Oracle τ α} {rows : List (BranchRow α)} {depth : Nat}

def Trail.erase (view : τ → σ) (t : Trail τ α) : Trail σ α :=
  { oracle := view t.oracle, asked := t.asked, incumbent := t.incumbent, counters := t.counters }

theorem offer_erase (view : τ → σ) (t : Trail τ α) (objective : α) (x : List α) :
    (t.erase view).offer objective x = (t.offer objective x).erase view := by
  unfold Trail.offer
  have same : (t.erase view).incumbent = t.incumbent := rfl
  rw [same]
  split <;> rfl

theorem judge_erase (view : τ → σ) (tol : α) (depth : Nat) (answer : Relaxation α) (t : Trail τ α) :
    judge p tol depth answer (t.erase view) =
      ((judge p tol depth answer t).1, (judge p tol depth answer t).2.erase view) := by
  unfold judge
  cases answer with
  | iterationLimit _ _ => rfl
  | infeasible => rfl
  | unbounded => rfl
  | optimal objective x =>
    have same : (t.erase view).incumbent = t.incumbent := rfl
    simp only [same]
    by_cases wrong : x.length ≠ p.vars
    · rw [if_pos wrong, if_pos wrong]
    · rw [if_neg wrong, if_neg wrong]
      by_cases dominated : t.incumbent.dominates objective = true
      · rw [if_pos dominated, if_pos dominated]
        rfl
      · rw [if_neg dominated, if_neg dominated]
        cases fractional? tol x with
        | none => rw [offer_erase]
        | some _ => rfl

omit [Scalar α] in
theorem ask_erase (taps : Taps view tapped oracle) (t : Trail τ α) (system : System α) :
    (t.erase view).ask oracle system = (t.ask tapped system).erase view := by
  unfold Trail.ask Trail.erase
  dsimp only
  rw [(taps t.oracle system).2]

theorem look_erase (taps : Taps view tapped oracle) {t t' : Trail τ α} {verdict : Except (Error α) (Verdict α)}
    (looked : look p tapped settings rows depth t = (verdict, t')) :
    look p oracle settings rows depth (t.erase view) = (verdict, t'.erase view) := by
  have counters : (t.erase view).counters = t.counters := rfl
  have replied : (oracle (t.erase view).oracle ⟨p, rows⟩).result = (tapped t.oracle ⟨p, rows⟩).result :=
    (taps t.oracle ⟨p, rows⟩).1
  unfold look at looked ⊢
  rw [counters, replied]
  split at looked
  · rename_i spent
    rw [if_pos spent]
    cases looked
    rfl
  · rename_i left
    rw [if_neg left]
    cases result : (tapped t.oracle ⟨p, rows⟩).result with
    | error e =>
      rw [result] at looked
      cases looked
      dsimp only
      rw [ask_erase taps]
    | ok answer =>
      rw [result] at looked
      have asked : (t.erase view).answered oracle ⟨p, rows⟩ = (t.answered tapped ⟨p, rows⟩).erase view := by
        unfold Trail.answered
        rw [ask_erase taps]
        rfl
      dsimp only at looked ⊢
      rw [asked, judge_erase, looked]

/-- What an oracle keeps besides does not change the recursion. -/
theorem Explored.erase (taps : Taps view tapped oracle) {t t' : Trail τ α} {result : Except (Error α) Outcome}
    (explored : Explored p tapped settings rows depth t result t') :
    Explored p oracle settings rows depth (t.erase view) result (t'.erase view) := by
  induction explored with
  | failed looked => exact .failed (look_erase taps looked)
  | closed looked => exact .closed (look_erase taps looked)
  | ceilFailed looked _ ceil => exact .ceilFailed (look_erase taps looked) ceil
  | floorFailed looked _ _ ceil floor => exact .floorFailed (look_erase taps looked) ceil floor
  | combined looked _ _ ceil floor => exact .combined (look_erase taps looked) ceil floor

theorem solve_erase (taps : Taps view tapped oracle) (p : Integer.Program α) (settings : Integer.Settings α)
    (state : τ) :
    solve p oracle settings (view state) =
      ((solve p tapped settings state).1, (solve p tapped settings state).2.erase view) := by
  have explored := (explored_explore p tapped settings [] 0 (start p state)).erase taps
  have same : explore p oracle settings [] 0 (start p (view state)) = _ := explored.explore_eq
  unfold solve
  rw [same]
  rcases explore p tapped settings [] 0 (start p state) with ⟨_ | outcome, t⟩
  · rfl
  · rfl

end Erase

/-! ### Recorded calls -/

def Trail.recorded (t : Trail σ α) (calls : List (Oracle.Call α)) : Trail (σ × List (Oracle.Call α)) α :=
  { t with oracle := (t.oracle, calls) }

omit [Scalar α] in
theorem taps_recorded (oracle : Oracle σ α) : Taps Prod.fst oracle.recorded oracle :=
  fun _ _ => ⟨rfl, rfl⟩

/-- The recorded calls show the systems that were asked. -/
theorem look_recorded {rows : List (BranchRow α)} {depth : Nat} {t t' : Trail (σ × List (Oracle.Call α)) α}
    {verdict : Except (Error α) (Verdict α)} (looked : look p oracle.recorded settings rows depth t = (verdict, t'))
    (systems : t.oracle.2.reverse.map Oracle.Call.system = t.asked) :
    t'.oracle.2.reverse.map Oracle.Call.system = t'.asked := by
  have asked : (t.ask oracle.recorded ⟨p, rows⟩).oracle.2.reverse.map Oracle.Call.system =
      (t.ask oracle.recorded ⟨p, rows⟩).asked := by
    show ((_ :: t.oracle.2).reverse.map Oracle.Call.system) = t.asked ++ [⟨p, rows⟩]
    rw [List.reverse_cons, List.map_append, systems]
    rfl
  cases looked_of_look looked with
  | spent _ => exact systems
  | integral _ _ _ _ _ =>
    rw [(offer_keeps ..).1, (offer_keeps ..).2.1]
    exact asked
  | _ => exact asked

theorem solve_recorded (p : Integer.Program α) (oracle : Oracle σ α) (settings : Integer.Settings α) (state : σ) :
    ∃ calls,
    solve p oracle.recorded settings (state, []) =
      ((solve p oracle settings state).1, (solve p oracle settings state).2.recorded calls) ∧
    calls.reverse.map Oracle.Call.system = (solve p oracle settings state).2.asked := by
  have same : solve p oracle settings state = _ := solve_erase (taps_recorded oracle) p settings (state, [])
  have explored := explored_explore p oracle.recorded settings [] 0 (start p (state, []))
  have systems := explored.invariant (P := fun t => t.oracle.2.reverse.map Oracle.Call.system = t.asked)
    (fun _ _ _ _ _ looked held => look_recorded looked held) rfl
  rw [← trail_solve] at systems
  rw [same]
  exact ⟨(solve p oracle.recorded settings (state, [])).2.oracle.2, rfl, systems⟩

end BranchBound.Search.Recursion
