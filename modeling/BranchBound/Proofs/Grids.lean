import BranchBound.Integer.BranchRow
import BranchBound.Linear.Simplex

/-!
# Grids

A grid is a tableau in flat lists: each row ends with its right-hand side, and the basis stands beside the rows. The
simplex method on it reads and writes by position, one entry at a time, and fails at the first position that is out of
range. `Grid.solve` keeps the grids that it goes through.
-/

namespace BranchBound.Linear

open Integer (OutOfRange)

/-! ### Positions -/

section Positions
variable {β : Type}

def readAt (xs : List β) (i : Nat) : Except OutOfRange β :=
  match xs[i]? with
  | some v => .ok v
  | none => .error ⟨xs.length, i⟩

def writeAt (xs : List β) (i : Nat) (v : β) : Except OutOfRange (List β) :=
  if i < xs.length then .ok (xs.set i v) else .error ⟨xs.length, i⟩

/-- Replaces the entries at the positions below `n`, one after another. -/
def updateBelow (n : Nat) (f : Nat → β → Except OutOfRange β) (xs : List β) : Except OutOfRange (List β) :=
  (List.range n).foldlM (fun xs i => do
    let v ← readAt xs i
    let w ← f i v
    writeAt xs i w) xs

theorem readAt_eq_ok {xs : List β} {i : Nat} {v : β} (read : xs[i]? = some v) : readAt xs i = .ok v := by
  simp [readAt, read]

theorem writeAt_eq_ok {xs : List β} {i : Nat} (inside : i < xs.length) (v : β) : writeAt xs i v = .ok (xs.set i v) :=
  if_pos inside

theorem ok_bind {γ : Type} (v : β) (f : β → Except OutOfRange γ) : ((.ok v : Except OutOfRange β) >>= f) = f v := rfl

theorem updateBelow_eq_ok {n : Nat} {f : Nat → β → Except OutOfRange β} {xs : List β} (g : Nat → β → β)
    (inside : n ≤ xs.length) (each : ∀ j v, j < n → xs[j]? = some v → f j v = .ok (g j v)) :
    updateBelow n f xs = .ok (xs.mapIdx fun j v => if j < n then g j v else v) := by
  unfold updateBelow
  induction n with
  | zero => exact congrArg Except.ok (List.ext_getElem? fun j => by simp)
  | succ n ih =>
    have bound : n < xs.length := by omega
    have here : (xs.mapIdx fun j v => if j < n then g j v else v)[n]? = some xs[n] := by simp [bound]
    rw [List.range_succ, List.foldlM_append, ih (by omega) fun j v less => each j v (by omega), ok_bind,
      List.foldlM_cons, readAt_eq_ok here, ok_bind, each n _ (by omega) (List.getElem?_eq_getElem bound), ok_bind,
      writeAt_eq_ok (by simpa using bound)]
    refine congrArg Except.ok (List.ext_getElem? fun j => ?_)
    rw [List.getElem?_set, List.getElem?_mapIdx, List.getElem?_mapIdx]
    by_cases last : n = j
    · subst j
      simp [bound]
    · have same : j < n + 1 ↔ j < n := by omega
      simp [last, same]

theorem mapM_eq_ok {γ : Type} {f : β → Except OutOfRange γ} {g : β → γ} {xs : List β}
    (each : ∀ x ∈ xs, f x = .ok (g x)) : xs.mapM f = .ok (xs.map g) := by
  induction xs with
  | nil => rfl
  | cons x rest ih =>
    rw [List.forall_mem_cons] at each
    rw [List.mapM_cons, each.1, ok_bind, ih each.2]
    rfl

theorem findM?_eq_ok {f : β → Except OutOfRange Bool} {g : β → Bool} {xs : List β} (each : ∀ x ∈ xs, f x = .ok (g x)) :
    xs.findM? f = .ok (xs.find? g) := by
  induction xs with
  | nil => rfl
  | cons x rest ih =>
    rw [List.forall_mem_cons] at each
    rw [List.findM?, each.1, ok_bind, List.find?_cons]
    cases g x with
    | true => rfl
    | false => exact ih each.2

theorem findM?_range {n : Nat} {f : Nat → Except OutOfRange Bool} {test : β → Bool} {xs : List β}
    (inside : n ≤ xs.length) (each : ∀ j v, j < n → xs[j]? = some v → f j = .ok (test v)) :
    (List.range n).findM? f = .ok ((xs.take n).findIdx? test) := by
  have search : (List.range n).find? (fun j => (xs[j]?).any test) = (xs.take n).findIdx? test := by
    clear each
    induction n with
    | zero => rfl
    | succ n ih =>
      have bound : n < xs.length := by omega
      have length : (xs.take n).length = n := by simp; omega
      rw [List.range_succ, List.find?_append, ih (by omega), List.take_add_one, List.findIdx?_append, length,
        List.getElem?_eq_getElem bound]
      cases here : test xs[n] <;> simp [here, bound]
  rw [← search]
  apply findM?_eq_ok
  intro j member
  have low := List.mem_range.mp member
  have bound : j < xs.length := by omega
  rw [each j xs[j] low (List.getElem?_eq_getElem bound)]
  simp [bound]

/-- A loop that may fail follows one that cannot, if each of its steps does. -/
theorem foldlM_follows {σ τ : Type} {R : σ → τ → Prop} {f : σ → β → Except OutOfRange σ} {g : τ → β → τ} {xs : List β}
    (step : ∀ x ∈ xs, ∀ s t, R s t → ∃ s', f s x = .ok s' ∧ R s' (g t x)) {s : σ} {t : τ} (start : R s t) :
    ∃ s', xs.foldlM f s = .ok s' ∧ R s' (xs.foldl g t) := by
  induction xs generalizing s t with
  | nil => exact ⟨s, rfl, start⟩
  | cons x rest ih =>
    rw [List.forall_mem_cons] at step
    obtain ⟨next, stepped, related⟩ := step.1 s t start
    obtain ⟨last, folded, ended⟩ := ih step.2 related
    exact ⟨last, by rw [List.foldlM_cons, stepped, ok_bind, folded], ended⟩

theorem foldlM_eq_ok {σ τ : Type} (read : τ → σ) (P : τ → Prop) {f : σ → β → Except OutOfRange σ} {g : τ → β → τ}
    {xs : List β} (step : ∀ x ∈ xs, ∀ t, P t → f (read t) x = .ok (read (g t x)) ∧ P (g t x)) {t : τ} (start : P t) :
    xs.foldlM f (read t) = .ok (read (xs.foldl g t)) ∧ P (xs.foldl g t) := by
  have follows : ∀ x ∈ xs, ∀ s t, s = read t ∧ P t → ∃ s', f s x = .ok s' ∧ s' = read (g t x) ∧ P (g t x) := by
    rintro x member _ t ⟨rfl, holds⟩
    obtain ⟨stepped, next⟩ := step x member t holds
    exact ⟨_, stepped, rfl, next⟩
  obtain ⟨last, folded, rfl, holds⟩ := foldlM_follows follows ⟨rfl, start⟩
  exact ⟨folded, holds⟩

theorem range_length (xs : List β) : List.range xs.length = xs.zipIdx.map Prod.snd := by
  rw [List.zipIdx_map_snd, List.range_eq_range']

theorem foldl_zipIdx {τ : Type} (g : τ → β → τ) (t : τ) (xs : List β) :
    xs.zipIdx.foldl (fun t place => g t place.1) t = xs.foldl g t := calc
  xs.zipIdx.foldl (fun t place => g t place.1) t = (xs.zipIdx.map Prod.fst).foldl g t := List.foldl_map.symm
  _ = xs.foldl g t := by rw [List.zipIdx_map_fst]

end Positions

structure Grid (α : Type) where
  rows : List (List α)
  basis : List Nat
  cost : List α
  columns : Nat
  artificial : Nat
  deriving DecidableEq, Repr

variable {α : Type} [Scalar α]

namespace Grid

/-- The size of a program: its variables, a slack for each row and an artificial variable for each negative bound. -/
structure Fits (p : Program α) (g : Grid α) : Prop where
  columns : g.columns = p.objective.length + p.rhs.length + p.rhs.countP (Scalar.lt · 0)
  artificial : g.artificial = p.objective.length + p.rhs.length
  rows : g.rows.length = p.rhs.length
  width : ∀ row ∈ g.rows, row.length = g.columns + 1
  cost : g.cost.length = g.columns + 1
  basis : g.basis.length = p.rhs.length
  basic : ∀ col ∈ g.basis, col < g.columns

/-! ### The first grid -/

def startRow (vars columns index art : Nat) (coeffs : List α) (rhs : α) : Except OutOfRange (List α) := do
  let sign : α := if Scalar.lt rhs 0 then -1 else 1
  let scaled (j : Nat) : Except OutOfRange α := do
    let v ← readAt coeffs j
    .ok (sign * v)
  let row ← updateBelow coeffs.length (fun j _ => scaled j) (List.replicate (columns + 1) 0)
  let row ← writeAt row (vars + index) sign
  let row ← writeAt row columns (sign * rhs)
  if Scalar.lt rhs 0 then writeAt row art 1 else .ok row

/-- The rows from row `index` on with their basic columns; the artificial columns are given out from `art` on. -/
def startRows (vars columns : Nat) :
    Nat → Nat → List (List α × α) → Except OutOfRange (List (List α) × List Nat)
  | _, _, [] => .ok ([], [])
  | index, art, (coeffs, rhs) :: rest => do
    let row ← startRow vars columns index art coeffs rhs
    let (rows, basis) ← startRows vars columns (index + 1) (if Scalar.lt rhs 0 then art + 1 else art) rest
    .ok (row :: rows, (if Scalar.lt rhs 0 then art else vars + index) :: basis)

def build (p : Program α) : Except OutOfRange (Grid α) := do
  let vars := p.objective.length
  let artificial := vars + p.rhs.length
  let columns := artificial + p.rhs.countP (Scalar.lt · 0)
  let (rows, basis) ← startRows vars columns 0 artificial (p.rows.zip p.rhs)
  .ok { rows, basis, cost := List.replicate (columns + 1) 0, columns, artificial }

/-! ### Costs -/

/-- `row - factor * lead` on the first `width` positions. -/
def subtract (width : Nat) (row : List α) (factor : α) (lead : List α) : Except OutOfRange (List α) :=
  updateBelow width (fun j v => do
    let p ← readAt lead j
    .ok (v - factor * p)) row

def priceOut (g : Grid α) (columnCost : Nat → Except OutOfRange α) (cost : List α) (i : Nat) :
    Except OutOfRange (List α) := do
  let basic ← readAt g.basis i
  let factor ← columnCost basic
  if Scalar.eq factor 0 then .ok cost
  else do
    let row ← readAt g.rows i
    subtract (g.columns + 1) cost factor row

def load (g : Grid α) (columnCost : Nat → Except OutOfRange α) : Except OutOfRange (List α) := do
  let loaded ← updateBelow g.columns (fun j _ => columnCost j) g.cost
  writeAt loaded g.columns 0

def price (g : Grid α) (columnCost : Nat → Except OutOfRange α) : Except OutOfRange (Grid α) := do
  let loaded ← g.load columnCost
  let cost ← (List.range g.rows.length).foldlM (g.priceOut columnCost) loaded
  .ok { g with cost }

def objective (g : Grid α) : Except OutOfRange α := do
  let v ← readAt g.cost g.columns
  .ok (-v)

/-! ### Pivots -/

def clear (width : Nat) (row : List α) (col : Nat) (lead : List α) : Except OutOfRange (List α) := do
  let factor ← readAt row col
  if Scalar.eq factor 0 then .ok row
  else do
    let cleared ← subtract width row factor lead
    writeAt cleared col 0

/-- The pivot row is taken out, which leaves an empty one in its place until it is put back. -/
def pivot (g : Grid α) (row col : Nat) : Except OutOfRange (Grid α) := do
  let taken ← readAt g.rows row
  let others ← writeAt g.rows row []
  let p ← readAt taken col
  let lead := taken.map (· / p)
  let cleared ← others.zipIdx.mapM fun (other, index) =>
    if index = row then .ok other else clear (g.columns + 1) other col lead
  let cost ← clear (g.columns + 1) g.cost col lead
  let rows ← writeAt cleared row lead
  let basis ← writeAt g.basis row col
  .ok { g with rows, basis, cost }

def entering (g : Grid α) (limit : Nat) (tol : α) : Except OutOfRange (Option Nat) :=
  (List.range limit).findM? fun j => do
    let v ← readAt g.cost j
    .ok (Scalar.lt v (-tol))

/-- Whether row `index` with its ratio beats the best row so far; the basis is read only on a tie. -/
def improves (g : Grid α) (tol : α) (index : Nat) (ratio : α) (best : Nat × α) : Except OutOfRange Bool :=
  if Scalar.lt ratio (best.2 - tol) then .ok true
  else if Scalar.le (Scalar.abs (ratio - best.2)) tol then do
    let own ← readAt g.basis index
    let other ← readAt g.basis best.1
    .ok (own < other)
  else .ok false

def consider (g : Grid α) (col : Nat) (tol : α) (best : Option (Nat × α)) (row : List α) (index : Nat) :
    Except OutOfRange (Option (Nat × α)) := do
  let entry ← readAt row col
  if Scalar.le entry tol then .ok best
  else do
    let rhs ← readAt row g.columns
    let ratio := Scalar.max (rhs / entry) 0
    match best with
    | none => .ok (some (index, ratio))
    | some b => do
      let better ← g.improves tol index ratio b
      .ok (some (if better then (index, ratio) else b))

def ratioTest (g : Grid α) (col : Nat) (tol : α) : Except OutOfRange (Option Nat) := do
  let best ← g.rows.zipIdx.foldlM (fun best (row, index) => g.consider col tol best row index) none
  .ok (best.map Prod.fst)

def outlet (g : Grid α) (row : Nat) (tol : α) : Except OutOfRange (Option Nat) := do
  let basic ← readAt g.basis row
  if basic < g.artificial then .ok none
  else (List.range g.artificial).findM? fun j => do
    let line ← readAt g.rows row
    let v ← readAt line j
    .ok (Scalar.lt tol (Scalar.abs v))

def primal (g : Grid α) (vars : Nat) : Except OutOfRange (List α) :=
  g.basis.zipIdx.foldlM (fun x (basic, index) =>
    if basic < vars then do
      let row ← readAt g.rows index
      let rhs ← readAt row g.columns
      writeAt x basic (Scalar.max rhs 0)
    else .ok x) (List.replicate vars 0)

/-! ### Runs -/

/-- The present grid of a run, and those before it from the last to the first. -/
structure Passage (α : Type) where
  now : Grid α
  past : List (Grid α)
  deriving DecidableEq, Repr

def Passage.goOn (w : Passage α) (next : Grid α) : Passage α :=
  ⟨next, w.now :: w.past⟩

def Passage.grids (w : Passage α) : List (Grid α) :=
  w.now :: w.past

/-- The end of a phase, the grids up to it and the pivots made so far. -/
structure Stop (α : Type) where
  finish : PhaseEnd
  passage : Passage α
  pivots : Nat
  deriving DecidableEq, Repr

def runPhase (limit : Nat) (tol : α) (budget pivots : Nat) (w : Passage α) : Except OutOfRange (Stop α) := do
  match ← w.now.entering limit tol with
  | none => .ok ⟨.optimal, w, pivots⟩
  | some col =>
    match budget with
    | 0 => .ok ⟨.outOfPivots, w, pivots⟩
    | budget + 1 =>
      match ← w.now.ratioTest col tol with
      | none => .ok ⟨.unbounded, w, pivots⟩
      | some row => do
        let next ← w.now.pivot row col
        runPhase limit tol budget (pivots + 1) (w.goOn next)

def drive (tol : α) (w : Passage α) (row : Nat) : Except OutOfRange (Passage α) := do
  match ← w.now.outlet row tol with
  | none => .ok w
  | some col => do
    let next ← w.now.pivot row col
    .ok (w.goOn next)

def driveOut (tol : α) (w : Passage α) : Except OutOfRange (Passage α) :=
  (List.range w.now.rows.length).foldlM (drive tol) w

def structuralCost (p : Program α) (col : Nat) : Except OutOfRange α :=
  if col < p.objective.length then readAt p.objective col else .ok 0

def artificialCost (artificial col : Nat) : Except OutOfRange α :=
  .ok (if artificial ≤ col then 1 else 0)

/-- A solution and the grids of the run to it, from the last to the first. -/
structure Ending (α : Type) where
  solution : Solution α
  grids : List (Grid α)
  deriving DecidableEq, Repr

/-- Ends with the basic solution of the last grid. -/
def Stop.answer (p : Program α) (result : α → List α → Relaxation α) (stop : Stop α) :
    Except OutOfRange (Ending α) := do
  let x ← stop.passage.now.primal p.objective.length
  .ok ⟨⟨result (Scalar.dot p.objective x) x, stop.pivots⟩, stop.passage.grids⟩

def phaseTwo (p : Program α) (s : Settings α) (w : Passage α) (pivots : Nat) : Except OutOfRange (Ending α) := do
  let priced ← w.now.price (structuralCost p)
  let stop ← runPhase w.now.artificial s.pivotTol (s.maxPivots - pivots) pivots (w.goOn priced)
  match stop.finish with
  | .optimal => stop.answer p .optimal
  | .outOfPivots => stop.answer p .iterationLimit
  | .unbounded => .ok ⟨⟨.unbounded, stop.pivots⟩, stop.passage.grids⟩

def phaseOne (p : Program α) (s : Settings α) (w : Passage α) : Except OutOfRange (Ending α) := do
  let priced ← w.now.price (artificialCost w.now.artificial)
  let stop ← runPhase w.now.columns s.pivotTol s.maxPivots 0 (w.goOn priced)
  match stop.finish with
  | .outOfPivots => stop.answer p .iterationLimit
  | .unbounded => stop.answer p .iterationLimit
  | .optimal => do
    let infeasibility ← stop.passage.now.objective
    if Scalar.lt (s.feasTol * p.scale) infeasibility then
      .ok ⟨⟨.infeasible, stop.pivots⟩, stop.passage.grids⟩
    else do
      let driven ← driveOut s.pivotTol stop.passage
      phaseTwo p s driven stop.pivots

def solve (p : Program α) (s : Settings α) : Except OutOfRange (Ending α) := do
  let first ← build p
  if first.artificial < first.columns then phaseOne p s ⟨first, []⟩ else phaseTwo p s ⟨first, []⟩ 0

end Grid

end BranchBound.Linear
