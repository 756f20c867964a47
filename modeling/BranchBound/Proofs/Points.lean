import Mathlib.Data.Real.Basic
import BranchBound.Proofs.Rational
import BranchBound.Integer.System
import BranchBound.Linear.Program

/-!
# Points

The points of programs and systems with rational data, over any ordered field. A system and its
dense program have the same points (`feasible_relaxation`), and a rational point is one over the reals
if it is one over the rationals (`feasible_cast`).
-/

namespace BranchBound

variable {K : Type} [Field K] [LinearOrder K] [IsStrictOrderedRing K]

/-! ### Linear forms -/

/-- The value of a linear form at a point, over the common length. -/
def form (coeffs : List ℚ) (y : List K) : K :=
  (List.zipWith (fun (a : ℚ) v => (a : K) * v) coeffs y).sum

omit [LinearOrder K] [IsStrictOrderedRing K] in
theorem form_eq_sum {coeffs : List ℚ} {y : List K} (same : coeffs.length = y.length) :
    form coeffs y = ∑ j ∈ Finset.range y.length, (coeffs.getD j 0 : K) * y.getD j 0 := by
  induction y generalizing coeffs with
  | nil => simp [form]
  | cons v rest ih =>
    obtain _ | ⟨a, others⟩ := coeffs
    · simp at same
    · have shorter : form others rest = _ := ih (by simpa using same)
      rw [List.length_cons, Finset.sum_range_succ']
      simp only [form, List.zipWith_cons_cons, List.sum_cons] at shorter ⊢
      rw [shorter]
      simp only [List.getD_cons_succ, List.getD_cons_zero]
      ring

omit [LinearOrder K] [IsStrictOrderedRing K] in
theorem form_map_range (coeffs : List ℚ) (z : ℕ → K) :
    form coeffs ((List.range coeffs.length).map z) =
      ∑ j ∈ Finset.range coeffs.length, (coeffs.getD j 0 : K) * z j := by
  rw [form_eq_sum (by simp), List.length_map, List.length_range]
  refine Finset.sum_congr rfl fun j member => ?_
  have read : ((List.range coeffs.length).map z).getD j 0 = z j := by
    rw [List.getD_eq_getElem?_getD, List.getElem?_map, List.getElem?_range (Finset.mem_range.mp member)]
    rfl
  rw [read]

theorem form_rat (coeffs x : List ℚ) : form coeffs x = Scalar.dot coeffs x := by
  rw [Rational.scalar_dot]
  rfl

theorem form_cast (coeffs x : List ℚ) :
    form coeffs (x.map (Rat.cast : ℚ → K)) = ((form coeffs x : ℚ) : K) := by
  induction coeffs generalizing x with
  | nil => simp [form]
  | cons a rest ih =>
    obtain _ | ⟨v, others⟩ := x
    · simp [form]
    · have shorter := ih others
      simp only [form, List.map_cons, List.zipWith_cons_cons, List.sum_cons] at shorter ⊢
      rw [shorter]
      push_cast
      ring

omit [LinearOrder K] [IsStrictOrderedRing K] in
theorem form_single {var : Nat} {y : List K} {v : K} (a : ℚ) (read : y[var]? = some v) :
    form ((List.replicate y.length 0).set var a) y = (a : K) * v := by
  have inside : var < y.length := (List.getElem?_eq_some_iff.mp read).1
  rw [form_eq_sum (by simp), Finset.sum_eq_single var]
  · have value : y.getD var 0 = v := by rw [List.getD_eq_getElem?_getD, read]; rfl
    have entry : ((List.replicate y.length (0 : ℚ)).set var a).getD var 0 = a := by
      simp [List.getD_eq_getElem?_getD, inside]
    rw [value, entry]
  · intro j _ different
    have entry : ((List.replicate y.length (0 : ℚ)).set var a).getD j 0 = 0 := by
      rw [List.getD_eq_getElem?_getD, List.getElem?_set_ne (Ne.symm different), List.getElem?_replicate]
      split <;> rfl
    rw [entry]
    simp
  · intro outside
    exact absurd (Finset.mem_range.mpr inside) outside

/-! ### Feasible points -/

/-- The points with `vars` coordinates from zero up that satisfy every row. -/
structure Within (vars : Nat) (rows : List (List ℚ × ℚ)) (y : List K) : Prop where
  length : y.length = vars
  nonneg : ∀ v ∈ y, 0 ≤ v
  rows : ∀ row ∈ rows, form row.1 y ≤ (row.2 : K)

def Linear.Program.Feasible (p : Linear.Program ℚ) (y : List K) : Prop :=
  Within p.objective.length (p.rows.zip p.rhs) y

def Integer.Program.Feasible (p : Integer.Program ℚ) (y : List K) : Prop :=
  Within p.vars (p.rows.zip p.rhs) y

/-- The points whose coordinate is on the row's side of the bound. -/
def Integer.BranchRow.Admits (r : Integer.BranchRow ℚ) (y : List K) : Prop :=
  ∃ v, y[r.var]? = some v ∧ (r.coefficient : K) * v ≤ (r.rhs : K)

/-- The points of the relaxation of a node. -/
def Integer.System.Feasible (s : Integer.System ℚ) (y : List K) : Prop :=
  s.program.Feasible y ∧ ∀ r ∈ s.branches, r.Admits y

omit [IsStrictOrderedRing K] in
theorem Integer.System.feasible_append {p : Integer.Program ℚ} {rows : List (Integer.BranchRow ℚ)}
    {r : Integer.BranchRow ℚ} {y : List K} :
    Integer.System.Feasible ⟨p, rows ++ [r]⟩ y ↔ Integer.System.Feasible ⟨p, rows⟩ y ∧ r.Admits y := by
  unfold Integer.System.Feasible
  simp only [List.forall_mem_append, List.forall_mem_singleton, and_assoc]

theorem Integer.BranchRow.admits_ceil {var : Nat} {value : ℚ} {y : List K} :
    (Integer.BranchRow.split .ceil var value).Admits y ↔ ∃ v, y[var]? = some v ∧ (⌈value⌉ : K) ≤ v := by
  simp [Integer.BranchRow.Admits]

omit [IsStrictOrderedRing K] in
theorem Integer.BranchRow.admits_floor {var : Nat} {value : ℚ} {y : List K} :
    (Integer.BranchRow.split .floor var value).Admits y ↔ ∃ v, y[var]? = some v ∧ v ≤ (⌊value⌋ : K) := by
  simp [Integer.BranchRow.Admits]

theorem within_cast {vars : Nat} {rows : List (List ℚ × ℚ)} {x : List ℚ} :
    Within vars rows (x.map (Rat.cast : ℚ → K)) ↔ Within vars rows x := by
  constructor
  · rintro ⟨length, nonneg, holds⟩
    refine ⟨by simpa using length, ?_, ?_⟩
    · intro v member
      have above := nonneg (v : K) (List.mem_map_of_mem member)
      exact_mod_cast above
    · intro row member
      have below := holds row member
      rw [form_cast] at below
      exact_mod_cast below
  · rintro ⟨length, nonneg, holds⟩
    refine ⟨by simpa using length, ?_, ?_⟩
    · intro w member
      obtain ⟨v, original, rfl⟩ := List.mem_map.mp member
      exact_mod_cast nonneg v original
    · intro row member
      rw [form_cast]
      exact_mod_cast holds row member

theorem Linear.Program.feasible_cast {p : Linear.Program ℚ} {x : List ℚ} :
    p.Feasible (x.map (Rat.cast : ℚ → K)) ↔ p.Feasible x :=
  within_cast

theorem Integer.BranchRow.admits_cast {r : Integer.BranchRow ℚ} {x : List ℚ} :
    r.Admits (x.map (Rat.cast : ℚ → K)) ↔ r.Admits x := by
  unfold Integer.BranchRow.Admits
  rw [List.getElem?_map]
  constructor
  · rintro ⟨w, read, below⟩
    obtain ⟨v, original, rfl⟩ := Option.map_eq_some_iff.mp read
    exact ⟨v, original, by exact_mod_cast below⟩
  · rintro ⟨v, read, below⟩
    exact ⟨v, by rw [read]; rfl, by exact_mod_cast below⟩

theorem Integer.System.feasible_cast {s : Integer.System ℚ} {x : List ℚ} :
    s.Feasible (x.map (Rat.cast : ℚ → K)) ↔ s.Feasible x := by
  unfold Integer.System.Feasible
  exact and_congr within_cast (forall₂_congr fun _ _ => Integer.BranchRow.admits_cast)

/-! ### Programs without faults -/

section Faults
variable {α : Type} [Scalar α]

theorem Linear.Program.rowFault?_none {width : Nat} {index : Nat} {rows : List (List α)}
    (sound : Linear.Program.rowFault? width index rows = none) : ∀ row ∈ rows, row.length = width := by
  induction rows generalizing index with
  | nil => simp
  | cons row rest ih =>
    unfold Linear.Program.rowFault? at sound
    split at sound
    · exact absurd sound (by simp)
    · rename_i wide
      split at sound
      · intro other member
        rcases List.mem_cons.mp member with rfl | later
        · exact not_not.mp wide
        · exact ih sound other later
      · exact absurd sound (by simp)

theorem Linear.Program.fault?_none {p : Linear.Program α} (sound : p.fault? = none) :
    p.objective ≠ [] ∧ p.rows.length = p.rhs.length ∧ ∀ row ∈ p.rows, row.length = p.objective.length := by
  unfold Linear.Program.fault? at sound
  split at sound
  · exact absurd sound (by simp)
  · rename_i nonempty
    split at sound
    · exact absurd sound (by simp)
    · rename_i counted
      split at sound
      · exact absurd sound (by simp)
      · rename_i rowsSound
        exact ⟨by simpa using nonempty, not_not.mp counted, Linear.Program.rowFault?_none rowsSound⟩

theorem Integer.Program.rowFault?_none {vars index : Nat} {row : List α}
    (sound : Integer.Program.rowFault? vars row index = none) : row.length = vars := by
  unfold Integer.Program.rowFault? at sound
  split at sound
  · exact absurd sound (by simp)
  · rename_i wide
    exact not_not.mp wide

theorem Integer.Program.fault?_none {p : Integer.Program α} (sound : p.fault? = none) :
    p.vars ≠ 0 ∧ p.rows.length = p.rhs.length ∧ ∀ row ∈ p.rows, row.length = p.vars := by
  unfold Integer.Program.fault? at sound
  split at sound
  · exact absurd sound (by simp)
  · rename_i nonempty
    split at sound
    · exact absurd sound (by simp)
    · rename_i counted
      refine ⟨nonempty, (not_not.mp counted).symm, ?_⟩
      intro row member
      obtain ⟨index, read⟩ := List.getElem?_of_mem member
      have every := List.findSome?_eq_none_iff.mp (Option.or_eq_none_iff.mp sound).1
      exact Integer.Program.rowFault?_none (every (row, index) (List.mem_zipIdx_iff_getElem?.mpr read))

end Faults

/-- Exact data are finite: only the shape of a linear program matters. -/
theorem Linear.Program.fault?_eq_none {p : Linear.Program ℚ} (nonempty : p.objective ≠ [])
    (counted : p.rows.length = p.rhs.length) (wide : ∀ row ∈ p.rows, row.length = p.objective.length) :
    p.fault? = none := by
  have rowsSound : ∀ (rows : List (List ℚ)) (index : Nat), (∀ row ∈ rows, row.length = p.objective.length) →
      Linear.Program.rowFault? p.objective.length index rows = none := by
    intro rows
    induction rows with
    | nil => intro index _; rfl
    | cons row rest ih =>
      intro index every
      have first := every row List.mem_cons_self
      unfold Linear.Program.rowFault?
      rw [if_neg (by simpa using first), if_pos (by simp)]
      exact ih _ fun other member => every other (List.mem_cons_of_mem _ member)
  unfold Linear.Program.fault?
  rw [if_neg (by simpa using nonempty), if_neg (by simpa using counted), rowsSound _ _ wide]
  simp

/-! ### The dense program of a system -/

namespace Integer.System

def pairs (s : System ℚ) : List (List ℚ × ℚ) :=
  s.program.rows.zip s.program.rhs ++
    s.branches.map fun r => ((List.replicate s.program.vars 0).set r.var r.coefficient, r.rhs)

theorem mapM_branches {α : Type} [Scalar α] {vars : Nat} {branches : List (BranchRow α)} (inside : ∀ r ∈ branches, r.var < vars) :
    (branches.map SystemRow.branch).mapM (SystemRow.dense vars) =
      .ok (branches.map fun r => ((List.replicate vars 0).set r.var r.coefficient, r.rhs)) := by
  induction branches with
  | nil => rfl
  | cons r rest ih =>
    have first := inside r List.mem_cons_self
    rw [List.map_cons, List.mapM_cons, ih fun other member => inside other (List.mem_cons_of_mem _ member)]
    simp only [SystemRow.dense, BranchRow.dense, if_pos first]
    rfl

theorem mapM_rows {α : Type} [Scalar α] {vars : Nat} {branches : List (BranchRow α)}
    (inside : ∀ r ∈ branches, r.var < vars) (rows : List (List α)) (rhs : List α) :
    (List.zipWith SystemRow.base rows rhs ++ branches.map SystemRow.branch).mapM (SystemRow.dense vars) =
      .ok (rows.zip rhs ++
        branches.map fun r => ((List.replicate vars 0).set r.var r.coefficient, r.rhs)) := by
  induction rows generalizing rhs with
  | nil => simpa using mapM_branches inside
  | cons row rest ih =>
    obtain _ | ⟨b, others⟩ := rhs
    · simpa using mapM_branches inside
    · rw [List.zipWith_cons_cons, List.cons_append, List.mapM_cons, ih others]
      rfl

theorem exists_dense {α : Type} [Scalar α] {s : System α} (inside : ∀ r ∈ s.branches, r.var < s.program.vars) :
    ∃ matrix, s.dense = .ok matrix := by
  unfold dense rows
  rw [mapM_rows inside]
  exact ⟨_, rfl⟩

theorem dense_eq {s : System ℚ} (inside : ∀ r ∈ s.branches, r.var < s.program.vars) :
    s.dense = .ok s.pairs.unzip := by
  unfold dense rows
  rw [mapM_rows inside]
  rfl

theorem inside_of_dense {s : System ℚ} {matrix : List (List ℚ) × List ℚ} (converted : s.dense = .ok matrix) :
    ∀ r ∈ s.branches, r.var < s.program.vars := by
  have stopped : ∀ (rows : List (SystemRow ℚ)) (out : List (List ℚ × ℚ)) (vars : Nat),
      rows.mapM (SystemRow.dense vars) = .ok out → ∀ r, SystemRow.branch r ∈ rows → r.var < vars := by
    intro rows
    induction rows with
    | nil => intro out vars _ r member; simp at member
    | cons row rest ih =>
      intro out vars done r member
      rw [List.mapM_cons] at done
      cases first : SystemRow.dense vars row with
      | error fault => rw [first] at done; cases done
      | ok pair =>
        cases later : rest.mapM (SystemRow.dense vars) with
        | error fault => rw [first, later] at done; cases done
        | ok found =>
          rcases List.mem_cons.mp member with rfl | inRest
          · by_contra outside
            simp only [SystemRow.dense, BranchRow.dense, if_neg outside] at first
            cases first
          · exact ih found vars later r inRest
  unfold dense at converted
  cases mapped : s.rows.mapM (SystemRow.dense s.program.vars) with
  | error fault => rw [mapped] at converted; cases converted
  | ok found =>
    intro r member
    exact stopped _ _ _ mapped r (List.mem_append_right _ (List.mem_map_of_mem member))

def relaxation (s : System ℚ) : Linear.Program ℚ :=
  ⟨s.program.objective, s.pairs.unzip.1, s.pairs.unzip.2⟩

omit [IsStrictOrderedRing K] in
/-- The dense program of a system has the points of the system. -/
theorem feasible_relaxation {s : System ℚ} {y : List K} (inside : ∀ r ∈ s.branches, r.var < s.program.vars) :
    s.relaxation.Feasible y ↔ s.Feasible y := by
  unfold relaxation Linear.Program.Feasible
  rw [List.zip_unzip]
  constructor
  · rintro ⟨length, nonneg, holds⟩
    refine ⟨⟨length, nonneg, fun row member => holds row (List.mem_append_left _ member)⟩, ?_⟩
    intro r member
    have below := holds _ (List.mem_append_right _ (List.mem_map_of_mem member))
    have length : y.length = s.program.vars := length
    have within : r.var < y.length := by rw [length]; exact inside r member
    have read : y[r.var]? = some y[r.var] := List.getElem?_eq_getElem within
    rw [← length, form_single _ read] at below
    exact ⟨_, read, below⟩
  · rintro ⟨⟨length, nonneg, holds⟩, admitted⟩
    refine ⟨length, nonneg, ?_⟩
    intro row member
    rcases List.mem_append.mp member with base | branch
    · exact holds row base
    · obtain ⟨r, original, rfl⟩ := List.mem_map.mp branch
      obtain ⟨v, read, below⟩ := admitted r original
      have length : y.length = s.program.vars := length
      rw [← length, form_single _ read]
      exact below

end Integer.System

end BranchBound
