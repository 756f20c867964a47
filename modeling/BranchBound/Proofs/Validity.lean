import BranchBound.Oracle.Simplex
import BranchBound.Proofs.FiniteScalars
import BranchBound.Proofs.Points
import BranchBound.Proofs.Violation

/-!
# Validity of relaxations

What the checks of a program accept, for any scalars: the right shape and finite entries. The relaxation of a
system over a valid program passes them exactly if its branch rows have finite bounds, so that the simplex
oracle gives an answer exactly then (`simplex_reply`).
-/

namespace BranchBound

open Integer (BranchRow System)

variable {α : Type} [Scalar α]

def AllFinite (xs : List α) : Prop :=
  ∀ v ∈ xs, Scalar.isFinite v = true

theorem all_isFinite {xs : List α} : xs.all Scalar.isFinite = true ↔ AllFinite xs :=
  List.all_eq_true

theorem any_not_isFinite {xs : List α} : (xs.any fun v => !Scalar.isFinite v) = false ↔ AllFinite xs := by
  simp [AllFinite]

/-! ### Linear programs -/

namespace Linear.Program

/-- The checks before that of the bounds: the shape, and the entries of the rows. -/
structure Shaped (p : Linear.Program α) : Prop where
  objective : p.objective ≠ []
  counted : p.rows.length = p.rhs.length
  rows : ∀ row ∈ p.rows, row.length = p.objective.length ∧ AllFinite row

theorem rowFault?_of_shaped {width : Nat} {rows : List (List α)} (index : Nat)
    (shaped : ∀ row ∈ rows, row.length = width ∧ AllFinite row) : rowFault? width index rows = none := by
  induction rows generalizing index with
  | nil => rfl
  | cons row rest ih =>
    obtain ⟨wide, finite⟩ := shaped row List.mem_cons_self
    unfold rowFault?
    rw [if_neg (not_not.mpr wide), if_pos (all_isFinite.mpr finite)]
    exact ih _ fun other member => shaped other (List.mem_cons_of_mem _ member)

theorem fault?_of_shaped {p : Linear.Program α} (shaped : p.Shaped) :
    p.fault? = if (p.rhs ++ p.objective).all Scalar.isFinite then none else some .boundsNotFinite := by
  have nonempty : p.objective.isEmpty = false := by simp [shaped.objective]
  unfold fault?
  rw [nonempty, if_neg Bool.false_ne_true, if_neg (not_not.mpr shaped.counted), rowFault?_of_shaped 0 shaped.rows]

end Linear.Program

/-! ### Integer programs -/

/-- What the checks of an integer program accept. -/
structure Integer.Program.Valid (p : Integer.Program α) : Prop where
  vars : p.vars ≠ 0
  counted : p.rows.length = p.rhs.length
  rows : ∀ row ∈ p.rows, row.length = p.vars ∧ AllFinite row
  rhs : AllFinite p.rhs
  objective : AllFinite p.objective

theorem Integer.Program.allFinite_of_rowFault? {vars index : Nat} {row : List α}
    (sound : Integer.Program.rowFault? vars row index = none) : AllFinite row := by
  have wide := Integer.Program.rowFault?_none sound
  unfold Integer.Program.rowFault? at sound
  rw [if_neg (not_not.mpr wide)] at sound
  apply any_not_isFinite.mp
  cases some : row.any fun v => !Scalar.isFinite v with
  | false => rfl
  | true => simp [some] at sound

theorem Integer.Program.valid_of_fault? {p : Integer.Program α} (sound : p.fault? = none) : p.Valid := by
  obtain ⟨nonempty, counted, wide⟩ := Integer.Program.fault?_none sound
  unfold Integer.Program.fault? at sound
  rw [if_neg nonempty, if_neg (not_not.mpr counted.symm)] at sound
  obtain ⟨rowsSound, rest⟩ := Option.or_eq_none_iff.mp sound
  have rows : ∀ row ∈ p.rows, AllFinite row := by
    intro row member
    obtain ⟨index, read⟩ := List.getElem?_of_mem member
    have every := List.findSome?_eq_none_iff.mp rowsSound
    exact Integer.Program.allFinite_of_rowFault? (every (row, index) (List.mem_zipIdx_iff_getElem?.mpr read))
  cases rhs : p.rhs.any fun v => !Scalar.isFinite v with
  | true => simp [rhs] at rest
  | false =>
    cases objective : p.objective.any fun v => !Scalar.isFinite v with
    | true => simp [rhs, objective] at rest
    | false =>
      exact ⟨nonempty, counted, fun row member => ⟨wide row member, rows row member⟩, any_not_isFinite.mp rhs,
        any_not_isFinite.mp objective⟩

/-! ### The relaxation of a system -/

namespace Integer.System

/-- The rows of the program, then the branch rows in full width. -/
def linear (s : System α) : Linear.Program α where
  objective := s.program.objective
  rows := s.program.rows ++ s.branches.map fun r => (List.replicate s.program.vars 0).set r.var r.coefficient
  rhs := s.program.rhs ++ s.branches.map BranchRow.rhs

variable {s : System α}

theorem dense_linear (counted : s.program.rows.length = s.program.rhs.length)
    (inside : ∀ r ∈ s.branches, r.var < s.program.vars) : s.dense = .ok (s.linear.rows, s.linear.rhs) := by
  unfold dense rows
  rw [mapM_rows inside]
  show Except.ok (List.unzip _) = _
  rw [List.unzip_eq_map, List.map_append, List.map_append, List.map_fst_zip counted.le, List.map_snd_zip counted.ge,
    List.map_map, List.map_map]
  rfl

variable [LawfulFinite α]

theorem isFinite_coefficient (r : BranchRow α) : Scalar.isFinite r.coefficient = true := by
  unfold BranchRow.coefficient
  cases r.side with
  | ceil => exact LawfulFinite.neg_one
  | floor => exact LawfulFinite.one

theorem isFinite_rhs (r : BranchRow α) : Scalar.isFinite r.rhs = Scalar.isFinite r.bound := by
  unfold BranchRow.rhs BranchRow.coefficient
  cases r.side with
  | ceil => exact LawfulFinite.neg_one_mul r.bound
  | floor => exact LawfulFinite.one_mul r.bound

theorem shaped_linear (valid : s.program.Valid) : s.linear.Shaped where
  objective empty := valid.vars (List.length_eq_zero_iff.mpr empty)
  counted := by
    show (s.program.rows ++ _).length = (s.program.rhs ++ _).length
    rw [List.length_append, List.length_append, List.length_map, List.length_map, valid.counted]
  rows row member := by
    rcases List.mem_append.mp member with base | branch
    · exact valid.rows row base
    · obtain ⟨r, -, rfl⟩ := List.mem_map.mp branch
      refine ⟨by rw [List.length_set, List.length_replicate]; rfl, ?_⟩
      intro v entry
      rcases List.mem_or_eq_of_mem_set entry with zero | rfl
      · rw [List.eq_of_mem_replicate zero]
        exact LawfulFinite.zero
      · exact isFinite_coefficient r

theorem fault?_linear (valid : s.program.Valid) :
    s.linear.fault? =
      if s.branches.all fun r => Scalar.isFinite r.bound then none else some .boundsNotFinite := by
  have bounds : (s.linear.rhs ++ s.linear.objective).all Scalar.isFinite =
      s.branches.all fun r => Scalar.isFinite r.bound := by
    show ((s.program.rhs ++ s.branches.map BranchRow.rhs) ++ s.program.objective).all Scalar.isFinite = _
    rw [List.all_append, List.all_append, all_isFinite.mpr valid.rhs, all_isFinite.mpr valid.objective, List.all_map]
    simp only [Function.comp_def, isFinite_rhs, Bool.true_and, Bool.and_true]
  rw [Linear.Program.fault?_of_shaped (shaped_linear valid), bounds]

theorem solve_linear (settings : Linear.Settings α) (valid : s.program.Valid) :
    s.linear.solve settings =
      if s.branches.all fun r => Scalar.isFinite r.bound then .ok (s.linear.run settings)
      else .error .boundsNotFinite := by
  rw [Linear.Program.solve, fault?_linear valid]
  cases s.branches.all fun r => Scalar.isFinite r.bound with
  | true => rfl
  | false => rfl

end Integer.System

/-! ### Replies of the simplex oracle -/

namespace Oracle

variable {settings : Linear.Settings α} {s : System α}

/-- A call is the solve of the relaxation, which is counted if it was not refused. -/
theorem simplex_eq (tally : Tally) (counted : s.program.rows.length = s.program.rhs.length)
    (inside : ∀ r ∈ s.branches, r.var < s.program.vars) :
    simplex settings tally s = match s.linear.solve settings with
      | .error fault => { result := .error (.invalidRelaxation fault), state := tally, log := [] }
      | .ok run =>
        { result := .ok run.solution.answer
          state := ⟨tally.solves + 1, tally.pivots + run.solution.pivots⟩
          log := run.log ++ [.relaxationSolved (tally.solves + 1) s.numRows run.solution.answer run.solution.pivots] } := by
  unfold simplex
  rw [Integer.System.dense_linear counted inside]
  rfl

variable [LawfulFinite α]

/-- The simplex oracle answers a system over a valid program unless a branch row has no finite bound. -/
theorem simplex_reply (tally : Tally) (valid : s.program.Valid)
    (inside : ∀ r ∈ s.branches, r.var < s.program.vars) :
    (simplex settings tally s).result =
      if s.branches.all fun r => Scalar.isFinite r.bound then .ok (s.linear.run settings).solution.answer
      else .error (.invalidRelaxation .boundsNotFinite) := by
  rw [simplex_eq tally valid.counted inside, Integer.System.solve_linear settings valid]
  cases s.branches.all fun r => Scalar.isFinite r.bound with
  | true => rfl
  | false => rfl

end Oracle

/-! ### Points of the simplex method -/

namespace Linear

/-- A value for each variable, each of them raised to zero. -/
def IsPoint (vars : Nat) (x : List α) : Prop :=
  x.length = vars ∧ ∀ v ∈ x, v = 0 ∨ ∃ r : α, v = Scalar.max r 0

theorem isPoint_primal (t : Tableau α) (vars : Nat) : IsPoint vars (t.primal vars) := by
  have kept : ∀ (rows : List (Row α)) (x : List α), IsPoint vars x →
      IsPoint vars (rows.foldl (Tableau.place vars) x) := by
    intro rows
    induction rows with
    | nil => exact fun x point => point
    | cons row rest ih =>
      rintro x ⟨length, raised⟩
      rw [List.foldl_cons]
      apply ih
      unfold Tableau.place
      split
      · refine ⟨by rw [List.length_set, length], ?_⟩
        intro v member
        rcases List.mem_or_eq_of_mem_set member with old | rfl
        · exact raised v old
        · exact Or.inr ⟨row.line.rhs, rfl⟩
      · exact ⟨length, raised⟩
  apply kept
  exact ⟨List.length_replicate, fun v member => Or.inl (List.eq_of_mem_replicate member)⟩

theorem Program.isPoint_of_run {p : Program α} {s : Settings α} {objective : α} {x : List α}
    (answered : (p.run s).solution.answer = .optimal objective x) : IsPoint p.objective.length x := by
  have basic := Program.optimal_of_run answered
  have point : (p.lastTableau s).primal p.objective.length = x := congrArg Prod.snd basic
  exact point ▸ isPoint_primal (p.lastTableau s) _

end Linear

end BranchBound
