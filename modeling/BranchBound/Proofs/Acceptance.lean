import BranchBound.Proofs.Validity

/-!
# Acceptance

An integer program and the linear program with the same data go through separate checks, which find the same first
fault (`fault?_relaxed`). A relaxation is checked once more, with the branch rows of its node: of a program
that was accepted, the simplex oracle refuses the systems with an infinite bound and no others
(`simplex_refuses_infinite_bounds`).
-/

namespace BranchBound

open Integer (BranchRow System)

/-- The fault by which the linear program is refused. -/
def Integer.Fault.linear : Integer.Fault → Linear.Fault
  | .emptyObjective => .emptyObjective
  | .rowCount rows entries => .rowCount rows entries
  | .rowLength row length expected => .rowLength row length expected
  | .rowNotFinite row => .rowNotFinite row
  | .rhsNotFinite => .boundsNotFinite
  | .objectiveNotFinite => .boundsNotFinite

namespace Integer.Program

variable {α : Type} [Scalar α]

/-- The linear program with the same data. -/
def relaxed (p : Integer.Program α) : Linear.Program α :=
  ⟨p.objective, p.rows, p.rhs⟩

theorem rowFault?_relaxed (vars index : Nat) (rows : List (List α)) :
    Linear.Program.rowFault? vars index rows =
      ((rows.zipIdx index).findSome? fun (row, i) => rowFault? vars row i).map Fault.linear := by
  induction rows generalizing index with
  | nil => rfl
  | cons row rest ih =>
    have first : rowFault? vars row index =
        if row.length ≠ vars then some (.rowLength index row.length vars)
        else if !row.all Scalar.isFinite then some (.rowNotFinite index) else none := by
      rw [List.not_all_eq_any_not]
      rfl
    rw [Linear.Program.rowFault?, List.zipIdx_cons, List.findSome?_cons, ih]
    generalize List.findSome? _ (rest.zipIdx (index + 1)) = later
    simp only [first]
    by_cases wide : row.length = vars
    · cases row.all Scalar.isFinite <;> simp [wide, Fault.linear]
    · simp [wide, Fault.linear]

/-- The checks of a linear program find the first fault that those of the integer program find. -/
theorem fault?_relaxed (p : Integer.Program α) : p.relaxed.fault? = p.fault?.map Fault.linear := by
  obtain ⟨rows, rhs, objective⟩ := p
  unfold relaxed Linear.Program.fault? fault? vars
  dsimp only
  rw [rowFault?_relaxed]
  generalize (rows.zipIdx 0).findSome? (fun (row, i) => rowFault? objective.length row i) = fault
  simp only [← List.not_all_eq_any_not, List.all_append]
  by_cases empty : objective = []
  · simp [empty, Fault.linear]
  · by_cases counted : rows.length = rhs.length
    · cases fault with
      | some fault => simp [empty, counted]
      | none =>
        cases rhs.all Scalar.isFinite <;> cases objective.all Scalar.isFinite <;>
          simp [empty, counted, Fault.linear]
    · simp [empty, counted, Ne.symm counted, Fault.linear]

end Integer.Program

theorem Double.not_isFinite_iff (v : Float) : Scalar.isFinite v = false ↔ v.isInf = true ∨ v.isNaN = true := by
  show v.toModel.unpack.isFinite = false ↔ v.toModel.unpack.isInf = true ∨ v.toModel.unpack.isNaN = true
  cases v.toModel.unpack with
  | notANumber => exact ⟨fun _ => Or.inr rfl, fun _ => rfl⟩
  | infinity _ => exact ⟨fun _ => Or.inl rfl, fun _ => rfl⟩
  | zero _ => exact ⟨nofun, fun either => either.elim nofun nofun⟩
  | finite _ _ _ _ => exact ⟨nofun, fun either => either.elim nofun nofun⟩

namespace Oracle

/-- Integer and linear programs with the same data are accepted together. Over an accepted program the simplex oracle
fails exactly if a branch row has an infinite bound or none that is a number, and then counts nothing; else it
counts one solve and the pivots of the linear program. -/
theorem simplex_refuses_infinite_bounds :
    (∀ p : Integer.Program Float, p.fault? = none ↔ p.relaxed.fault? = none) ∧
    ∀ (settings : Linear.Settings Float) (tally : Tally) (s : System Float), s.program.fault? = none →
      (∀ r ∈ s.branches, r.var < s.program.vars) →
      ((∃ e, (simplex settings tally s).result = .error e) ↔
        ∃ r ∈ s.branches, r.bound.isInf = true ∨ r.bound.isNaN = true) ∧
      (∀ e, (simplex settings tally s).result = .error e → (simplex settings tally s).state = tally) ∧
      ∀ answer, (simplex settings tally s).result = .ok answer →
        ∃ rows rhs run, s.dense = .ok (rows, rhs) ∧
          Linear.Program.solve ⟨s.program.objective, rows, rhs⟩ settings = .ok run ∧
          answer = run.solution.answer ∧
          (simplex settings tally s).state = ⟨tally.solves + 1, tally.pivots + run.solution.pivots⟩ := by
  constructor
  · intro p
    rw [Integer.Program.fault?_relaxed, Option.map_eq_none_iff]
  · intro settings tally s sound inside
    have valid := Integer.Program.valid_of_fault? sound
    have dense := Integer.System.dense_linear valid.counted inside
    have solved := Integer.System.solve_linear settings valid
    rw [simplex_eq tally valid.counted inside, solved]
    simp only [← Double.not_isFinite_iff]
    cases finite : s.branches.all fun r => Scalar.isFinite r.bound with
    | true =>
      rw [finite, if_pos rfl] at solved
      refine ⟨?_, fun e failed => (nomatch failed), ?_⟩
      · simpa using finite
      · rintro answer ⟨⟩
        exact ⟨_, _, _, dense, solved, rfl, rfl⟩
    | false =>
      refine ⟨?_, fun e failed => rfl, fun answer answered => (nomatch answered)⟩
      simpa using finite

/-- The greatest `x₀ + 2 x₁` with `x₀ + x₁ ≤ 4`. -/
def capped : Integer.Program Float :=
  ⟨[[1, 1]], [4], [-1, -2]⟩

/-- With `x₁ ≤ 1` a solve of two pivots is counted; with an infinite bound on `x₀` as well nothing is. -/
theorem simplex_refuses_infinite_bounds_capped :
    capped.fault? = none ∧ capped.relaxed.fault? = none ∧
      (∃ e, (simplex .default ⟨3, 7⟩ ⟨capped, [.split .floor 1 1.5, .split .ceil 0 Double.top]⟩).result = .error e) ∧
      (simplex .default ⟨3, 7⟩ ⟨capped, [.split .floor 1 1.5, .split .ceil 0 Double.top]⟩).state = ⟨3, 7⟩ ∧
      ∃ run : Linear.Run Float, Linear.Program.solve ⟨[-1, -2], [[1, 1], [0, 1]], [4, 1]⟩ .default = .ok run ∧
        run.solution.pivots = 2 ∧
        (simplex .default ⟨3, 7⟩ ⟨capped, [.split .floor 1 1.5]⟩).state = ⟨4, 9⟩ := by
  have sound : capped.fault? = none := by decide +kernel
  obtain ⟨agree, replies⟩ := simplex_refuses_infinite_bounds
  obtain ⟨fails, uncounted, -⟩ := replies .default ⟨3, 7⟩ ⟨capped, [.split .floor 1 1.5, .split .ceil 0 Double.top]⟩
    sound (by decide +kernel)
  obtain ⟨e, failed⟩ := fails.mpr ⟨.split .ceil 0 Double.top, by simp, Or.inl (by decide +kernel)⟩
  obtain ⟨-, -, counted⟩ := replies .default ⟨3, 7⟩ ⟨capped, [.split .floor 1 1.5]⟩ sound (by decide +kernel)
  have answered : (simplex .default ⟨3, 7⟩ ⟨capped, [.split .floor 1 1.5]⟩).result = .ok (.optimal (-5) [3, 1]) := by
    decide +kernel
  have wide : System.dense ⟨capped, [.split .floor 1 1.5]⟩ = .ok ([[1, 1], [0, 1]], [4, 1]) := by decide +kernel
  have tallied : (simplex .default ⟨3, 7⟩ ⟨capped, [.split .floor 1 1.5]⟩).state = ⟨4, 9⟩ := by decide +kernel
  obtain ⟨rows, rhs, run, dense, solved, -, state⟩ := counted _ answered
  cases wide.symm.trans dense
  have pivots : 9 = 7 + run.solution.pivots := congrArg Tally.pivots (tallied.symm.trans state)
  exact ⟨sound, (agree capped).mp sound, ⟨e, failed⟩, uncounted e failed, run, solved, by omega, tallied⟩

end Oracle

end BranchBound
