import BranchBound.Proofs.FlatLayout
import BranchBound.Proofs.RunCourse
import BranchBound.Proofs.Validity

/-!
# Positions in range

A solve goes from the first tableau by loading costs and by pivots in rows and columns that are there (`Trail`). Each
of these steps keeps the number of rows and columns (`Sized.next`), so the same solve in the flat layout never meets a
position out of range and comes to the same solution (`solve_in_range`). Nothing is asked of the scalars or of the
settings: a division by zero or a comparison of no numbers changes the way, not its shape.
-/

namespace BranchBound.Linear

variable {α : Type} [Scalar α]

namespace Tableau

/-! ### Steps of a solve -/

/-- Costs are loaded, or a pivot is made in a row and a column of the tableau. -/
inductive Next (t : Tableau α) : Tableau α → Prop
  | price (columnCost : Nat → α) : Next t (t.price columnCost)
  | pivot {row col : Nat} (inside : row < t.rows.length) (low : col < t.columns) : Next t (t.pivot row col)

/-- The tableaux on a way from the first one of a program, which is the last in the list. -/
inductive Trail (p : Program α) : List (Tableau α) → Prop
  | start : Trail p [build p]
  | step {t u : Tableau α} {past : List (Tableau α)} (before : Trail p (t :: past)) (next : t.Next u) :
    Trail p (u :: t :: past)

/-- A tableau with as many rows and columns as the first one of a program. -/
structure Sized (p : Program α) (t : Tableau α) : Prop extends t.Shaped where
  counted : t.rows.length = p.rhs.length
  width : t.columns = (build p).columns
  barred : t.artificial = (build p).artificial

section Sized
variable {p : Program α} {t u : Tableau α}

theorem Sized.build (valid : p.fault? = none) : (build p).Sized p where
  toShaped := build_shaped (Program.fault?_none valid).2.1
  counted := by simp [Tableau.build, length_startRows, (Program.fault?_none valid).2.1]
  width := rfl
  barred := rfl

theorem Sized.next (sized : t.Sized p) (next : t.Next u) : u.Sized p := by
  cases next with
  | price columnCost =>
    exact ⟨price_shaped sized.toShaped columnCost, sized.counted, sized.width, sized.barred⟩
  | pivot inside low =>
    refine ⟨pivot_shaped sized.toShaped _ low, ?_, ?_, ?_⟩
    · rw [length_rows_pivot, sized.counted]
    · rw [columns_pivot, sized.width]
    · rw [artificial_pivot, sized.barred]

theorem Trail.sized {trail : List (Tableau α)} (trailed : Trail p trail) (valid : p.fault? = none) :
    ∀ t ∈ trail, t.Sized p := by
  induction trailed with
  | start => exact List.forall_mem_singleton.mpr (Sized.build valid)
  | step before next ih => exact List.forall_mem_cons.mpr ⟨(ih _ List.mem_cons_self).next next, ih⟩

theorem Sized.artificial_le (sized : t.Sized p) : t.artificial ≤ t.columns := by
  rw [sized.barred, sized.width, build_columns]
  exact Nat.le_add_right _ _

theorem Sized.fits (sized : t.Sized p) : t.grid.Fits p where
  columns := sized.width
  artificial := sized.barred
  rows := by rw [length_grid_rows, sized.counted]
  width := by
    intro cells member
    obtain ⟨r, present, rfl⟩ := List.mem_map.mp member
    rw [Line.length_cells, sized.toShaped.rows r present, grid_columns]
  cost := by rw [grid_cost, Line.length_cells, sized.cost, grid_columns]
  basis := by rw [length_grid_basis, sized.counted]
  basic := by
    intro col member
    obtain ⟨r, present, rfl⟩ := List.mem_map.mp member
    exact sized.basic r present

end Sized

/-! ### Runs on grids -/

/-- The grids of `w` are those of a trail to `t`. -/
structure Follows (p : Program α) (w : Grid.Passage α) (t : Tableau α) : Prop where
  sized : t.Sized p
  now : w.now = t.grid
  past : ∃ past, Trail p (t :: past) ∧ w.past = past.map grid

section Follows
variable {p : Program α} {w : Grid.Passage α} {t u : Tableau α} {tol : α}

theorem Follows.start (valid : p.fault? = none) : Follows p ⟨(build p).grid, []⟩ (build p) :=
  ⟨Sized.build valid, rfl, [], .start, rfl⟩

theorem Follows.goOn (follows : Follows p w t) (next : t.Next u) : Follows p (w.goOn u.grid) u := by
  obtain ⟨past, trail, kept⟩ := follows.past
  refine ⟨follows.sized.next next, rfl, t :: past, trail.step next, ?_⟩
  show w.now :: w.past = _
  rw [follows.now, kept, List.map_cons]

theorem Follows.entering {limit : Nat} (follows : Follows p w t) (within : limit ≤ (build p).columns) :
    w.now.entering limit tol = .ok (t.entering limit tol) := by
  rw [follows.now]
  exact entering_grid follows.sized.toShaped (within.trans_eq follows.sized.width.symm)

theorem runPhase_follows {limit : Nat} (follows : Follows p w t) (within : limit ≤ (build p).columns) (tol : α)
    (budget pivots : Nat) :
    ∃ w', Grid.runPhase limit tol budget pivots w =
        .ok ⟨(runPhase limit tol budget pivots t).finish, w', (runPhase limit tol budget pivots t).pivots⟩ ∧
      Follows p w' (runPhase limit tol budget pivots t).tableau := by
  fun_induction runPhase limit tol budget pivots t generalizing w with
  | case1 budget pivots t ended =>
    refine ⟨w, ?_, follows⟩
    unfold Grid.runPhase
    rw [follows.entering within, ended]
    rfl
  | case2 pivots t col enters =>
    refine ⟨w, ?_, follows⟩
    unfold Grid.runPhase
    rw [follows.entering within, enters]
    rfl
  | case3 pivots t col enters budget leaves =>
    have low := (entering_lt follows.sized.toShaped enters).2
    refine ⟨w, ?_, follows⟩
    unfold Grid.runPhase
    rw [follows.entering within, enters, ok_bind, follows.now]
    dsimp only
    rw [(ratioTest_grid follows.sized.toShaped low tol).1, leaves]
    rfl
  | case4 pivots t col enters budget row leaves ih =>
    have low := (entering_lt follows.sized.toShaped enters).2
    obtain ⟨tested, rows⟩ := ratioTest_grid follows.sized.toShaped low tol
    have inside := rows row leaves
    obtain ⟨w', ran, last⟩ := ih (follows.goOn (.pivot inside low))
    refine ⟨w', ?_, last⟩
    unfold Grid.runPhase
    rw [follows.entering within, enters, ok_bind, follows.now]
    dsimp only
    rw [tested, leaves, ok_bind]
    dsimp only
    rw [pivot_grid follows.sized.toShaped inside low, ok_bind, ran]

theorem drive_follows {row : Nat} (follows : Follows p w t) (inside : row < p.rhs.length) (tol : α) (driven : Nat) :
    ∃ w', Grid.drive tol w row = .ok w' ∧ Follows p w' (drive tol (t, driven) row).1 := by
  have shaped := follows.sized.toShaped
  rw [← follows.sized.counted] at inside
  unfold Grid.drive drive
  rw [follows.now, outlet_grid shaped follows.sized.artificial_le inside, ok_bind]
  cases found : t.outlet row tol with
  | none => exact ⟨w, rfl, follows⟩
  | some col =>
    have low := outlet_lt follows.sized.artificial_le found
    dsimp only
    rw [pivot_grid shaped inside low, ok_bind]
    exact ⟨_, rfl, follows.goOn (.pivot inside low)⟩

theorem driveOut_follows (follows : Follows p w t) (tol : α) :
    ∃ w', Grid.driveOut tol w = .ok w' ∧ Follows p w' (t.driveOut tol).1 := by
  have count := follows.sized.counted
  unfold Grid.driveOut driveOut
  rw [follows.now, length_grid_rows]
  refine foldlM_follows (R := fun w (state : Tableau α × Nat) => Follows p w state.1) ?_ follows
  rintro row member w ⟨t, driven⟩ follows
  rw [List.mem_range, count] at member
  exact drive_follows follows member tol driven

theorem answer_follows {finish : PhaseEnd} {pivots : Nat} (follows : Follows p w t)
    (result : α → List α → Relaxation α) : (Grid.Stop.mk finish w pivots).answer p result =
      .ok ⟨⟨result (p.basicSolution t).1 (p.basicSolution t).2, pivots⟩, w.grids⟩ := by
  unfold Grid.Stop.answer
  dsimp only
  rw [follows.now, primal_grid follows.sized.toShaped, ok_bind]
  rfl

theorem structuralCost_read (p : Program α) (j : Nat) : Grid.structuralCost p j = .ok (p.structuralCost j) := by
  unfold Grid.structuralCost Program.structuralCost
  split
  · rename_i low
    rw [readAt_eq_ok (List.getElem?_eq_getElem low)]
    simp [low]
  · rfl

theorem phaseTwo_follows (follows : Follows p w t) (s : Settings α) (pivots driven : Nat) (log : List (Event α)) :
    ∃ w' last, Follows p w' last ∧ p.ReadsOff last (p.phaseTwo s t pivots driven log).solution.answer ∧
      Grid.phaseTwo p s w pivots = .ok ⟨(p.phaseTwo s t pivots driven log).solution, w'.grids⟩ := by
  obtain ⟨w', ran, last⟩ := runPhase_follows (follows.goOn (.price p.structuralCost))
    (follows.sized.artificial_le.trans_eq follows.sized.width) s.pivotTol (s.maxPivots - pivots) pivots
  unfold Grid.phaseTwo Program.phaseTwo
  rw [follows.now, price_grid follows.sized.toShaped (structuralCost_read p), ok_bind, grid_artificial, ran, ok_bind]
  generalize runPhase t.artificial s.pivotTol _ _ (t.price p.structuralCost) = phase at last ⊢
  obtain ⟨finish, tableau, made⟩ := phase
  refine ⟨w', tableau, last, ?_⟩
  cases finish with
  | optimal => exact ⟨rfl, answer_follows last _⟩
  | outOfPivots => exact ⟨rfl, answer_follows last _⟩
  | unbounded => exact ⟨trivial, rfl⟩

theorem phaseOne_follows (follows : Follows p w t) (s : Settings α) :
    ∃ w' last, Follows p w' last ∧ p.ReadsOff last (p.phaseOne s t).solution.answer ∧
      Grid.phaseOne p s w = .ok ⟨(p.phaseOne s t).solution, w'.grids⟩ := by
  obtain ⟨w', ran, last⟩ := runPhase_follows (follows.goOn (.price (Program.artificialCost t)))
    follows.sized.width.le s.pivotTol s.maxPivots 0
  have loads : ∀ j, Grid.artificialCost t.artificial j = .ok (Program.artificialCost t j) := fun _ => rfl
  unfold Grid.phaseOne Program.phaseOne
  rw [follows.now, grid_artificial, price_grid follows.sized.toShaped loads, ok_bind, grid_columns, ran, ok_bind]
  generalize runPhase t.columns s.pivotTol _ _ (t.price (Program.artificialCost t)) = phase at last ⊢
  obtain ⟨finish, tableau, made⟩ := phase
  cases finish with
  | outOfPivots => exact ⟨w', tableau, last, rfl, answer_follows last _⟩
  | unbounded => exact ⟨w', tableau, last, rfl, answer_follows last _⟩
  | optimal =>
    dsimp only at last ⊢
    rw [last.now, objective_grid last.sized.toShaped, ok_bind]
    split
    · exact ⟨w', tableau, last, trivial, rfl⟩
    · obtain ⟨w'', driven, next⟩ := driveOut_follows last s.pivotTol
      rw [driven, ok_bind]
      exact phaseTwo_follows next s _ _ _

theorem solve_follows (valid : p.fault? = none) (s : Settings α) :
    ∃ w last, Follows p w last ∧ p.ReadsOff last (p.run s).solution.answer ∧
      Grid.solve p s = .ok ⟨(p.run s).solution, w.grids⟩ := by
  obtain ⟨-, counted, wide⟩ := Program.fault?_none valid
  have start := Follows.start valid
  unfold Grid.solve Program.run
  rw [build_grid counted wide, ok_bind, grid_artificial, grid_columns]
  dsimp only [hasArtificials]
  simp only [decide_eq_true_eq]
  split
  · exact phaseOne_follows start s
  · exact phaseTwo_follows start s 0 0 []

end Follows

end Tableau

namespace Program

open Tableau

theorem length_of_readsOff {p : Program α} {t : Tableau α} {answer : Relaxation α} (reads : p.ReadsOff t answer)
    {objective : α} {x : List α} (point : answer = .optimal objective x ∨ answer = .iterationLimit objective x) :
    x.length = p.objective.length := by
  have basic : p.basicSolution t = (objective, x) := by
    rcases point with rfl | rfl
    · exact reads
    · exact reads
  obtain rfl : t.primal p.objective.length = x := congrArg Prod.snd basic
  exact (isPoint_primal t _).1

/-- Whatever the scalars and the settings, a solve of a program without faults finds every position in the flat layout
that it reads or writes, and comes to the same solution. It goes over tableaux of one size, the negative bounds take
the artificial columns one after another until none is left, and a point has a value for each variable. -/
theorem solve_in_range {p : Program α} (valid : p.fault? = none) (s : Settings α) :
    ∃ run trail, p.solve s = .ok run ∧ Grid.solve p s = .ok ⟨run.solution, trail.map grid⟩ ∧
      Trail p trail ∧ (∀ t ∈ trail, t.grid.Fits p) ∧
      (build p).grid.basis.filter ((build p).artificial ≤ ·) =
        List.range' (build p).artificial ((build p).columns - (build p).artificial) ∧
      ∀ objective x, run.solution.answer = .optimal objective x ∨ run.solution.answer = .iterationLimit objective x →
        x.length = p.objective.length := by
  obtain ⟨w, last, follows, reads, solved⟩ := solve_follows valid s
  obtain ⟨past, trail, kept⟩ := follows.past
  have grids : w.grids = (last :: past).map grid := by
    rw [Grid.Passage.grids, follows.now, kept, List.map_cons]
  refine ⟨p.run s, last :: past, ?_, grids ▸ solved, trail, ?_, ?_, ?_⟩
  · unfold solve
    rw [valid]
  · intro t member
    exact (trail.sized valid t member).fits
  · exact artificials_build (fault?_none valid).2.1
  · intro objective x point
    exact length_of_readsOff reads point

/-- With a tolerance below zero the first pivot is made on a zero, and the second in a row of entries that are no
numbers. The basis then has a column twice, and every position is still in range. -/
theorem solve_in_range_without_numbers : ∃ (p : Program Float) (s : Settings Float) (trail : List (Tableau Float)),
    p = ⟨[1, 1], [[0, 1], [-1, 0]], [0, -1]⟩ ∧ s = ⟨2, -1, 0⟩ ∧ p.fault? = none ∧
      Grid.solve p s = .ok ⟨⟨.iterationLimit 0 [0, 0], 2⟩, trail.map grid⟩ ∧ Trail p trail ∧
      trail.map (·.grid.basis) = [[0, 0], [0, 4], [2, 4], [2, 4]] ∧ (∀ t ∈ trail, t.grid.Fits p) ∧
      (build p).grid.basis.filter ((build p).artificial ≤ ·) = List.range' 4 1 ∧
      [(0 : Float), 0].length = p.objective.length := by
  obtain ⟨p, posed⟩ : ∃ p : Program Float, p = ⟨[1, 1], [[0, 1], [-1, 0]], [0, -1]⟩ := ⟨_, rfl⟩
  have valid : p.fault? = none := by rw [posed]; decide +kernel
  obtain ⟨run, trail, solved, checked, trailed, fits, filled, lengths⟩ := solve_in_range valid ⟨2, -1, 0⟩
  have answered : (p.solve ⟨2, -1, 0⟩).map Run.solution = .ok ⟨.iterationLimit 0 [0, 0], 2⟩ := by
    rw [posed]; decide +kernel
  have bases : (Grid.solve p ⟨2, -1, 0⟩).map (fun ended => ended.grids.map Grid.basis) =
      .ok [[0, 0], [0, 4], [2, 4], [2, 4]] := by
    rw [posed]; decide +kernel
  have solution : run.solution = ⟨.iterationLimit 0 [0, 0], 2⟩ := by
    rw [solved] at answered
    exact Except.ok.inj answered
  rw [checked] at bases
  rw [solution] at checked
  refine ⟨p, _, trail, posed, rfl, valid, checked, trailed, List.map_map.symm.trans (Except.ok.inj bases), fits, ?_, ?_⟩
  · rw [filled, posed]
    decide +kernel
  · exact lengths 0 [0, 0] (.inr (congrArg Solution.answer solution))

end Program

end BranchBound.Linear
