import BranchBound.Proofs.Consistency
import BranchBound.Proofs.Validity

/-!
# Overflow

Every branch row that an oracle sees splits an optimum it gave before (`sourced_of_explored`). With the simplex
oracle this leaves one way for a solve of a valid program to fail: a coordinate of an optimum overflowed, and
the search branched on it (`solve_returns_unless_overflow`).
-/

namespace BranchBound

open Integer (BranchRow System)

/-- The row is a side of the split at the first coordinate of an optimum that is not whole. -/
def Exchange.Splits {α : Type} [Scalar α] (x : Exchange α) (tol : α) (row : BranchRow α) : Prop :=
  ∃ objective point var value side, x.reply = .ok (.optimal objective point) ∧
    Search.fractional? tol point = some (var, value) ∧ row = .split side var value

namespace Search

open Recursion (Trail Explored look)

variable {σ α : Type} [Scalar α]

theorem mem_of_fractional? {tol value : α} {x : List α} {var : Nat} (first : fractional? tol x = some (var, value)) :
    value ∈ x := by
  unfold fractional? at first
  obtain ⟨⟨v, index⟩, found, same⟩ := Option.map_eq_some_iff.mp first
  obtain ⟨rfl, rfl⟩ := Prod.mk.inj same
  exact List.mem_of_getElem? (List.mem_zipIdx_iff_getElem?.mp (List.mem_of_find?_eq_some found))

/-! ### Where branch rows come from -/

section Sources
variable {p : Integer.Program α} {oracle : Oracle σ α} {settings : Integer.Settings α} {rows : List (BranchRow α)}
  {depth : Nat} {t t' : Trail (σ × List (Exchange α)) α}

/-- Each row splits an optimum noted in the trail. -/
def Sourced (tol : α) (t : Trail (σ × List (Exchange α)) α) (rows : List (BranchRow α)) : Prop :=
  ∀ row ∈ rows, ∃ x ∈ t.oracle.2, x.Splits tol row

theorem Sourced.mono {tol : α} (sourced : Sourced tol t rows) (kept : t.oracle.2 ⊆ t'.oracle.2) : Sourced tol t' rows := by
  intro row member
  obtain ⟨x, noted, splits⟩ := sourced row member
  exact ⟨x, kept noted, splits⟩

theorem notes_look {verdict : Except (Error α) (Recursion.Verdict α)}
    (looked : look p oracle.noted settings rows depth t = (verdict, t')) :
    t'.oracle.2 = t.oracle.2 ∨ t'.oracle.2 = ⟨⟨p, rows⟩, (oracle t.oracle.1 ⟨p, rows⟩).result⟩ :: t.oracle.2 := by
  cases Recursion.looked_of_look looked with
  | spent _ => exact Or.inl rfl
  | integral _ _ _ _ _ =>
    rw [(Recursion.offer_keeps ..).1]
    exact Or.inr rfl
  | _ => exact Or.inr rfl

theorem notes_look_subset {verdict : Except (Error α) (Recursion.Verdict α)}
    (looked : look p oracle.noted settings rows depth t = (verdict, t')) : t.oracle.2 ⊆ t'.oracle.2 := by
  rcases notes_look looked with same | more
  · rw [same]
    exact List.Subset.refl _
  · rw [more]
    exact List.subset_cons_self _ _

theorem notes_explored_subset {result : Except (Error α) Outcome}
    (explored : Explored p oracle.noted settings rows depth t result t') : t.oracle.2 ⊆ t'.oracle.2 :=
  explored.keeps (R := fun t t' => t.oracle.2 ⊆ t'.oracle.2) (fun _ _ _ first second => List.Subset.trans first second)
    fun _ _ _ _ _ looked => notes_look_subset looked

/-- The rows of a child: those of its parent, and one that splits the optimum of its parent. -/
theorem sourced_of_split {var : Nat} {value : α} (side : Integer.Side) (sourced : Sourced settings.intTol t rows)
    (looked : look p oracle.noted settings rows depth t = (.ok (.split var value), t')) :
    Sourced settings.intTol t' (rows ++ [.split side var value]) := by
  intro row member
  rcases List.mem_append.mp member with old | new
  · exact sourced.mono (notes_look_subset looked) row old
  · obtain rfl := List.mem_singleton.mp new
    cases Recursion.looked_of_look looked with
    | @split objective x _ _ _ replied _ _ fractional =>
      exact ⟨_, List.mem_cons_self, objective, x, var, value, side, replied, fractional, rfl⟩

theorem sourced_of_look {verdict : Except (Error α) (Recursion.Verdict α)} (sourced : Sourced settings.intTol t rows)
    (looked : look p oracle.noted settings rows depth t = (verdict, t'))
    (earlier : ∀ x ∈ t.oracle.2, Sourced settings.intTol t x.system.branches) :
    ∀ x ∈ t'.oracle.2, Sourced settings.intTol t' x.system.branches := by
  have kept := notes_look_subset looked
  intro x member
  rcases notes_look looked with same | more
  · rw [same] at member
    exact (earlier x member).mono kept
  · rw [more] at member
    rcases List.mem_cons.mp member with rfl | old
    · exact sourced.mono kept
    · exact (earlier x old).mono kept

/-- A search shows its oracle no row but those that split an optimum of the oracle. -/
theorem sourced_of_explored {result : Except (Error α) Outcome}
    (explored : Explored p oracle.noted settings rows depth t result t') (sourced : Sourced settings.intTol t rows)
    (earlier : ∀ x ∈ t.oracle.2, Sourced settings.intTol t x.system.branches) :
    ∀ x ∈ t'.oracle.2, Sourced settings.intTol t' x.system.branches := by
  induction explored with
  | failed looked => exact sourced_of_look sourced looked earlier
  | closed looked => exact sourced_of_look sourced looked earlier
  | ceilFailed looked _ ceil =>
    exact ceil (sourced_of_split .ceil sourced looked) (sourced_of_look sourced looked earlier)
  | floorFailed looked ceilSide _ ceil floor =>
    have first := ceil (sourced_of_split .ceil sourced looked) (sourced_of_look sourced looked earlier)
    exact floor ((sourced_of_split .floor sourced looked).mono (notes_explored_subset ceilSide)) first
  | combined looked ceilSide _ ceil floor =>
    have first := ceil (sourced_of_split .ceil sourced looked) (sourced_of_look sourced looked earlier)
    exact floor ((sourced_of_split .floor sourced looked).mono (notes_explored_subset ceilSide)) first

variable {c : Controller α} {state : σ}

theorem explored_of_mem_exchanges {x : Exchange α} (member : x ∈ c.exchanges p oracle state) :
    ∃ result t', Explored p oracle.noted c.settings [] 0 (Recursion.start p (state, [])) result t' ∧
      c.exchanges p oracle state = t'.oracle.2 := by
  by_cases checked : c.settings.isValid = true ∧ p.fault? = none
  · obtain ⟨_, ran⟩ := gives_search c p oracle.noted (state, [])
    refine ⟨_, _, Recursion.explored_explore p oracle.noted c.settings [] 0 (Recursion.start p (state, [])), ?_⟩
    rw [← Recursion.trail_solve]
    exact congrArg Prod.snd (solve_of_gives checked.1 checked.2 ran).2.2
  · rw [exchanges_of_invalid (by grind)] at member
    cases member

theorem splits_of_mem_exchanges {x : Exchange α} (member : x ∈ c.exchanges p oracle state) {row : BranchRow α}
    (present : row ∈ x.system.branches) : ∃ y ∈ c.exchanges p oracle state, y.Splits c.settings.intTol row := by
  obtain ⟨result, t', explored, notes⟩ := explored_of_mem_exchanges member
  rw [notes] at member ⊢
  exact sourced_of_explored explored (fun row none => nomatch none) (fun x none => nomatch none) x member row present

end Sources

/-! ### Solves with the simplex oracle -/

section Simplex
variable [LawfulFinite α] {c : Controller α} {p : Integer.Program α} {linear : Linear.Settings α} {tally : Oracle.Tally}

theorem isFinite_of_split {side : Integer.Side} {var : Nat} {value : α}
    (infinite : Scalar.isFinite (BranchRow.split side var value).bound = false) : Scalar.isFinite value = false := by
  cases finite : Scalar.isFinite value with
  | false => rfl
  | true =>
    cases side with
    | ceil => exact (LawfulFinite.ceil finite).symm.trans infinite
    | floor => exact (LawfulFinite.floor finite).symm.trans infinite

theorem reply_of_simplex (sound : p.fault? = none) {x : Exchange α} (proper : x.Proper p (Oracle.simplex linear)) :
    x.reply = if x.system.branches.all fun r => Scalar.isFinite r.bound
      then .ok (x.system.linear.run linear).solution.answer
      else .error (.invalidRelaxation .boundsNotFinite) := by
  obtain ⟨rfl, inside, tally, replied⟩ := proper
  rw [replied, Oracle.simplex_reply tally (Integer.Program.valid_of_fault? sound) inside]

theorem isPoint_of_simplex (sound : p.fault? = none) {x : Exchange α} (proper : x.Proper p (Oracle.simplex linear))
    {objective : α} {point : List α} (optimal : x.reply = .ok (.optimal objective point)) :
    Linear.IsPoint p.vars point := by
  rw [reply_of_simplex sound proper] at optimal
  split at optimal
  · have answered := Linear.Program.isPoint_of_run (Except.ok.inj optimal)
    have same : x.system.linear.objective.length = p.vars := by rw [← proper.program]; rfl
    rwa [same] at answered
  · cases optimal

/-- The simplex oracle is refused over a branch row without a finite bound alone. -/
theorem unbounded_row_of_refused (sound : p.fault? = none) {x : Exchange α}
    (proper : x.Proper p (Oracle.simplex linear)) {e : Error α} (refused : Refused p.vars x.reply e) :
    e = .invalidRelaxation .boundsNotFinite ∧ ∃ row ∈ x.system.branches, Scalar.isFinite row.bound = false := by
  have reply := reply_of_simplex sound proper
  have point := @isPoint_of_simplex _ _ _ _ _ sound x proper
  generalize x.reply = answer at refused reply point
  cases refused with
  | wrongLength wrong => exact absurd (point rfl).1 wrong
  | error e =>
    split at reply
    · cases reply
    · rename_i some
      cases reply
      refine ⟨rfl, ?_⟩
      simpa using some

theorem overflow_of_error (sound : p.fault? = none) (valid : c.settings.isValid = true) {e : Error α}
    (failed : (c.solve p (Oracle.simplex linear) tally).result = .error e) :
    e = .invalidRelaxation .boundsNotFinite ∧
      ∃ x ∈ c.exchanges p (Oracle.simplex linear) tally, ∃ objective point var value,
        x.reply = .ok (.optimal objective point) ∧ fractional? c.settings.intTol point = some (var, value) ∧
          Scalar.isTop value = true := by
  rcases (solve_error_iff e).mp failed with ⟨invalid, -⟩ | ⟨-, fault, broken, -⟩ | ⟨x, member, refused⟩
  · rw [valid] at invalid
    cases invalid
  · rw [sound] at broken
    cases broken
  · obtain ⟨rfl, row, present, infinite⟩ := unbounded_row_of_refused sound (proper_of_mem_exchanges member) refused
    obtain ⟨y, noted, objective, point, var, value, side, optimal, first, rfl⟩ := splits_of_mem_exchanges member present
    refine ⟨rfl, y, noted, objective, point, var, value, optimal, first, ?_⟩
    have infinite := isFinite_of_split infinite
    -- coordinates of an optimum are raised to zero, so this one is positive infinity
    rcases (isPoint_of_simplex sound (proper_of_mem_exchanges noted) optimal).2 value (mem_of_fractional? first) with
      rfl | ⟨r, rfl⟩
    · rw [LawfulFinite.zero] at infinite
      cases infinite
    · exact LawfulFinite.top_of_raised infinite

end Simplex

/-- A solve of a valid program returns, whatever its tolerances, unless the simplex method gave an optimum with an
infinite coordinate and the search branched on it. -/
theorem solve_returns_unless_overflow (p : Integer.Program Float) (settings : Integer.Settings Float)
    (sound : p.fault? = none) (valid : settings.isValid = true) :
    (∃ solution, (solve p settings).result = .ok solution) ∨
      (solve p settings).result = .error (.invalidRelaxation .boundsNotFinite) ∧
      ∃ x ∈ (Controller.ofSettings settings).exchanges p (Oracle.simplex settings.linear) {},
        ∃ objective point var value, x.reply = .ok (.optimal objective point) ∧
          fractional? settings.intTol point = some (var, value) ∧ Scalar.isTop value = true := by
  rw [result_solve]
  cases ended : ((Controller.ofSettings settings).solve p (Oracle.simplex settings.linear) {}).result with
  | ok solution => exact Or.inl ⟨solution, rfl⟩
  | error e =>
    obtain ⟨rfl, overflow⟩ := overflow_of_error (c := Controller.ofSettings settings) sound valid ended
    exact Or.inr ⟨rfl, overflow⟩

/-- The largest `x` with `2 x ≤ 3`, over double-precision scalars. -/
theorem solve_returns_unless_overflow_half :
    ∃ solution : Solution Float, (solve ⟨[[2]], [3], [-1]⟩ Integer.Settings.default).result = .ok solution ∧
      solution.incumbent.point = [1] := by
  have solved : (solve (⟨[[2]], [3], [-1]⟩ : Integer.Program Float) Integer.Settings.default).result =
      .ok ⟨.optimal, ⟨some (-1), [1]⟩, ⟨3, 0, 1, 1, 1, 0, 0, 1, 1, 3, false⟩⟩ := by decide +kernel
  rcases solve_returns_unless_overflow (⟨[[2]], [3], [-1]⟩ : Integer.Program Float) Integer.Settings.default
    (by decide +kernel) (by decide +kernel) with ⟨solution, ended⟩ | ⟨failed, -⟩
  · refine ⟨solution, ended, ?_⟩
    cases solved.symm.trans ended
    rfl
  · cases solved.symm.trans failed

/-- Minimise `-x₀ - x₁` with `x₀ ≤ 4` and `-10³⁰⁸ x₀ + 10³⁰⁸ x₁ ≤ 10³⁰⁸`, which has its optimum at `(4, 5)`: the
first pivot overflows the second row. -/
theorem solve_fails_on_overflow :
    (⟨[[1, 0], [-1e308, 1e308]], [4, 1e308], [-1, -1]⟩ : Integer.Program Float).fault? = none ∧
      (Integer.Settings.default : Integer.Settings Float).isValid = true ∧
      ¬∃ solution, (solve (⟨[[1, 0], [-1e308, 1e308]], [4, 1e308], [-1, -1]⟩ : Integer.Program Float)
        Integer.Settings.default).result = .ok solution := by
  have failed : (solve (⟨[[1, 0], [-1e308, 1e308]], [4, 1e308], [-1, -1]⟩ : Integer.Program Float)
      Integer.Settings.default).result = .error (.invalidRelaxation .boundsNotFinite) := by decide +kernel
  refine ⟨by decide +kernel, by decide +kernel, ?_⟩
  rintro ⟨solution, solved⟩
  cases failed.symm.trans solved

end Search

end BranchBound
