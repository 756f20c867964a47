import BranchBound.Proofs.FiniteScalars
import BranchBound.Proofs.Incumbents
import BranchBound.Report

/-!
# Found points

A search has a point as soon as its incumbent was improved (`tallied_of_explored`), but whether it reports one rests
on the objective value alone. The two agree as long as every whole answer has a finite value. An objective that
overflows to negative infinity is never beaten again, and its point is then reported as missing
(`found_unless_bottomless`).
-/

namespace BranchBound

/-! ### Finite doubles -/

namespace Double

/-- The finite numbers are those between the infinities. -/
theorem isFinite_iff {v : Float} :
    Scalar.isFinite v = true ↔
      ∃ x, place v = some x ∧ toLex (-2, toLex (0, 0)) < x ∧ x < toLex (2, toLex (0, 0)) := by
  have between : ∀ {side : ℤ}, -2 < side → side < 2 → ∀ rest : ℤ ×ₗ ℤ,
      toLex (-2, toLex (0, 0)) < toLex (side, rest) ∧ toLex (side, rest) < toLex (2, toLex (0, 0)) :=
    fun above below _ => ⟨Prod.Lex.toLex_lt_toLex.mpr (Or.inl above), Prod.Lex.toLex_lt_toLex.mpr (Or.inl below)⟩
  show v.toModel.unpack.isFinite = true ↔ ∃ x, rank v.toModel.unpack = some x ∧ _
  cases v.toModel.unpack with
  | notANumber => exact ⟨nofun, fun ⟨_, ranked, _⟩ => nomatch ranked⟩
  | zero s => exact ⟨fun _ => ⟨_, rfl, between (by decide) (by decide) _⟩, fun _ => rfl⟩
  | infinity s =>
    refine ⟨nofun, ?_⟩
    rintro ⟨x, ranked, above, below⟩
    cases s <;> cases ranked
    · exact absurd above (lt_irrefl _)
    · exact absurd below (lt_irrefl _)
  | finite s m e _ => cases s <;> exact ⟨fun _ => ⟨_, rfl, between (by decide) (by decide) _⟩, fun _ => rfl⟩

theorem isFinite_of_le {a b : Float} (le : Scalar.le a b = true) (finite : Scalar.isFinite a = true)
    (below : Scalar.belowTop b = true) : Scalar.isFinite b = true := by
  have below : Scalar.lt b top = true := below
  obtain ⟨x, y, left, right, ordered⟩ := le_iff.mp le
  obtain ⟨x', left', aboveBottom, -⟩ := isFinite_iff.mp finite
  obtain ⟨y', z, right', topmost, belowTop⟩ := lt_iff.mp below
  obtain rfl := Option.some.inj (left.symm.trans left')
  obtain rfl := Option.some.inj (right.symm.trans right')
  obtain rfl := Option.some.inj (place_top.symm.trans topmost)
  exact isFinite_iff.mpr ⟨y, right, aboveBottom.trans_le ordered, belowTop⟩

end Double

/-! ### Reports without an objective -/

namespace Report
variable {r : Report}

theorem objective_eq_none (solution : Search.Solution Float) (elapsedMs : Nat) :
    (ofSolution solution elapsedMs).objective = none ↔ solution.hasPoint = false := by
  unfold ofSolution Search.Solution.hasPoint
  cases solution.incumbent.objective with
  | none => simp
  | some best => simp

/-- The objective is printed as `inf`, and is null in JSON. -/
structure PrintsNone (r : Report) : Prop where
  text : ∃ rest, r.text = "Status:    " ++ r.outcome.name ++ " (" ++ toString r.outcome.code ++ ")\n" ++
    "Objective: inf\n" ++ rest
  json : r.json = object 0
    [("status", "\"" ++ r.outcome.name ++ "\""), ("status_code", toString r.outcome.code), ("objective", "null"),
      ("solution", block "[" "]" 2 (r.point.map number)), ("stats", countersJson r.counters r.elapsedMs)]

theorem printsNone_of_none (missing : r.objective = none) : r.PrintsNone where
  text := by
    have line : "Objective: " ++ Decimal.infinityText false ++ "\n" = "Objective: inf\n" := by decide
    unfold Report.text
    rw [missing, ← line]
    dsimp only
    -- the first two lines stand together, the others come after them
    rw [String.append_assoc, String.append_assoc, String.append_assoc]
    exact ⟨_, rfl⟩
  json := by
    unfold Report.json
    rw [missing]
    rfl

end Report

namespace Search

open Recursion (Trail Explored look)

/-! ### Improvements of the incumbent -/

section Improvements
variable {σ α : Type} [Scalar α] {p : Integer.Program α} {oracle : Oracle σ α} {settings : Integer.Settings α}
  {rows : List (Integer.BranchRow α)} {depth : Nat} {t t' : Trail σ α}

/-- The incumbent has a point if it was improved, and not otherwise. -/
def Tallied (t : Trail σ α) : Prop :=
  t.incumbent.objective = none ↔ t.counters.updates = 0

theorem tallied_offer (tallied : Tallied t) (objective : α) (x : List α) : Tallied (t.offer objective x) := by
  unfold Recursion.Trail.offer
  split
  · exact ⟨nofun, nofun⟩
  · exact tallied

theorem tallied_look {verdict : Except (Error α) (Recursion.Verdict α)}
    (looked : look p oracle settings rows depth t = (verdict, t')) (tallied : Tallied t) : Tallied t' := by
  cases Recursion.looked_of_look looked with
  | integral _ _ _ _ _ =>
    have asked : Tallied (t.answered oracle ⟨p, rows⟩) := tallied
    exact tallied_offer asked _ _
  | _ => exact tallied

theorem tallied_of_explored {outcome : Outcome} (explored : Explored p oracle settings rows depth t (.ok outcome) t')
    (tallied : Tallied t) : Tallied t' :=
  explored.ok_invariant (fun _ _ _ _ _ looked => tallied_look looked) tallied

end Improvements

/-! ### Values of the candidates -/

section Values
variable {α : Type} [Scalar α]

theorem IsFirstBest.mem {best : α × List α} {all : List (α × List α)} (first : IsFirstBest best all) : best ∈ all := by
  obtain ⟨before, after, rfl, -⟩ := first
  exact List.mem_append_right before List.mem_cons_self

theorem Leads.objective_eq_none {vars : Nat} {i : Incumbent α} {all : List (α × List α)} (leads : Leads vars i all) :
    i.objective = none ↔ all = [] := by
  cases leads with
  | empty => exact ⟨fun _ => rfl, fun _ => rfl⟩
  | best first => exact ⟨nofun, fun none => absurd first.mem (none ▸ List.not_mem_nil)⟩

theorem belowTop_of_candidate {tol : α} {call : Oracle.Call α} {best : α × List α}
    (offers : candidate? tol call = some best) : Scalar.belowTop best.1 = true := by
  unfold candidate? at offers
  split at offers
  · split at offers
    · rename_i counts
      cases offers
      exact counts.2
    · cases offers
  · cases offers

theorem belowTop_of_mem_candidates {tol : α} {calls : List (Oracle.Call α)} {best : α × List α}
    (member : best ∈ candidates tol calls) : Scalar.belowTop best.1 = true := by
  obtain ⟨call, -, offers⟩ := List.mem_filterMap.mp member
  exact belowTop_of_candidate offers

variable {all : List (Float × List Float)}

/-- The first of the best has a finite value exactly if all have: none is below it, and none reaches positive
infinity. -/
theorem IsFirstBest.isFinite_iff {best : Float × List Float} (first : IsFirstBest best all)
    (below : ∀ other ∈ all, Scalar.belowTop other.1 = true) :
    Scalar.isFinite best.1 = true ↔ ∀ other ∈ all, Scalar.isFinite other.1 = true := by
  constructor
  · obtain ⟨before, after, rfl, earlier, later⟩ := first
    intro finite other member
    rcases List.mem_append.mp member with old | rest
    · exact Double.isFinite_of_le (LawfulOrder.le_of_lt (earlier other old)) finite (below other member)
    · rcases List.mem_cons.mp rest with rfl | new
      · exact finite
      · exact Double.isFinite_of_le (later other new) finite (below other member)
  · intro finite
    exact finite best first.mem

theorem Leads.any_isFinite {vars : Nat} {i : Incumbent Float} (leads : Leads vars i all)
    (below : ∀ other ∈ all, Scalar.belowTop other.1 = true) :
    i.objective.any Scalar.isFinite = true ↔ all ≠ [] ∧ ∀ other ∈ all, Scalar.isFinite other.1 = true := by
  cases leads with
  | empty => simp [Incumbent.empty]
  | best first =>
    rw [Option.any_some, first.isFinite_iff below]
    exact ⟨fun finite => ⟨List.ne_nil_of_mem first.mem, finite⟩, fun found => found.2⟩

end Values

/-- A solve improved its incumbent exactly if some answer was whole with a value below positive infinity. It reports
a point, and an objective, exactly if moreover none of these values is negative infinity. -/
theorem found_unless_bottomless {σ : Type} (c : Controller Float) (p : Integer.Program Float) (oracle : Oracle σ Float)
    (state : σ) (solution : Solution Float) (solved : (c.solve p oracle state).result = .ok solution) :
    let found := candidates c.settings.intTol (c.calls p oracle state)
    (0 < solution.counters.updates ↔ found ≠ []) ∧
      (solution.hasPoint = true ↔
        0 < solution.counters.updates ∧ ∀ best ∈ found, Scalar.isFinite best.1 = true) ∧
      ∀ elapsedMs, let r := Report.ofSolution solution elapsedMs
        (r.objective = none ↔ found = [] ∨ ∃ best ∈ found, Scalar.isFinite best.1 = false) ∧
        (r.objective = none → r.PrintsNone) := by
  intro found
  obtain ⟨outcome, t, explored, rfl, calls⟩ := calls_of_solve solved
  have leads : Leads p.vars t.incumbent found := by
    show Leads p.vars t.incumbent (candidates c.settings.intTol (c.calls p oracle state))
    rw [calls]
    exact leads_of_explored explored (valued_start p _) .empty
  have tallied : t.incumbent.objective = none ↔ t.counters.updates = 0 :=
    tallied_of_explored explored ⟨fun _ => rfl, fun _ => rfl⟩
  have updated : 0 < t.counters.updates ↔ found ≠ [] := by
    rw [Nat.pos_iff_ne_zero, ne_eq, ← tallied, leads.objective_eq_none]
  have finite := leads.any_isFinite fun _ member => belowTop_of_mem_candidates member
  refine ⟨updated, ?_, ?_⟩
  · rw [updated]
    exact finite
  · intro elapsedMs
    refine ⟨?_, Report.printsNone_of_none⟩
    rw [Report.objective_eq_none, Bool.eq_false_iff, ne_eq, Solution.hasPoint, finite]
    simp only [ne_eq, not_and_or, not_not, not_forall, Bool.not_eq_true, exists_prop]

/-- The largest `x` with `2 x ≤ 3` is found and reported. -/
theorem found_unless_bottomless_half :
    ∃ solution : Solution Float,
      ((Controller.ofSettings .default).solve ⟨[[2]], [3], [-1]⟩ (Oracle.simplex Linear.Settings.default)
        {}).result = .ok solution ∧
      solution.counters.updates = 1 ∧ solution.hasPoint = true ∧
      ∀ elapsedMs, (Report.ofSolution solution elapsedMs).objective ≠ none := by
  have solved : ((Controller.ofSettings .default).solve (⟨[[2]], [3], [-1]⟩ : Integer.Program Float)
      (Oracle.simplex Linear.Settings.default) {}).result =
      .ok ⟨.optimal, ⟨some (-1), [1]⟩, ⟨3, 0, 1, 1, 1, 0, 0, 1, 1, 3, false⟩⟩ := by decide +kernel
  have offers : candidates (Integer.Settings.default : Integer.Settings Float).intTol
      ((Controller.ofSettings .default).calls ⟨[[2]], [3], [-1]⟩ (Oracle.simplex Linear.Settings.default) {}) =
      [(-1, [1])] := by decide +kernel
  have finite : ∀ best ∈ [((-1 : Float), [(1 : Float)])], Scalar.isFinite best.1 = true := by decide +kernel
  obtain ⟨-, found, reports⟩ := found_unless_bottomless _ _ _ _ _ solved
  refine ⟨_, solved, rfl, found.mpr ⟨Nat.one_pos, offers ▸ finite⟩, fun elapsedMs missing => ?_⟩
  rcases (reports elapsedMs).1.mp missing with empty | ⟨best, member, infinite⟩
  · cases offers.symm.trans empty
  · have member := offers ▸ member
    rw [finite best member] at infinite
    cases infinite

/-- Minimise `-10³⁰⁸ x` with `x ≤ 2`: the point `2` is found and returned, its value overflows, and the solve reports
that there is none. -/
theorem found_point_unreported :
    (⟨[[1]], [2], [-1e308]⟩ : Integer.Program Float).fault? = none ∧
      ∃ solution, (solve (⟨[[1]], [2], [-1e308]⟩ : Integer.Program Float) Integer.Settings.default).result =
        .ok solution ∧
      solution.outcome = .optimal ∧ solution.incumbent.point = [2] ∧ 0 < solution.counters.updates ∧
      solution.hasPoint = false ∧ ∀ elapsedMs, (Report.ofSolution solution elapsedMs).objective = none := by
  have solved : (solve (⟨[[1]], [2], [-1e308]⟩ : Integer.Program Float) Integer.Settings.default).result =
      .ok ⟨.optimal, ⟨some (-1 / 0), [2]⟩, ⟨1, 0, 0, 1, 0, 0, 0, 1, 0, 1, false⟩⟩ := by decide +kernel
  have unreported : Scalar.isFinite (-1 / 0 : Float) = false := by decide +kernel
  refine ⟨by decide +kernel, _, solved, rfl, rfl, Nat.one_pos, unreported, fun elapsedMs => ?_⟩
  exact (Report.objective_eq_none _ _).mpr unreported

end Search

end BranchBound
