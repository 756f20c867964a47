import BranchBound.Proofs.LoopHeads
import BranchBound.Proofs.ScalarOrder

/-!
# Incumbents

The incumbent of a search only gets better and is always a number (`noWorse_look`). It is the first of
the best among all whole answers with a value below positive infinity (`incumbent_first_best`): an
answer that was pruned before it was looked at could not have replaced it, and a whole one that is
neither pruned nor better is no number.
-/

namespace BranchBound.Search

open Integer (BranchRow System)
open Recursion (Trail Explored look)

variable {σ α : Type} [Scalar α]

/-! ### The order of incumbents -/

namespace Incumbent

def Valued (i : Incumbent α) : Prop :=
  ∀ best, i.objective = some best → Scalar.belowTop best = true

/-- The objective of `i` is a number and at most that of `j`, where none counts as positive infinity. -/
structure NoWorse (i j : Incumbent α) : Prop where
  number : ∀ best, i.objective = some best → Scalar.isNumber best = true
  le : ∀ bound, j.objective = some bound → ∃ best, i.objective = some best ∧ Scalar.le best bound = true

variable [LawfulOrder α] {i j k : Incumbent α} {objective : α}

theorem Valued.number (valued : i.Valued) : ∀ best, i.objective = some best → Scalar.isNumber best = true := by
  intro best known
  exact (LawfulOrder.belowTop_iff.mp (valued best known)).1

theorem Valued.noWorse (valued : i.Valued) : i.NoWorse i where
  number := valued.number
  le bound known := ⟨bound, known, LawfulOrder.le_refl (valued.number bound known)⟩

theorem NoWorse.trans (first : i.NoWorse j) (second : j.NoWorse k) : i.NoWorse k where
  number := first.number
  le bound known := by
    obtain ⟨middle, reached, below⟩ := second.le bound known
    obtain ⟨best, found, least⟩ := first.le middle reached
    exact ⟨best, found, LawfulOrder.le_trans least below⟩

theorem belowTop_of_improvedBy (better : i.improvedBy objective = true) : Scalar.belowTop objective = true := by
  unfold improvedBy at better
  split at better
  · exact better
  · exact LawfulOrder.belowTop_of_lt better

theorem valued_update (valued : i.Valued) (x : List α) : (i.update objective x).Valued := by
  unfold update
  split
  · rename_i better
    rintro best ⟨⟩
    exact belowTop_of_improvedBy better
  · exact valued

theorem noWorse_update (valued : i.Valued) (x : List α) : (i.update objective x).NoWorse i := by
  refine ⟨(valued_update valued x).number, ?_⟩
  intro bound known
  unfold update
  split
  · rename_i better
    rw [improvedBy, known] at better
    exact ⟨objective, rfl, LawfulOrder.le_of_lt better⟩
  · exact valued.noWorse.le bound known

/-- A number that the incumbent does not dominate is better. -/
theorem improvedBy_of_number (valued : i.Valued) (number : Scalar.isNumber objective = true)
    (open_ : i.dominates objective = false) : i.improvedBy objective = true := by
  unfold dominates at open_
  unfold improvedBy
  cases known : i.objective with
  | none =>
    rw [known] at open_
    exact LawfulOrder.belowTop_iff.mpr ⟨number, open_⟩
  | some best =>
    rw [known] at open_
    exact LawfulOrder.lt_of_not_le number (valued.number best known) open_

end Incumbent

/-! ### Incumbents of a trail -/

section Trails
variable {p : Integer.Program α} {oracle : Oracle σ α} {settings : Integer.Settings α}
  {rows : List (BranchRow α)} {depth : Nat} {t t' : Trail σ α}

theorem incumbent_offer (t : Trail σ α) (objective : α) (x : List α) :
    (t.offer objective x).incumbent = t.incumbent.update objective x := by
  unfold Recursion.Trail.offer Incumbent.update
  split <;> rfl

theorem incumbent_look {verdict : Except (Error α) (Recursion.Verdict α)}
    (looked : look p oracle settings rows depth t = (verdict, t')) :
    t'.incumbent = t.incumbent ∨ ∃ objective x, t'.incumbent = t.incumbent.update objective x := by
  cases Recursion.looked_of_look looked with
  | integral _ _ _ _ _ => exact Or.inr ⟨_, _, incumbent_offer _ _ _⟩
  | _ => exact Or.inl rfl

variable [LawfulOrder α]

theorem noWorse_look {verdict : Except (Error α) (Recursion.Verdict α)}
    (looked : look p oracle settings rows depth t = (verdict, t')) (valued : t.incumbent.Valued) :
    t'.incumbent.Valued ∧ t'.incumbent.NoWorse t.incumbent := by
  rcases incumbent_look looked with same | ⟨objective, x, updated⟩
  · rw [same]
    exact ⟨valued, valued.noWorse⟩
  · rw [updated]
    exact ⟨Incumbent.valued_update valued x, Incumbent.noWorse_update valued x⟩

omit [LawfulOrder α] in
theorem valued_start (p : Integer.Program α) (state : σ) : (Recursion.start p state).incumbent.Valued :=
  nofun

theorem noWorse_of_explored {result : Except (Error α) Outcome}
    (explored : Explored p oracle settings rows depth t result t') (valued : t.incumbent.Valued) :
    t'.incumbent.Valued ∧ t'.incumbent.NoWorse t.incumbent := by
  refine explored.keeps (R := fun t t' => t.incumbent.Valued → t'.incumbent.Valued ∧ t'.incumbent.NoWorse t.incumbent)
    ?_ (fun _ _ _ _ _ looked => noWorse_look looked) valued
  intro t₁ t₂ t₃ first second valued
  obtain ⟨valued₂, early⟩ := first valued
  obtain ⟨valued₃, late⟩ := second valued₂
  exact ⟨valued₃, late.trans early⟩

end Trails

/-! ### The first best candidate -/

/-- The objective and the point of an answer that can become the incumbent: a whole one with a number
below positive infinity. -/
def candidate? (tol : α) (call : Oracle.Call α) : Option (α × List α) :=
  match call.answer with
  | some (.optimal objective x) =>
    if fractional? tol x = none ∧ Scalar.belowTop objective = true then some (objective, x) else none
  | _ => none

def candidates (tol : α) (calls : List (Oracle.Call α)) : List (α × List α) :=
  calls.filterMap (candidate? tol)

/-- `best` comes first among the candidates with the least objective. -/
def IsFirstBest (best : α × List α) (all : List (α × List α)) : Prop :=
  ∃ before after, all = before ++ best :: after ∧ (∀ other ∈ before, Scalar.lt best.1 other.1 = true) ∧
    ∀ other ∈ after, Scalar.le best.1 other.1 = true

/-- The incumbent that a search over `vars` variables has after some candidates. -/
inductive Leads (vars : Nat) : Incumbent α → List (α × List α) → Prop
  | empty : Leads vars (.empty vars) []
  | best {objective x all} (first : IsFirstBest (objective, x) all) : Leads vars ⟨some objective, x⟩ all

section FirstBest
variable [LawfulOrder α] {vars : Nat} {i : Incumbent α} {all : List (α × List α)} {objective : α}

theorem Leads.take (leads : Leads vars i all) (better : i.improvedBy objective = true) (x : List α) :
    Leads vars ⟨some objective, x⟩ (all ++ [(objective, x)]) := by
  refine .best ⟨all, [], rfl, ?_, by simp⟩
  cases leads with
  | empty => simp
  | best first =>
    obtain ⟨before, after, rfl, earlier, later⟩ := first
    have better : Scalar.lt objective _ = true := better
    intro other member
    rcases List.mem_append.mp member with old | rest
    · exact LawfulOrder.lt_of_lt_of_le better (LawfulOrder.le_of_lt (earlier other old))
    · rcases List.mem_cons.mp rest with rfl | new
      · exact better
      · exact LawfulOrder.lt_of_lt_of_le better (later other new)

theorem Leads.pass (leads : Leads vars i all) (dominated : i.dominates objective = true)
    (below : Scalar.belowTop objective = true) (x : List α) : Leads vars i (all ++ [(objective, x)]) := by
  cases leads with
  | empty =>
    have top : Scalar.isTop objective = true := dominated
    rw [(LawfulOrder.belowTop_iff.mp below).2] at top
    cases top
  | best first =>
    obtain ⟨before, after, rfl, earlier, later⟩ := first
    refine .best ⟨before, after ++ [(objective, x)], by simp, earlier, ?_⟩
    intro other member
    rcases List.mem_append.mp member with old | new
    · exact later other old
    · obtain rfl := List.mem_singleton.mp new
      exact dominated

end FirstBest

/-! ### Candidates of a trail -/

section Candidates
variable {p : Integer.Program α} {oracle : Oracle σ α} {settings : Integer.Settings α}
  {rows : List (BranchRow α)} {depth : Nat} {t t' : Trail (σ × List (Oracle.Call α)) α} {system : System α}
  {tol objective : α} {x : List α}

theorem candidate_of_whole (whole : fractional? tol x = none) (below : Scalar.belowTop objective = true) :
    candidate? tol ⟨system, some (.optimal objective x)⟩ = some (objective, x) :=
  if_pos ⟨whole, below⟩

theorem candidate_of_not (not : ¬(fractional? tol x = none ∧ Scalar.belowTop objective = true)) :
    candidate? tol ⟨system, some (.optimal objective x)⟩ = none :=
  if_neg not

/-- The candidates among the answers of a trail, in the order they came. -/
def offered (tol : α) (t : Trail (σ × List (Oracle.Call α)) α) : List (α × List α) :=
  candidates tol t.oracle.2.reverse

theorem offered_answered {answer : Relaxation α} (replied : (oracle.recorded t.oracle system).result = .ok answer)
    (tol : α) :
    offered tol (t.answered oracle.recorded system) =
      offered tol t ++ (candidate? tol ⟨system, some answer⟩).toList := by
  have replied : (oracle t.oracle.1 system).result = .ok answer := replied
  show candidates tol (⟨system, (oracle t.oracle.1 system).result.toOption⟩ :: t.oracle.2).reverse = _
  rw [replied, List.reverse_cons]
  unfold offered candidates
  rw [List.filterMap_append]
  cases found : candidate? tol ⟨system, some answer⟩ with
  | none => exact congrArg _ (List.filterMap_cons_none found)
  | some best => exact congrArg _ (List.filterMap_cons_some found)

variable [LawfulOrder α]

theorem leads_of_pruned (leads : Leads p.vars t.incumbent (offered tol t))
    (replied : (oracle.recorded t.oracle system).result = .ok (.optimal objective x))
    (dominated : t.incumbent.dominates objective = true) :
    Leads p.vars t.incumbent (offered tol (t.answered oracle.recorded system)) := by
  rw [offered_answered replied]
  by_cases counts : fractional? tol x = none ∧ Scalar.belowTop objective = true
  · rw [candidate_of_whole counts.1 counts.2]
    exact leads.pass dominated counts.2 x
  · rw [candidate_of_not counts, Option.toList_none, List.append_nil]
    exact leads

theorem leads_of_integral (leads : Leads p.vars t.incumbent (offered tol t)) (valued : t.incumbent.Valued)
    (replied : (oracle.recorded t.oracle system).result = .ok (.optimal objective x))
    (open_ : t.incumbent.dominates objective = false) (whole : fractional? tol x = none) :
    Leads p.vars (t.incumbent.update objective x) (offered tol (t.answered oracle.recorded system)) := by
  rw [offered_answered replied, Incumbent.update]
  by_cases below : Scalar.belowTop objective = true
  · have number := (LawfulOrder.belowTop_iff.mp below).1
    have better := Incumbent.improvedBy_of_number valued number open_
    rw [if_pos better, candidate_of_whole whole below]
    exact leads.take better x
  · have worse : ¬t.incumbent.improvedBy objective = true :=
      fun better => below (Incumbent.belowTop_of_improvedBy better)
    rw [if_neg worse, candidate_of_not (fun counts => below counts.2), Option.toList_none, List.append_nil]
    exact leads

theorem leads_look {verdict : Recursion.Verdict α}
    (looked : look p oracle.recorded settings rows depth t = (.ok verdict, t')) (valued : t.incumbent.Valued)
    (leads : Leads p.vars t.incumbent (offered settings.intTol t)) :
    Leads p.vars t'.incumbent (offered settings.intTol t') := by
  have other : ∀ {answer}, (oracle.recorded t.oracle ⟨p, rows⟩).result = .ok answer →
      candidate? settings.intTol ⟨⟨p, rows⟩, some answer⟩ = none →
      Leads p.vars t.incumbent (offered settings.intTol (t.answered oracle.recorded ⟨p, rows⟩)) := by
    intro answer replied none
    rw [offered_answered replied, none, Option.toList_none, List.append_nil]
    exact leads
  cases Recursion.looked_of_look looked with
  | spent _ => exact leads
  | limited _ replied => exact other replied rfl
  | infeasible _ replied => exact other replied rfl
  | unbounded _ replied => exact other replied rfl
  | pruned _ replied _ dominated => exact leads_of_pruned leads replied dominated
  | split _ replied _ _ fractional =>
    refine other replied (candidate_of_not fun counts => ?_)
    rw [fractional] at counts
    cases counts.1
  | integral _ replied _ open_ whole =>
    have led := leads_of_integral leads valued replied open_ whole
    rw [incumbent_offer]
    unfold offered
    rw [(Recursion.offer_keeps _ _ _).1]
    exact led

theorem leads_of_explored {outcome : Outcome}
    (explored : Explored p oracle.recorded settings rows depth t (.ok outcome) t') (valued : t.incumbent.Valued)
    (leads : Leads p.vars t.incumbent (offered settings.intTol t)) :
    Leads p.vars t'.incumbent (offered settings.intTol t') := by
  have kept := explored.ok_invariant
    (P := fun t => t.incumbent.Valued ∧ Leads p.vars t.incumbent (offered settings.intTol t))
    (fun _ _ _ _ _ looked held => ⟨(noWorse_look looked held.1).1, leads_look looked held.1 held.2⟩)
    ⟨valued, leads⟩
  exact kept.2

end Candidates

/-! ### Incumbents of the heads -/

section Heads
variable [LawfulOrder α] {c : Controller α} {p : Integer.Program α} {oracle : Oracle σ α} {state : σ}
  {head head' : Head σ α}

def Head.incumbent (head : Head σ α) : Incumbent α :=
  head.frame.controller.incumbent

theorem Next.noWorse {path : Path α} {t : Trail σ α} {leaves : List (System α)}
    (next : Next p oracle c path t leaves head) (valued : t.incumbent.Valued) :
    head.incumbent.Valued ∧ head.incumbent.NoWorse t.incumbent := by
  cases next with
  | split looked _ => exact noWorse_look looked valued
  | turned looked _ _ => exact noWorse_look looked valued
  | finished looked _ _ => exact noWorse_look looked valued

theorem valued_of_reached (reached : Reached c p oracle state head) : head.incumbent.Valued :=
  (reached.invariant (P := fun head => head.incumbent.Valued) (fun _ => valued_start p state)
    fun _ valued next => (next.noWorse valued).1).2

theorem noWorse_of_turn (reached : Reached c p oracle state head) (turn : Turn p oracle head head') :
    head'.incumbent.NoWorse head.incumbent := by
  have valued := valued_of_reached reached
  cases reached.atHead with
  | on standing => exact ((turn_cases standing turn).noWorse valued).2
  | finished _ =>
    cases turn with
    | leaf waits _ _ => cases waits
    | branch waits _ _ => cases waits

theorem noWorse_of_turns (reached : Reached c p oracle state head)
    (turns : Relation.ReflTransGen (Turn p oracle) head head') : head'.incumbent.NoWorse head.incumbent := by
  obtain ⟨frame, opened, passed⟩ := reached
  induction turns with
  | refl => exact (valued_of_reached ⟨frame, opened, passed⟩).noWorse
  | tail turns turn ih => exact (noWorse_of_turn ⟨frame, opened, passed.trans turns⟩ turn).trans ih

end Heads

/-- A solve returns the earliest of the best whole answers with a number below positive infinity, pruned ones
included, and the empty incumbent if there are none. On its way the objective of the incumbent
is a number and never rises. -/
theorem incumbent_first_best [LawfulOrder α] (c : Controller α) (p : Integer.Program α) (oracle : Oracle σ α)
    (state : σ) :
    (∀ solution, (c.solve p oracle state).result = .ok solution →
      Leads p.vars solution.incumbent (candidates c.settings.intTol (c.calls p oracle state))) ∧
    ∀ head, Reached c p oracle state head →
      (∀ best, head.incumbent.objective = some best → Scalar.isNumber best = true) ∧
      ∀ head', Relation.ReflTransGen (Turn p oracle) head head' → head'.incumbent.NoWorse head.incumbent := by
  constructor
  · intro solution solved
    obtain ⟨outcome, t, explored, rfl, calls⟩ := calls_of_solve solved
    rw [calls]
    exact leads_of_explored explored (valued_start p _) .empty
  · intro head reached
    exact ⟨(valued_of_reached reached).number, fun head' turns => noWorse_of_turns reached turns⟩

/-- Five answers over one variable: two splits, two whole points that tie, and a whole one without a number. -/
def tiedAnswers : List (Relaxation Float) × Unit :=
  ([.optimal (-3) [1.5], .optimal (-2.5) [2.5], .optimal (-2) [3], .optimal (-2) [2], .optimal (0 / 0) [1]], ())

/-- Of two whole answers that tie the second is pruned, and the first is returned. -/
theorem incumbent_first_best_tie :
    ∃ solution : Solution Float,
      ((Controller.ofSettings .default).solve ⟨[[2]], [7], [-1]⟩ (Oracle.scripted (Oracle.failing "lost"))
        tiedAnswers).result = .ok solution ∧
      solution.counters.pruned = 1 ∧ solution.counters.integral = 2 ∧
      Leads 1 solution.incumbent [(-2, [3]), (-2, [2])] ∧
      ∃ first last : Head (List (Relaxation Float) × Unit) Float,
        Reached (Controller.ofSettings .default) ⟨[[2]], [7], [-1]⟩ (Oracle.scripted (Oracle.failing "lost"))
          tiedAnswers first ∧
        Relation.ReflTransGen (Turn ⟨[[2]], [7], [-1]⟩ (Oracle.scripted (Oracle.failing "lost"))) first last ∧
        last.incumbent.objective = some (-2) ∧ last.incumbent.NoWorse first.incumbent := by
  have solved : ((Controller.ofSettings .default).solve ⟨[[2]], [7], [-1]⟩
      (Oracle.scripted (Oracle.failing "lost")) tiedAnswers).result =
      .ok ⟨.optimal, ⟨some (-2), [3]⟩, ⟨5, 1, 2, 2, 0, 0, 0, 1, 2, 5, false⟩⟩ := by decide +kernel
  have offers : candidates (Integer.Settings.default : Integer.Settings Float).intTol
      ((Controller.ofSettings .default).calls ⟨[[2]], [7], [-1]⟩ (Oracle.scripted (Oracle.failing "lost"))
        tiedAnswers) = [(-2, [3]), (-2, [2])] := by decide +kernel
  have objective : ((Controller.ofSettings .default).solve ⟨[[2]], [7], [-1]⟩
      (Oracle.scripted (Oracle.failing "lost")) tiedAnswers).controller.incumbent.objective = some (-2) := by
    decide +kernel
  obtain ⟨best, heads⟩ := incumbent_first_best (Controller.ofSettings .default)
    (⟨[[2]], [7], [-1]⟩ : Integer.Program Float) (Oracle.scripted (Oracle.failing "lost")) tiedAnswers
  obtain ⟨last, ⟨frame, opened, turns⟩, -, same⟩ := finished_of_solve solved
  refine ⟨_, solved, rfl, rfl, offers ▸ best _ solved, { frame }, last, ⟨frame, opened, .refl⟩, turns, ?_,
    (heads _ ⟨frame, opened, .refl⟩).2 last turns⟩
  rw [Head.incumbent, same]
  exact objective

end BranchBound.Search
