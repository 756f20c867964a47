import BranchBound.Proofs.Rational
import BranchBound.Linear.Tableau

/-!
# The ratio test

The ratio test keeps one row of those with an entry above the tolerance, its candidates: it compares each with the best
one so far, and a ratio within the tolerance of it wins by the lower basic column (`ratioTest_eq_foldl`). Where near ties
compose, as they do with tolerance zero, no candidate beats the one that is kept (`foldl_keep_unbeaten`).
-/

namespace BranchBound.Linear

/-- How far the column `col` can grow before the basic column of the row becomes negative. -/
def Row.ratio (r : Row ℚ) (col : Nat) : ℚ :=
  max (r.line.rhs / r.line.entry col) 0

theorem Row.ratio_of_nonneg {r : Row ℚ} {col : Nat} (nonneg : 0 ≤ r.line.rhs) (positive : 0 < r.line.entry col) :
    r.ratio col = r.line.rhs / r.line.entry col :=
  max_eq_left (div_nonneg nonneg positive.le)

namespace Tableau

/-! ### One comparison -/

section Keep
variable {tol : ℚ} {a b c : Candidate ℚ}

def Candidate.Beats (tol : ℚ) (a b : Candidate ℚ) : Prop :=
  a.ratio < b.ratio - tol ∨ |a.ratio - b.ratio| ≤ tol ∧ a.basic < b.basic

def keep (tol : ℚ) (best c : Candidate ℚ) : Candidate ℚ :=
  if c.improves best tol then c else best

theorem improves_iff : c.improves b tol = true ↔ c.Beats tol b := by
  unfold Candidate.improves Candidate.Beats
  simp only [Rational.scalar_lt, Rational.scalar_le, Rational.scalar_abs, Bool.or_eq_true, Bool.and_eq_true,
    decide_eq_true_eq]

theorem keep_cases (tol : ℚ) (b c : Candidate ℚ) :
    keep tol b c = c ∧ c.Beats tol b ∨ keep tol b c = b ∧ ¬c.Beats tol b := by
  rw [← improves_iff]
  unfold keep
  cases c.improves b tol with
  | true => simp
  | false => simp

theorem Candidate.Beats.asymm (tolerant : 0 ≤ tol) (beats : a.Beats tol b) : ¬b.Beats tol a := by
  rcases beats with less | ⟨near, lower⟩
  · rintro (more | ⟨close, -⟩)
    · linarith
    · linarith [(abs_le.mp close).2]
  · rintro (more | ⟨-, higher⟩)
    · linarith [(abs_le.mp near).2]
    · omega

/-- With tolerance zero the candidates are in the order of their ratios, then of their basic columns. -/
theorem Candidate.not_beats_zero :
    ¬c.Beats 0 b ↔ b.ratio < c.ratio ∨ b.ratio = c.ratio ∧ b.basic ≤ c.basic := by
  unfold Candidate.Beats
  rw [sub_zero, abs_nonpos_iff, sub_eq_zero]
  grind

/-- Near ties among the ratios are transitive. -/
def TiesCompose (tol : ℚ) (ratios : List ℚ) : Prop :=
  ∀ a ∈ ratios, ∀ b ∈ ratios, ∀ c ∈ ratios, |a - b| ≤ tol → |b - c| ≤ tol → |a - c| ≤ tol

theorem tiesCompose_zero (ratios : List ℚ) : TiesCompose 0 ratios := by
  intro a _ b _ c _ first second
  rw [abs_nonpos_iff] at first second ⊢
  linarith

/-- Where near ties compose, no candidate stands between one that wins and the one that loses to it. -/
theorem Candidate.Beats.or (tolerant : 0 ≤ tol) {ratios : List ℚ} (compose : TiesCompose tol ratios)
    (ha : a.ratio ∈ ratios) (hb : b.ratio ∈ ratios) (hc : c.ratio ∈ ratios) (beats : a.Beats tol c) :
    a.Beats tol b ∨ b.Beats tol c := by
  have through : |a.ratio - b.ratio| ≤ tol → |b.ratio - c.ratio| ≤ tol → |a.ratio - c.ratio| ≤ tol :=
    compose _ ha _ hb _ hc
  have beside : |a.ratio - b.ratio| ≤ tol → |a.ratio - c.ratio| ≤ tol → |b.ratio - c.ratio| ≤ tol := by
    rw [abs_sub_comm a.ratio b.ratio]
    exact compose _ hb _ ha _ hc
  have below : b.ratio < c.ratio → ¬|b.ratio - c.ratio| ≤ tol → b.Beats tol c := by
    intro less apart
    rw [not_le, abs_sub_comm, abs_of_pos (by linarith)] at apart
    exact Or.inl (by linarith)
  rcases le_or_gt |a.ratio - b.ratio| tol with near | far
  · obtain ⟨lowest, highest⟩ := abs_le.mp near
    rcases beats with less | ⟨tie, lower⟩
    · -- `b` ties with `a` and so not with `c`
      refine Or.inr (below (by linarith) fun close => ?_)
      linarith [(abs_le.mp (through near close)).1]
    · rcases lt_or_ge a.basic b.basic with first | last
      · exact Or.inl (Or.inr ⟨near, first⟩)
      · exact Or.inr (Or.inr ⟨beside near tie, by omega⟩)
  · rcases lt_abs.mp far with above | under
    · rcases beats with less | ⟨tie, -⟩
      · exact Or.inr (Or.inl (by linarith))
      · -- `c` ties with `a` and so not with `b`
        refine Or.inr (below (by linarith [(abs_le.mp tie).2]) fun close => ?_)
        rw [abs_sub_comm] at close
        linarith [(abs_le.mp (compose _ ha _ hc _ hb tie close)).2]
    · exact Or.inl (Or.inl (by linarith))

end Keep

/-! ### A scan of the candidates -/

section Scan
variable {tol : ℚ} {b : Candidate ℚ} {rest : List (Candidate ℚ)}

theorem foldl_keep_mem (tol : ℚ) (b : Candidate ℚ) (rest : List (Candidate ℚ)) :
    rest.foldl (keep tol) b ∈ b :: rest := by
  induction rest generalizing b with
  | nil => simp
  | cons c rest ih =>
    rw [List.foldl_cons]
    rcases List.mem_cons.mp (ih (keep tol b c)) with same | later
    · rw [same]
      rcases keep_cases tol b c with ⟨kept, -⟩ | ⟨kept, -⟩ <;> simp [kept]
    · simp [later]

theorem foldl_keep_unbeaten (tolerant : 0 ≤ tol) {ratios : List ℚ} (compose : TiesCompose tol ratios)
    (within : ∀ c ∈ b :: rest, c.ratio ∈ ratios) : ∀ c ∈ b :: rest, ¬c.Beats tol (rest.foldl (keep tol) b) := by
  induction rest generalizing b with
  | nil =>
    intro c member beats
    obtain rfl : c = b := by simpa using member
    exact beats.asymm tolerant beats
  | cons d rest ih =>
    simp only [List.forall_mem_cons] at within ih ⊢
    obtain ⟨hb, hd, hrest⟩ := within
    have kept : (keep tol b d).ratio ∈ ratios := by
      rcases keep_cases tol b d with ⟨kept, -⟩ | ⟨kept, -⟩ <;> rwa [kept]
    obtain ⟨first, others⟩ := ih ⟨kept, hrest⟩
    have last : (rest.foldl (keep tol) (keep tol b d)).ratio ∈ ratios := by
      rcases List.mem_cons.mp (foldl_keep_mem tol (keep tol b d) rest) with same | later
      · rw [same]
        exact kept
      · exact hrest _ later
    rw [List.foldl_cons]
    generalize rest.foldl (keep tol) (keep tol b d) = r at first others last ⊢
    -- the loser of `b` and `d` does not beat what their winner does not beat
    rcases keep_cases tol b d with ⟨won, better⟩ | ⟨won, unbeaten⟩
    · rw [won] at first
      refine ⟨fun beats => ?_, first, others⟩
      rcases better.or tolerant compose hd last hb with again | again
      · exact first again
      · exact beats.asymm tolerant again
    · rw [won] at first
      refine ⟨first, fun beats => ?_, others⟩
      rcases beats.or tolerant compose hd hb last with again | again
      · exact unbeaten again
      · exact first again

end Scan

/-! ### The leaving row -/

def candidate (col : Nat) (place : Row ℚ × Nat) : Candidate ℚ :=
  ⟨place.2, place.1.basic, place.1.ratio col⟩

def candidates (t : Tableau ℚ) (col : Nat) (tol : ℚ) : List (Candidate ℚ) :=
  (t.rows.zipIdx.filter fun place => tol < place.1.line.entry col).map (candidate col)

/-- The best candidate after the next one; the first is taken as it is. -/
def challenge (tol : ℚ) : Option (Candidate ℚ) → Candidate ℚ → Option (Candidate ℚ)
  | none, c => some c
  | some best, c => some (keep tol best c)

section Leaving
variable {t : Tableau ℚ} {col row : Nat} {tol : ℚ}

theorem mem_candidates {c : Candidate ℚ} : c ∈ t.candidates col tol ↔
    ∃ r, t.rows[c.row]? = some r ∧ tol < r.line.entry col ∧ c = ⟨c.row, r.basic, r.ratio col⟩ := by
  unfold candidates
  simp only [List.mem_map, List.mem_filter, decide_eq_true_eq, Prod.exists, List.mem_zipIdx_iff_getElem?]
  constructor
  · rintro ⟨r, i, ⟨read, above⟩, rfl⟩
    exact ⟨r, read, above, rfl⟩
  · rintro ⟨r, read, above, same⟩
    exact ⟨r, c.row, ⟨read, above⟩, same.symm⟩

theorem candidate_mem {k : Nat} {s : Row ℚ} (read : t.rows[k]? = some s) (above : tol < s.line.entry col) :
    ⟨k, s.basic, s.ratio col⟩ ∈ t.candidates col tol :=
  mem_candidates.mpr ⟨s, read, above, rfl⟩

theorem foldl_challenge (tol : ℚ) (b : Candidate ℚ) (rest : List (Candidate ℚ)) :
    rest.foldl (challenge tol) (some b) = some (rest.foldl (keep tol) b) := by
  induction rest generalizing b with
  | nil => rfl
  | cons c rest ih => exact ih (keep tol b c)

theorem consider_eq (best : Option (Candidate ℚ)) (place : Row ℚ × Nat) :
    Candidate.consider col tol best place.1 place.2 =
      if tol < place.1.line.entry col then challenge tol best (candidate col place) else best := by
  have built : (⟨place.2, place.1.basic, Scalar.max (place.1.line.rhs / place.1.line.entry col) 0⟩ :
      Candidate ℚ) = candidate col place := by
    rw [Rational.scalar_max]
    rfl
  unfold Candidate.consider
  by_cases above : tol < place.1.line.entry col
  · rw [if_neg (by simpa using above), if_pos above]
    dsimp only
    rw [built]
    cases best with
    | none => rfl
    | some b =>
      dsimp only [challenge, keep]
      split <;> rfl
  · rw [if_pos (by simpa using above), if_neg above]

theorem ratioTest_eq_foldl (t : Tableau ℚ) (col : Nat) (tol : ℚ) :
    t.ratioTest col tol = ((t.candidates col tol).foldl (challenge tol) none).map Candidate.row := by
  unfold ratioTest candidates
  rw [List.foldl_map, List.foldl_filter]
  congr 2
  funext best place
  simpa using consider_eq best place

theorem ratioTest_eq_none_iff : t.ratioTest col tol = none ↔ ∀ s ∈ t.rows, s.line.entry col ≤ tol := by
  have empty : t.candidates col tol = [] ↔ ∀ s ∈ t.rows, s.line.entry col ≤ tol := by
    rw [List.eq_nil_iff_forall_not_mem]
    constructor
    · intro none s member
      obtain ⟨k, read⟩ := List.getElem?_of_mem member
      by_contra above
      exact none _ (candidate_mem read (not_le.mp above))
    · intro passed c member
      obtain ⟨r, read, above, -⟩ := mem_candidates.mp member
      exact absurd above (not_lt.mpr (passed r (List.mem_of_getElem? read)))
  rw [← empty, ratioTest_eq_foldl]
  cases t.candidates col tol with
  | nil => simp
  | cons b rest => simp [challenge, foldl_challenge]

/-- The row that leaves is the candidate that the scan keeps. -/
theorem ratioTest_eq_some (found : t.ratioTest col tol = some row) :
    ∃ b rest r, t.candidates col tol = b :: rest ∧ rest.foldl (keep tol) b = ⟨row, r.basic, r.ratio col⟩ ∧
      t.rows[row]? = some r ∧ tol < r.line.entry col := by
  rw [ratioTest_eq_foldl] at found
  cases cut : t.candidates col tol with
  | nil =>
    rw [cut] at found
    cases found
  | cons b rest =>
    rw [cut, List.foldl_cons, challenge, foldl_challenge] at found
    obtain rfl : (rest.foldl (keep tol) b).row = row := Option.some.inj found
    obtain ⟨r, read, above, same⟩ := mem_candidates.mp (cut ▸ foldl_keep_mem tol b rest)
    exact ⟨b, rest, r, rfl, same, read, above⟩

theorem unbeaten_of_cut (tolerant : 0 ≤ tol) (compose : TiesCompose tol ((t.candidates col tol).map Candidate.ratio))
    {b : Candidate ℚ} {rest : List (Candidate ℚ)} (cut : t.candidates col tol = b :: rest) {k : Nat} {s : Row ℚ}
    (read : t.rows[k]? = some s) (above : tol < s.line.entry col) :
    ¬Candidate.Beats tol ⟨k, s.basic, s.ratio col⟩ (rest.foldl (keep tol) b) :=
  foldl_keep_unbeaten tolerant compose (fun _ member => List.mem_map_of_mem (cut ▸ member)) _
    (cut ▸ candidate_mem read above)

/-- Whatever the tolerance, the entry in the leaving row is above it. -/
theorem ratioTest_above (found : t.ratioTest col tol = some row) :
    ∃ r, t.rows[row]? = some r ∧ tol < r.line.entry col := by
  obtain ⟨-, -, r, -, -, read, above⟩ := ratioTest_eq_some found
  exact ⟨r, read, above⟩

/-- With nonnegative right-hand sides the leaving row has the least quotient, and of those the lowest basic column. -/
theorem ratioTest_least (nonneg : ∀ s ∈ t.rows, 0 ≤ s.line.rhs) (leaves : t.ratioTest col 0 = some row) :
    ∃ r, t.rows[row]? = some r ∧ 0 < r.line.entry col ∧ ∀ s ∈ t.rows, 0 < s.line.entry col →
      r.line.rhs / r.line.entry col < s.line.rhs / s.line.entry col ∨
        r.line.rhs / r.line.entry col = s.line.rhs / s.line.entry col ∧ r.basic ≤ s.basic := by
  obtain ⟨b, rest, r, cut, kept, read, positive⟩ := ratioTest_eq_some leaves
  refine ⟨r, read, positive, ?_⟩
  intro s member entry
  obtain ⟨k, present⟩ := List.getElem?_of_mem member
  have unbeaten := unbeaten_of_cut le_rfl (tiesCompose_zero _) cut present entry
  rw [kept, Candidate.not_beats_zero] at unbeaten
  dsimp only at unbeaten
  rwa [Row.ratio_of_nonneg (nonneg r (List.mem_of_getElem? read)) positive,
    Row.ratio_of_nonneg (nonneg s member) entry] at unbeaten

end Leaving

end Tableau

end BranchBound.Linear
