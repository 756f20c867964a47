import BranchBound.Proofs.Rational

/-!
# Splits

A coordinate is whole exactly if some integer lies within the tolerance (`isWhole_iff`). A split at one that is not
cuts the point off on both sides by more than the tolerance (`lt_miss_self`), and each integer stays on one side
(`miss_ceil_iff`).
-/

namespace BranchBound

open Integer (BranchRow Side)

/-! ### The nearest integer -/

namespace Rational

theorem abs_sub_round_le (v : ℚ) : |v - Rational.round v| ≤ 1 / 2 := by
  have half : Rational.half = 1 / 2 := by decide +kernel
  have floored : ∀ w : ℚ, |w - ⌊w + 1 / 2⌋| ≤ 1 / 2 := by
    intro w
    have below := Int.floor_le (w + 1 / 2)
    have above := Int.lt_floor_add_one (w + 1 / 2)
    rw [abs_le]
    constructor <;> linarith
  unfold Rational.round
  split
  · show |v - -((⌊-v + Rational.half⌋ : ℤ) : ℚ)| ≤ 1 / 2
    rw [half, ← abs_neg, neg_sub', sub_neg_eq_add, ← sub_eq_add_neg]
    exact floored (-v)
  · show |v - ((⌊v + Rational.half⌋ : ℤ) : ℚ)| ≤ 1 / 2
    rw [half]
    exact floored v

theorem abs_sub_round_le_abs_sub (v : ℚ) (k : ℤ) : |v - Rational.round v| ≤ |v - k| := by
  obtain ⟨m, rounded⟩ := round_eq v
  have near := abs_sub_round_le v
  rw [rounded] at near ⊢
  rcases eq_or_ne m k with rfl | different
  · exact le_refl _
  · -- another integer is at least one away from `m`, and so a half from `v`
    have apart : (1 : ℚ) ≤ |(m : ℚ) - k| := by
      exact_mod_cast Int.one_le_abs (sub_ne_zero.mpr different)
    have through : |(m : ℚ) - k| ≤ |v - m| + |v - k| := by
      rw [abs_sub_comm v m]
      exact abs_sub_le _ _ _
    linarith

end Rational

namespace Search

theorem isWhole_iff {tol v : ℚ} : isWhole tol v = true ↔ ∃ k : ℤ, |v - k| ≤ tol := by
  refine ⟨near_of_isWhole, ?_⟩
  rintro ⟨k, near⟩
  rw [isWhole_eq, decide_eq_true_eq]
  exact (Rational.abs_sub_round_le_abs_sub v k).trans near

theorem fractional?_eq_none_iff {tol : ℚ} {x : List ℚ} :
    fractional? tol x = none ↔ ∀ v ∈ x, ∃ k : ℤ, |v - k| ≤ tol := by
  refine ⟨fun none v member => isWhole_iff.mp (fractional?_eq_none none v member), ?_⟩
  intro near
  unfold fractional?
  rw [Option.map_eq_none_iff, List.find?_eq_none]
  rintro ⟨v, index⟩ member
  have read := List.mem_zipIdx_iff_getElem?.mp member
  simpa using isWhole_iff.mpr (near v (List.mem_of_getElem? read))

theorem whole_before_fractional? {tol value v : ℚ} {x : List ℚ} {var i : Nat}
    (found : fractional? tol x = some (var, value)) (earlier : i < var) (read : x[i]? = some v) :
    ∃ k : ℤ, |v - k| ≤ tol := by
  unfold fractional? at found
  obtain ⟨⟨w, index⟩, first, same⟩ := Option.map_eq_some_iff.mp found
  obtain ⟨rfl, rfl⟩ := Prod.mk.inj same
  obtain ⟨-, j, bound, here, before⟩ := List.find?_eq_some_iff_getElem.mp first
  have place : j = index := by
    rw [List.getElem_zipIdx, Prod.mk.injEq] at here
    omega
  obtain ⟨inside, rfl⟩ := List.getElem?_eq_some_iff.mp read
  have passed := before i (by omega)
  rw [List.getElem_zipIdx] at passed
  exact isWhole_iff.mp (by simpa using passed)

end Search

/-! ### Both sides of a split -/

namespace Integer.BranchRow

variable {x : List ℚ} {var : Nat} {value v tol : ℚ}

/-- By how much the coordinate `v` misses the row on a side of a split at `value`. -/
def miss (side : Side) (value v : ℚ) : ℚ :=
  match side with
  | .ceil => ⌈value⌉ - v
  | .floor => v - ⌊value⌋

theorem holdsAt_split (read : x[var]? = some v) (side : Side) :
    (split side var value).holdsAt x tol = .ok (decide (miss side value v ≤ tol)) := by
  unfold holdsAt miss
  cases side with
  | ceil =>
    rw [split_ceil, read]
    simp only [Rational.scalar_le, coefficient_ceil, rhs_ceil, Except.ok.injEq, decide_eq_decide]
    constructor <;> intro <;> linarith
  | floor =>
    rw [split_floor, read]
    simp only [Rational.scalar_le, coefficient_floor, rhs_floor, Except.ok.injEq, decide_eq_decide]
    constructor <;> intro <;> linarith

theorem lt_miss_self (apart : ∀ k : ℤ, tol < |value - k|) (side : Side) : tol < miss side value value := by
  cases side with
  | ceil =>
    have far := apart ⌈value⌉
    rwa [abs_sub_comm, abs_of_nonneg (sub_nonneg.mpr (Int.le_ceil value))] at far
  | floor =>
    have far := apart ⌊value⌋
    rwa [abs_of_nonneg (sub_nonneg.mpr (Int.floor_le value))] at far

/-- An integer is on one side of the gap between the floor and the ceiling of `value`. -/
theorem miss_ceil_iff (fractional : ∀ m : ℤ, value ≠ m) (k : ℤ) : miss .ceil value k ≤ 0 ↔ ¬miss .floor value k ≤ 0 := by
  have between : ⌊value⌋ < ⌈value⌉ := by
    have below := lt_of_le_of_ne (Int.floor_le value) (fractional ⌊value⌋).symm
    exact_mod_cast below.trans_le (Int.le_ceil value)
  have closest := Int.ceil_le_floor_add_one value
  unfold miss
  rw [sub_nonpos, sub_nonpos, Int.cast_le, Int.cast_le]
  omega

theorem holdsAt_split_integer {y : List ℚ} {k : ℤ} (read : y[var]? = some (k : ℚ)) (fractional : ∀ m : ℤ, value ≠ m) :
    ∃ side, (split side var value).holdsAt y 0 = .ok true ∧
      ∀ other, other ≠ side → (split other var value).holdsAt y 0 = .ok false := by
  have opposite := miss_ceil_iff fractional k
  simp only [holdsAt_split read, Except.ok.injEq, decide_eq_true_eq, decide_eq_false_iff_not]
  by_cases above : miss .ceil value k ≤ 0
  · refine ⟨.ceil, above, ?_⟩
    intro other different
    cases other with
    | ceil => exact absurd rfl different
    | floor => exact opposite.mp above
  · refine ⟨.floor, not_not.mp (mt opposite.mpr above), ?_⟩
    intro other different
    cases other with
    | ceil => exact above
    | floor => exact absurd rfl different

end Integer.BranchRow

namespace Search

/-- A point is integral exactly if each coordinate is within the tolerance of an integer. Otherwise the split is at the
first coordinate that is not: both rows exclude the point even with the tolerance as slack, and a point with an integer
there satisfies one of them and not the other. -/
theorem split_cuts_off {s : Integer.Settings ℚ} (valid : s.isValid = true) (x : List ℚ) :
    (fractional? s.intTol x = none ↔ ∀ v ∈ x, ∃ k : ℤ, |v - k| ≤ s.intTol) ∧
      ∀ var value, fractional? s.intTol x = some (var, value) →
        (∀ i v, i < var → x[i]? = some v → ∃ k : ℤ, |v - k| ≤ s.intTol) ∧ x[var]? = some value ∧
        (∀ side, (BranchRow.split side var value).holdsAt x s.intTol = .ok false) ∧
        ∀ (y : List ℚ) (k : ℤ), y[var]? = some (k : ℚ) →
          ∃ side, (BranchRow.split side var value).holdsAt y 0 = .ok true ∧
            ∀ other, other ≠ side → (BranchRow.split other var value).holdsAt y 0 = .ok false := by
  have tolerant : 0 ≤ s.intTol := ((Integer.Settings.isValid_iff s).mp valid).1
  refine ⟨fractional?_eq_none_iff, ?_⟩
  intro var value found
  obtain ⟨read, notWhole⟩ := fractional?_eq_some found
  have apart : ∀ k : ℤ, s.intTol < |value - k| := by
    intro k
    by_contra near
    rw [isWhole_iff.mpr ⟨k, not_lt.mp near⟩] at notWhole
    cases notWhole
  have fractional : ∀ k : ℤ, value ≠ k := by
    rintro k rfl
    have := apart k
    rw [sub_self, abs_zero] at this
    linarith
  refine ⟨fun i v earlier => whole_before_fractional? found earlier, read, ?_, ?_⟩
  · intro side
    rw [BranchRow.holdsAt_split read, decide_eq_false (not_le.mpr (BranchRow.lt_miss_self apart side))]
  · intro y k integer
    exact BranchRow.holdsAt_split_integer integer fractional

/-- With tolerance a quarter, `2.25` is whole and `-1.5` is not: its row from below is `x₁ ≥ -1`, its row from above
`x₁ ≤ -2`. -/
theorem split_cuts_off_below_zero : ∃ (s : Integer.Settings ℚ) (x y : List ℚ),
    s.intTol = 1 / 4 ∧ x = [9 / 4, -3 / 2, 1 / 2] ∧ y = [1 / 2, -2] ∧ s.isValid = true ∧
      fractional? s.intTol x = some (1, -3 / 2) ∧ (∃ k : ℤ, |9 / 4 - (k : ℚ)| ≤ s.intTol) ∧
      (¬∀ v ∈ x, ∃ k : ℤ, |v - k| ≤ s.intTol) ∧
      (BranchRow.split .ceil 1 (-3 / 2 : ℚ) = ⟨1, .ceil, -1⟩ ∧ BranchRow.split .floor 1 (-3 / 2 : ℚ) = ⟨1, .floor, -2⟩) ∧
      (∀ side, (BranchRow.split side 1 (-3 / 2)).holdsAt x s.intTol = .ok false) ∧
      ∃ side, (BranchRow.split side 1 (-3 / 2)).holdsAt y 0 = .ok true ∧
        ∀ other, other ≠ side → (BranchRow.split other 1 (-3 / 2)).holdsAt y 0 = .ok false := by
  have valid : (⟨1, 1 / 4, ⟨1, 0, 0⟩, false, 0⟩ : Integer.Settings ℚ).isValid = true := by decide +kernel
  have found : fractional? (1 / 4 : ℚ) [9 / 4, -3 / 2, 1 / 2] = some (1, -3 / 2) := by decide +kernel
  obtain ⟨integral, splits⟩ := split_cuts_off valid [9 / 4, -3 / 2, 1 / 2]
  obtain ⟨before, -, excluded, kept⟩ := splits 1 (-3 / 2) found
  refine ⟨_, _, _, rfl, rfl, rfl, valid, found, before 0 _ (by decide) rfl, ?_, by decide +kernel, excluded, ?_⟩
  · rw [← integral, found]
    exact Option.some_ne_none _
  · exact kept [1 / 2, -2] (-2) (by simp)

end Search

end BranchBound
