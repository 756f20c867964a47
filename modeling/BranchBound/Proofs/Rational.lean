import Mathlib.Data.Rat.Floor
import Mathlib.Tactic
import BranchBound.Integer.BranchRow
import BranchBound.Integer.Settings
import BranchBound.Scalar.Rational
import BranchBound.Search.Integrality

/-!
# Exact scalars

Over the rationals the Boolean tests of a `Scalar` decide the order of the field, and its
roundings are the integer floor and ceiling. `near_of_isWhole` says what the integrality test decides.
-/

namespace BranchBound

namespace Rational

@[simp] theorem scalar_lt (a b : ℚ) : Scalar.lt a b = decide (a < b) := by
  show Rat.blt a b = decide (a < b)
  rw [Bool.eq_iff_iff, decide_eq_true_eq]
  exact Iff.rfl

@[simp] theorem scalar_le (a b : ℚ) : Scalar.le a b = decide (a ≤ b) := by
  show (!Rat.blt b a) = decide (a ≤ b)
  have flip : Rat.blt b a = decide (b < a) := scalar_lt b a
  rw [flip, ← decide_not, decide_eq_decide]
  exact not_lt

@[simp] theorem scalar_eq (a b : ℚ) : Scalar.eq a b = decide (a = b) := rfl

@[simp] theorem scalar_max (a b : ℚ) : Scalar.max a b = max a b := by
  show (if Rat.blt b a = true then a else b) = max a b
  have flip : Rat.blt b a = decide (b < a) := scalar_lt b a
  simp only [flip, decide_eq_true_eq]
  split
  · rename_i less
    exact (max_eq_left less.le).symm
  · rename_i notLess
    exact (max_eq_right (not_lt.mp notLess)).symm

@[simp] theorem scalar_abs (a : ℚ) : Scalar.abs a = |a| := by
  show (if Rat.blt a (Rat.ofInt 0) = true then Rat.neg a else a) = |a|
  have flip : Rat.blt a (Rat.ofInt 0) = decide (a < 0) := scalar_lt a 0
  simp only [flip, decide_eq_true_eq]
  split
  · rename_i negative
    exact (abs_of_neg negative).symm
  · rename_i notNegative
    exact (abs_of_nonneg (not_lt.mp notNegative)).symm

@[simp] theorem scalar_ceil (a : ℚ) : Scalar.ceil a = (⌈a⌉ : ℚ) := by
  show Rat.ofInt (Rat.ceil a) = (⌈a⌉ : ℚ)
  have same : Rat.ceil a = ⌈a⌉ := by
    rw [Rat.ceil_eq_neg_floor_neg]
    show -⌊-a⌋ = ⌈a⌉
    rw [Int.floor_neg, neg_neg]
  rw [same]
  rfl

@[simp] theorem scalar_floor (a : ℚ) : Scalar.floor a = (⌊a⌋ : ℚ) := rfl

@[simp] theorem scalar_isFinite (a : ℚ) : Scalar.isFinite a = true := rfl

@[simp] theorem scalar_isTop (a : ℚ) : Scalar.isTop a = false := rfl

@[simp] theorem scalar_belowTop (a : ℚ) : Scalar.belowTop a = true := rfl

theorem scalar_sum (xs : List ℚ) : Scalar.sum xs = xs.sum := by
  have folded : ∀ (ys : List ℚ) (start : ℚ), ys.foldl (· + ·) start = start + ys.sum := by
    intro ys
    induction ys with
    | nil => intro start; simp
    | cons y rest ih => intro start; rw [List.foldl_cons, ih, List.sum_cons, add_assoc]
  show xs.foldl (· + ·) (-0) = xs.sum
  rw [folded, neg_zero, zero_add]

theorem scalar_dot (xs ys : List ℚ) : Scalar.dot xs ys = (List.zipWith (· * ·) xs ys).sum :=
  scalar_sum _

/-! ### Roundings -/

theorem round_eq (v : ℚ) : ∃ k : ℤ, Rational.round v = k := by
  unfold Rational.round
  split
  · exact ⟨-⌊-v + Rational.half⌋, by push_cast; rfl⟩
  · exact ⟨⌊v + Rational.half⌋, rfl⟩

theorem round_intCast (k : ℤ) : Rational.round k = k := by
  have half : Rational.half = 1 / 2 := by decide +kernel
  have floored : ∀ m : ℤ, ⌊(m : ℚ) + 1 / 2⌋ = m := by
    intro m
    rw [Int.floor_eq_iff]
    constructor <;> linarith
  unfold Rational.round
  split
  · show -((⌊-(k : ℚ) + Rational.half⌋ : ℤ) : ℚ) = k
    rw [half, ← Int.cast_neg k, floored, Int.cast_neg, neg_neg]
  · show ((⌊(k : ℚ) + Rational.half⌋ : ℤ) : ℚ) = k
    rw [half, floored]

end Rational

namespace Search

theorem isWhole_eq (tol v : ℚ) : isWhole tol v = decide (|v - Rational.round v| ≤ tol) := by
  show Scalar.le (Scalar.abs (v - Rational.round v)) tol = _
  simp

theorem near_of_isWhole {tol v : ℚ} (whole : isWhole tol v = true) : ∃ k : ℤ, |v - k| ≤ tol := by
  rw [isWhole_eq, decide_eq_true_eq] at whole
  obtain ⟨k, rounded⟩ := Rational.round_eq v
  exact ⟨k, rounded ▸ whole⟩

theorem isWhole_intCast {tol : ℚ} (nonneg : 0 ≤ tol) (k : ℤ) : isWhole tol (k : ℚ) = true := by
  rw [isWhole_eq, decide_eq_true_eq, Rational.round_intCast]
  simpa using nonneg

theorem fractional?_eq_some {tol value : ℚ} {x : List ℚ} {var : Nat}
    (found : fractional? tol x = some (var, value)) :
    x[var]? = some value ∧ isWhole tol value = false := by
  unfold fractional? at found
  obtain ⟨⟨v, index⟩, first, same⟩ := Option.map_eq_some_iff.mp found
  obtain ⟨rfl, rfl⟩ := Prod.mk.inj same
  have fails := List.find?_some first
  have member := List.mem_zipIdx_iff_getElem?.mp (List.mem_of_find?_eq_some first)
  exact ⟨member, by simpa using fails⟩

theorem fractional?_eq_none {tol : ℚ} {x : List ℚ} (found : fractional? tol x = none) :
    ∀ v ∈ x, isWhole tol v = true := by
  unfold fractional? at found
  have every := List.find?_eq_none.mp (Option.map_eq_none_iff.mp found)
  intro v member
  obtain ⟨index, read⟩ := List.getElem?_of_mem member
  have passed := every (v, index) (List.mem_zipIdx_iff_getElem?.mpr read)
  simpa using passed

end Search

/-! ### Settings and branch rows -/

theorem Integer.Settings.isValid_iff (s : Integer.Settings ℚ) :
    s.isValid = true ↔ 0 ≤ s.intTol ∧ s.intTol < 1 / 2 := by
  have half : (OfScientific.ofScientific 5 true 1 : ℚ) = 1 / 2 := by norm_num
  unfold Integer.Settings.isValid
  rw [Bool.and_eq_true, Rational.scalar_le, Rational.scalar_lt, decide_eq_true_eq, decide_eq_true_eq]
  show _ ∧ s.intTol < (OfScientific.ofScientific 5 true 1 : ℚ) ↔ _
  rw [half]

namespace Integer.BranchRow

@[simp] theorem coefficient_ceil (var : Nat) (bound : ℚ) :
    (BranchRow.mk var .ceil bound).coefficient = -1 := rfl

@[simp] theorem coefficient_floor (var : Nat) (bound : ℚ) :
    (BranchRow.mk var .floor bound).coefficient = 1 := rfl

@[simp] theorem split_ceil (var : Nat) (value : ℚ) : split .ceil var value = ⟨var, .ceil, ⌈value⌉⟩ := by
  simp [split]

@[simp] theorem split_floor (var : Nat) (value : ℚ) : split .floor var value = ⟨var, .floor, ⌊value⌋⟩ := by
  simp [split]

@[simp] theorem rhs_ceil (var : Nat) (bound : ℚ) : (BranchRow.mk var .ceil bound).rhs = -bound := by
  simp [rhs]

@[simp] theorem rhs_floor (var : Nat) (bound : ℚ) : (BranchRow.mk var .floor bound).rhs = bound := by
  simp [rhs]

end Integer.BranchRow

end BranchBound
