import Mathlib.Data.Prod.Lex
import Mathlib.Order.Compare
import Mathlib.Tactic
import BranchBound.Proofs.Rational
import BranchBound.Scalar.Double

/-!
# The order of scalars

`LawfulOrder` is what the search relies on when it compares objective values: numbers are totally
preordered, positive infinity is the last of them, and what is no number compares with nothing.
Rationals and double-precision scalars have such an order; a double stands in it by its sign,
its exponent and its mantissa (`Double.rank`).
-/

namespace BranchBound

/-- Whether `v` is a number, that is equal to itself. -/
def Scalar.isNumber {α : Type} [Scalar α] (v : α) : Bool :=
  Scalar.eq v v

class LawfulOrder (α : Type) [Scalar α] : Prop where
  number_of_lt {a b : α} : Scalar.lt a b = true → Scalar.isNumber a = true ∧ Scalar.isNumber b = true
  le_iff {a b : α} : Scalar.le a b = true ↔
    Scalar.isNumber a = true ∧ Scalar.isNumber b = true ∧ Scalar.lt b a = false
  lt_asymm {a b : α} : Scalar.lt a b = true → Scalar.lt b a = false
  le_trans {a b c : α} : Scalar.le a b = true → Scalar.le b c = true → Scalar.le a c = true
  belowTop_iff {a : α} : Scalar.belowTop a = true ↔ Scalar.isNumber a = true ∧ Scalar.isTop a = false
  le_top {a b : α} : Scalar.isTop b = true → Scalar.isNumber a = true → Scalar.le a b = true

namespace LawfulOrder

variable {α : Type} [Scalar α] [LawfulOrder α] {a b c : α}

theorem le_refl (number : Scalar.isNumber a = true) : Scalar.le a a = true := by
  have irrefl : Scalar.lt a a = false := by
    by_contra less
    have less := Bool.eq_true_of_not_eq_false less
    exact absurd less (by simp [lt_asymm less])
  exact le_iff.mpr ⟨number, number, irrefl⟩

theorem le_of_lt (less : Scalar.lt a b = true) : Scalar.le a b = true := by
  obtain ⟨left, right⟩ := number_of_lt less
  exact le_iff.mpr ⟨left, right, lt_asymm less⟩

theorem lt_of_not_le (left : Scalar.isNumber a = true) (right : Scalar.isNumber b = true)
    (notLe : Scalar.le b a = false) : Scalar.lt a b = true := by
  by_contra notLess
  have le : Scalar.le b a = true := le_iff.mpr ⟨right, left, Bool.eq_false_iff.mpr notLess⟩
  rw [notLe] at le
  cases le

theorem lt_of_lt_of_le (less : Scalar.lt a b = true) (le : Scalar.le b c = true) : Scalar.lt a c = true := by
  have left := (number_of_lt less).1
  obtain ⟨-, right, -⟩ := le_iff.mp le
  refine lt_of_not_le left right (Bool.eq_false_iff.mpr fun back => ?_)
  have flipped := (le_iff.mp (le_trans le back)).2.2
  rw [less] at flipped
  cases flipped

theorem belowTop_of_lt (less : Scalar.lt a b = true) : Scalar.belowTop a = true := by
  obtain ⟨left, right⟩ := number_of_lt less
  refine belowTop_iff.mpr ⟨left, Bool.eq_false_iff.mpr fun top => ?_⟩
  have above := (le_iff.mp (le_top top right)).2.2
  rw [less] at above
  cases above

end LawfulOrder

/-! ### Rationals -/

theorem Rational.isNumber_eq (a : ℚ) : Scalar.isNumber a = true := by
  simp [Scalar.isNumber]

instance : LawfulOrder ℚ where
  number_of_lt _ := ⟨Rational.isNumber_eq _, Rational.isNumber_eq _⟩
  le_iff := by simp [Rational.isNumber_eq]
  lt_asymm {a b} less := by
    simp only [Rational.scalar_lt, decide_eq_true_eq, decide_eq_false_iff_not, not_lt] at less ⊢
    exact less.le
  le_trans {a b c} first second := by
    simp only [Rational.scalar_le, decide_eq_true_eq] at first second ⊢
    exact first.trans second
  belowTop_iff := by simp [Rational.isNumber_eq]
  le_top top := by simp at top

/-! ### Double-precision scalars -/

namespace Double

open Float.Model (UnpackedFloat)

/-- The place of a number in the order: its side of zero, its exponent and its mantissa. -/
def rank : UnpackedFloat → Option (ℤ ×ₗ ℤ ×ₗ ℤ)
  | .notANumber => none
  | .infinity .negative => some (toLex (-2, toLex (0, 0)))
  | .finite .negative mantissa exponent _ => some (toLex (-1, toLex (-exponent, -mantissa)))
  | .zero _ => some (toLex (0, toLex (0, 0)))
  | .finite .positive mantissa exponent _ => some (toLex (1, toLex (exponent, mantissa)))
  | .infinity .positive => some (toLex (2, toLex (0, 0)))

theorem compare_toLex (side side' exponent exponent' mantissa mantissa' : ℤ) :
    compare (toLex (side, toLex (exponent, mantissa))) (toLex (side', toLex (exponent', mantissa'))) =
      (compare side side').then ((compare exponent exponent').then (compare mantissa mantissa')) := by
  simp only [Prod.Lex.compare_def, compareLex, compareOn, ofLex_toLex]

theorem compare_neg_neg (a b : ℤ) : compare (-a) (-b) = (compare a b).swap := by
  rw [Int.compare_swap]
  rcases lt_trichotomy a b with less | rfl | more
  · rw [compare_gt_iff_gt.mpr less, compare_gt_iff_gt.mpr (neg_lt_neg less)]
  · simp
  · rw [compare_lt_iff_lt.mpr more, compare_lt_iff_lt.mpr (neg_lt_neg more)]

theorem compare_natCast (a b : ℕ) : compare (a : ℤ) (b : ℤ) = compare a b := by
  rcases lt_trichotomy a b with less | rfl | more
  · rw [compare_lt_iff_lt.mpr less, compare_lt_iff_lt.mpr (Int.ofNat_lt.mpr less)]
  · simp
  · rw [compare_gt_iff_gt.mpr more, compare_gt_iff_gt.mpr (Int.ofNat_lt.mpr more)]

theorem compare_eq (a b : UnpackedFloat) :
    a.compare b = (rank a).bind fun place => (rank b).map (compare place) := by
  cases a with
  | notANumber => rfl
  | infinity s =>
    cases b with
    | notANumber => cases s <;> rfl
    | infinity s' => cases s <;> cases s' <;> rfl
    | zero s' => cases s <;> rfl
    | finite s' m' e' _ =>
      cases s <;> cases s' <;> dsimp only [UnpackedFloat.compare, rank] <;> simp [compare_toLex] <;> rfl
  | zero s =>
    cases b with
    | notANumber => rfl
    | infinity s' => cases s' <;> rfl
    | zero s' => rfl
    | finite s' m' e' _ =>
      cases s' <;> dsimp only [UnpackedFloat.compare, rank] <;> simp [compare_toLex] <;> rfl
  | finite s m e _ =>
    cases b with
    | notANumber => cases s <;> rfl
    | infinity s' =>
      cases s <;> cases s' <;> dsimp only [UnpackedFloat.compare, rank] <;> simp [compare_toLex] <;> rfl
    | zero s' =>
      cases s <;> dsimp only [UnpackedFloat.compare, rank] <;> simp [compare_toLex] <;> rfl
    | finite s' m' e' _ =>
      cases s <;> cases s' <;> dsimp only [UnpackedFloat.compare, rank] <;>
        simp [compare_toLex, compare_neg_neg, compare_natCast, Ordering.swap_then] <;> rfl

/-- The place of a scalar, none for what is no number. -/
def place (v : Float) : Option (ℤ ×ₗ ℤ ×ₗ ℤ) :=
  rank v.toModel.unpack

section Place
variable {a b : Float}

theorem any_compare (test : Ordering → Bool) :
    (a.toModel.unpack.compare b.toModel.unpack).any test = true ↔
      ∃ x y, place a = some x ∧ place b = some y ∧ test (compare x y) = true := by
  rw [compare_eq]
  unfold place
  cases rank a.toModel.unpack <;> cases rank b.toModel.unpack <;> simp

theorem beq_some (o : Option Ordering) (p : Ordering) : (o == some p) = o.any (· == p) := by
  cases o <;> rfl

theorem lt_iff : Scalar.lt a b = true ↔ ∃ x y, place a = some x ∧ place b = some y ∧ x < y := by
  have compared : Scalar.lt a b = true ↔ a.toModel.unpack.lt b.toModel.unpack = true :=
    decide_eq_true_iff.trans decide_eq_true_iff
  rw [compared, UnpackedFloat.lt, beq_some, any_compare]
  simp only [beq_iff_eq, compare_lt_iff_lt]

theorem le_iff : Scalar.le a b = true ↔ ∃ x y, place a = some x ∧ place b = some y ∧ x ≤ y := by
  have compared : Scalar.le a b = true ↔ a.toModel.unpack.le b.toModel.unpack = true :=
    decide_eq_true_iff.trans decide_eq_true_iff
  rw [compared, UnpackedFloat.le, any_compare]
  simp only [Ordering.isLE_iff_ne_gt, compare_le_iff_le]

theorem eq_iff : Scalar.eq a b = true ↔ ∃ x, place a = some x ∧ place b = some x := by
  have compared : Scalar.eq a b = (a.toModel.unpack.compare b.toModel.unpack == some .eq) := rfl
  rw [compared, beq_some, any_compare]
  simp only [beq_iff_eq, compare_eq_iff_eq]
  constructor
  · rintro ⟨x, y, left, right, rfl⟩
    exact ⟨x, left, right⟩
  · rintro ⟨x, left, right⟩
    exact ⟨x, x, left, right, rfl⟩

theorem isNumber_iff : Scalar.isNumber a = true ↔ ∃ x, place a = some x := by
  unfold Scalar.isNumber
  rw [eq_iff]
  simp only [and_self]

theorem place_top : place top = some (toLex (2, toLex (0, 0))) :=
  rfl

theorem rank_le_top {u : UnpackedFloat} {x : ℤ ×ₗ ℤ ×ₗ ℤ} (ranked : rank u = some x) :
    x ≤ toLex (2, toLex (0, 0)) := by
  have below : ∀ {side : ℤ}, side < 2 → ∀ rest : ℤ ×ₗ ℤ, toLex (side, rest) ≤ toLex (2, toLex (0, 0)) :=
    fun less _ => (Prod.Lex.toLex_lt_toLex.mpr (Or.inl less)).le
  cases u with
  | notANumber => cases ranked
  | zero s =>
    cases ranked
    exact below (by decide) _
  | infinity s =>
    cases s <;> cases ranked
    · exact below (by decide) _
    · exact le_refl _
  | finite s m e _ =>
    cases s <;> cases ranked
    · exact below (by decide) _
    · exact below (by decide) _

theorem isTop_iff : Scalar.isTop a = true ↔ place a = some (toLex (2, toLex (0, 0))) := by
  have tested : Scalar.isTop a = Scalar.eq a top := rfl
  rw [tested, eq_iff, place_top]
  simp

end Place

end Double

instance : LawfulOrder Float where
  number_of_lt {a b} less := by
    obtain ⟨x, y, left, right, -⟩ := Double.lt_iff.mp less
    exact ⟨Double.isNumber_iff.mpr ⟨x, left⟩, Double.isNumber_iff.mpr ⟨y, right⟩⟩
  le_iff {a b} := by
    rw [Double.le_iff, Double.isNumber_iff, Double.isNumber_iff, Bool.eq_false_iff, Ne, Double.lt_iff]
    constructor
    · rintro ⟨x, y, left, right, below⟩
      refine ⟨⟨x, left⟩, ⟨y, right⟩, ?_⟩
      rintro ⟨y', x', right', left', above⟩
      obtain rfl := Option.some.inj (right.symm.trans right')
      obtain rfl := Option.some.inj (left.symm.trans left')
      exact absurd above (not_lt.mpr below)
    · rintro ⟨⟨x, left⟩, ⟨y, right⟩, notLess⟩
      exact ⟨x, y, left, right, not_lt.mp fun above => notLess ⟨y, x, right, left, above⟩⟩
  lt_asymm {a b} less := by
    obtain ⟨x, y, left, right, below⟩ := Double.lt_iff.mp less
    rw [Bool.eq_false_iff, Ne, Double.lt_iff]
    rintro ⟨y', x', right', left', above⟩
    obtain rfl := Option.some.inj (right.symm.trans right')
    obtain rfl := Option.some.inj (left.symm.trans left')
    exact absurd above (lt_asymm below)
  le_trans {a b c} first second := by
    obtain ⟨x, y, left, middle, below⟩ := Double.le_iff.mp first
    obtain ⟨y', z, middle', right, above⟩ := Double.le_iff.mp second
    obtain rfl := Option.some.inj (middle.symm.trans middle')
    exact Double.le_iff.mpr ⟨x, z, left, right, below.trans above⟩
  belowTop_iff {a} := by
    have tested : Scalar.belowTop a = Scalar.lt a Double.top := rfl
    rw [tested, Double.lt_iff, Double.isNumber_iff, Bool.eq_false_iff, Ne, Double.isTop_iff]
    constructor
    · rintro ⟨x, y, left, right, below⟩
      refine ⟨⟨x, left⟩, fun top => ?_⟩
      obtain rfl := Option.some.inj (Double.place_top.symm.trans right)
      obtain rfl := Option.some.inj (left.symm.trans top)
      exact absurd below (lt_irrefl _)
    · rintro ⟨⟨x, left⟩, notTop⟩
      refine ⟨x, _, left, Double.place_top, lt_of_le_of_ne (Double.rank_le_top left) ?_⟩
      rintro rfl
      exact notTop left
  le_top {a b} top number := by
    obtain ⟨x, ranked⟩ := Double.isNumber_iff.mp number
    exact Double.le_iff.mpr ⟨x, _, ranked, Double.isTop_iff.mp top, Double.rank_le_top ranked⟩

end BranchBound
