import BranchBound.Proofs.ScalarOrder

/-!
# Finite scalars

`LawfulFinite` is what a search relies on when it writes branch rows: the coefficients `1` and `-1` neither make
a number infinite nor finite again, and the roundings of a finite number are finite. For double-precision
scalars this is a matter of exponents: a number is finite while its exponent fits (`Fits`), rounding raises the
exponent by one at most, and not at all when it is exact.
-/

namespace BranchBound

class LawfulFinite (α : Type) [Scalar α] : Prop where
  zero : Scalar.isFinite (0 : α) = true
  one : Scalar.isFinite (1 : α) = true
  neg_one : Scalar.isFinite (-1 : α) = true
  one_mul (v : α) : Scalar.isFinite (1 * v) = Scalar.isFinite v
  neg_one_mul (v : α) : Scalar.isFinite (-1 * v) = Scalar.isFinite v
  ceil {v : α} : Scalar.isFinite v = true → Scalar.isFinite (Scalar.ceil v) = true
  floor {v : α} : Scalar.isFinite v = true → Scalar.isFinite (Scalar.floor v) = true
  /-- A value raised to zero is finite or positive infinity. -/
  top_of_raised {v : α} : Scalar.isFinite (Scalar.max v 0) = false → Scalar.isTop (Scalar.max v 0) = true

instance : LawfulFinite ℚ where
  zero := rfl
  one := rfl
  neg_one := rfl
  one_mul _ := rfl
  neg_one_mul _ := rfl
  ceil _ := rfl
  floor _ := rfl
  top_of_raised infinite := nomatch infinite

namespace Binary64

open Float.Model (UnpackedFloat Format totalExponent)
open Float.Model.UnpackedFloat (Sign Accuracy ExtendedMantissa shiftToTargetExponent shiftToExponent roundWithAccuracy
  decreaseExponent packComponents packedInfinity packedNaN packedZero unpackExponent unpackMantissa
  unpackExponent_packComponents)

/-! ### Bits -/

/-- Zero, or a number whose exponent is at most `top`. -/
def Fits (top : ℤ) : UnpackedFloat → Prop
  | .zero _ => True
  | .finite _ _ exponent _ => exponent ≤ top
  | _ => False

/-- What is read from the bits of a number: a mantissa of 53 bits and an exponent between `-1074` and `top`. -/
def Reads (top : ℤ) : UnpackedFloat → Prop
  | .zero _ => True
  | .finite _ mantissa exponent _ => mantissa < 2 ^ 53 ∧ -1074 ≤ exponent ∧ exponent ≤ top
  | _ => False

theorem Fits.mono {top top' : ℤ} {u : UnpackedFloat} (fits : Fits top u) (le : top ≤ top') : Fits top' u := by
  cases u with
  | zero => trivial
  | finite s m e pos => exact le_trans (show e ≤ top from fits) le
  | infinity => exact fits
  | notANumber => exact fits

theorem Reads.fits {top : ℤ} {u : UnpackedFloat} (reads : Reads top u) : Fits top u := by
  cases u with
  | zero => trivial
  | finite s m e pos => exact reads.2.2
  | infinity => exact reads
  | notANumber => exact reads

section Bits
variable {b : BitVec Format.binary64.numBits} {top : ℤ}

theorem allOnes_exponent : ((-1#_ : BitVec Format.binary64.exponentBits)).toNat = 2047 := by
  decide

theorem reads_unpack (ordinary : (unpackExponent b).toNat < 2047) (low : -1074 ≤ top)
    (within : ((unpackExponent b).toNat : ℤ) ≤ top + 1075) : Reads top (UnpackedFloat.unpack Format.binary64 b) := by
  have notTop : unpackExponent b ≠ -1#_ := by
    intro same
    have equal := congrArg BitVec.toNat same
    rw [allOnes_exponent] at equal
    omega
  unfold UnpackedFloat.unpack
  dsimp only
  rw [if_neg notTop]
  by_cases subnormal : unpackExponent b = 0#11
  · have none : (unpackExponent b).toNat = 0 := by rw [subnormal]; rfl
    rw [if_pos subnormal]
    by_cases zero : unpackMantissa b = 0#52
    · rw [dif_pos zero]
      trivial
    · rw [dif_neg zero]
      have small := (unpackMantissa b).isLt
      refine ⟨?_, ?_, ?_⟩
      · exact lt_trans small (by decide)
      · rw [none]
        decide
      · rw [none]
        exact low
  · rw [if_neg subnormal]
    have some : (unpackExponent b).toNat ≠ 0 := by
      intro none
      exact subnormal (BitVec.eq_of_toNat_eq none)
    have bias : ((Format.binary64.exponentBias + Format.binary64.mantissaBitsWithoutImplicit : ℕ) : ℤ) = 1075 := by
      decide
    refine ⟨(1#1 ++ unpackMantissa b).isLt, ?_, ?_⟩
    · push_cast at bias
      omega
    · push_cast at bias
      omega

theorem isFinite_unpack_top (top : unpackExponent b = -1#_) :
    (UnpackedFloat.unpack Format.binary64 b).isFinite = false := by
  unfold UnpackedFloat.unpack
  dsimp only
  rw [if_pos top]
  split <;> rfl

theorem reads_of_isFinite_unpack (finite : (UnpackedFloat.unpack Format.binary64 b).isFinite = true) :
    Reads 971 (UnpackedFloat.unpack Format.binary64 b) := by
  have notTop : (unpackExponent b).toNat ≠ 2047 := by
    intro equal
    rw [← allOnes_exponent] at equal
    rw [isFinite_unpack_top (BitVec.eq_of_toNat_eq equal)] at finite
    cases finite
  have small : (unpackExponent b).toNat < 2048 := (unpackExponent b).isLt
  apply reads_unpack
  · omega
  · decide
  · omega

theorem reads_of_isFinite {v : Float} (finite : Scalar.isFinite v = true) : Reads 971 v.toModel.unpack :=
  reads_of_isFinite_unpack finite

theorem isFinite_of_reads {v : Float} (reads : Reads top v.toModel.unpack) : Scalar.isFinite v = true := by
  have same : Scalar.isFinite v = v.toModel.unpack.isFinite := rfl
  rw [same]
  cases read : v.toModel.unpack with
  | zero => rfl
  | finite => rfl
  | infinity =>
    rw [read] at reads
    cases reads
  | notANumber =>
    rw [read] at reads
    cases reads

theorem reads_packComponents (s : Sign) (exponent : BitVec Format.binary64.exponentBits)
    (mantissa : BitVec Format.binary64.mantissaBitsWithoutImplicit) (ordinary : exponent.toNat < 2047)
    (low : -1074 ≤ top) (within : (exponent.toNat : ℤ) ≤ top + 1075) :
    Reads top (UnpackedFloat.unpack Format.binary64 (packComponents Format.binary64 s exponent mantissa)) := by
  apply reads_unpack
  · rwa [unpackExponent_packComponents]
  · exact low
  · rwa [unpackExponent_packComponents]

/-- A number that fits is packed with its exponent, or with none if it is subnormal. -/
theorem reads_pack {u : UnpackedFloat} (fits : Fits top u) (low : -1074 ≤ top) (high : top ≤ 971) :
    Reads top (Float.Model.pack u).unpack := by
  show Reads top (UnpackedFloat.unpack Format.binary64 (UnpackedFloat.pack Format.binary64 u))
  have unbiased : ((0 : BitVec Format.binary64.exponentBits).toNat : ℤ) ≤ top + 1075 := by
    show (0 : ℤ) ≤ _
    omega
  cases u with
  | infinity => cases fits
  | notANumber => cases fits
  | zero s => exact reads_packComponents s 0 0 (by decide) low unbiased
  | finite s m e pos =>
    have fits : e ≤ top := fits
    have bias : ((Format.binary64.exponentBias : ℕ) : ℤ) = 1023 := by decide
    unfold UnpackedFloat.pack
    dsimp only
    rw [bias, if_neg (by omega)]
    split
    · have kept : (BitVec.ofNat 11 (e + 1023 + (52 : ℕ)).toNat).toNat = (e + 1023 + (52 : ℕ)).toNat := by
        rw [BitVec.toNat_ofNat, Nat.mod_eq_of_lt (by omega)]
      apply reads_packComponents
      · rw [kept]
        omega
      · exact low
      · rw [kept]
        omega
    · exact reads_packComponents s 0 _ (by decide) low unbiased

theorem isFinite_pack_of_not {u : UnpackedFloat} (infinite : u.isFinite = false) :
    (Float.Model.pack u).unpack.isFinite = false := by
  show (UnpackedFloat.unpack Format.binary64 (UnpackedFloat.pack Format.binary64 u)).isFinite = false
  cases u with
  | zero => cases infinite
  | finite => cases infinite
  | infinity s => exact isFinite_unpack_top unpackExponent_packComponents
  | notANumber => exact isFinite_unpack_top unpackExponent_packComponents

end Bits

/-! ### Rounding -/

section Round
variable {mantissa : ℕ} {exponent top : ℤ}

theorem log2_le {n k : ℕ} (small : n < 2 ^ (k + 1)) : n.log2 ≤ k := by
  rcases Nat.eq_zero_or_pos n with rfl | pos
  · simp
  · have below := (Nat.log2_lt (Nat.pos_iff_ne_zero.mp pos)).mpr small
    omega

theorem targetExponent_eq (total : ℤ) : Format.binary64.targetExponent total = max (total - 53) (-1074) :=
  rfl

theorem mantissa_shift (m : ExtendedMantissa) (k : ℕ) : (m >>> k).mantissa = m.mantissa / 2 ^ k := by
  show (Nat.repeat ExtendedMantissa.shiftRightOne k m).mantissa = _
  induction k with
  | zero => simp [Nat.repeat]
  | succ k ih =>
    show (Nat.repeat ExtendedMantissa.shiftRightOne k m).mantissa / 2 = _
    rw [ih, Nat.div_div_eq_div_mul, Nat.pow_succ]

theorem shift_exact (m k : ℕ) :
    (⟨2 ^ k * m, false, false⟩ : ExtendedMantissa) >>> k = ⟨m, false, false⟩ := by
  show Nat.repeat ExtendedMantissa.shiftRightOne k _ = _
  induction k generalizing m with
  | zero => simp [Nat.repeat]
  | succ k ih =>
    have split : 2 ^ (k + 1) * m = 2 ^ k * (2 * m) := by ring
    rw [Nat.repeat, split, ih]
    simp [ExtendedMantissa.shiftRightOne]

theorem roundedMantissa_le (m : ExtendedMantissa) : m.roundedMantissa ≤ m.mantissa + 1 := by
  obtain ⟨mantissa, roundBit, stickyBit⟩ := m
  cases roundBit <;> cases stickyBit <;>
    simp only [ExtendedMantissa.roundedMantissa, ExtendedMantissa.accuracy, Accuracy.roundToNearestEven] <;> omega

/-- The shift to the target exponent: the exponent after it, and what is left of the mantissa. -/
theorem shifted (mantissa : ℕ) (exponent : ℤ) (accuracy : Accuracy) :
    (shiftToTargetExponent Format.binary64 mantissa exponent accuracy).2 =
        max exponent (max (mantissa.log2 + exponent - 52) (-1074)) ∧
      (shiftToTargetExponent Format.binary64 mantissa exponent accuracy).1.mantissa < 2 ^ 53 := by
  unfold shiftToTargetExponent shiftToExponent
  dsimp only
  rw [targetExponent_eq, totalExponent, mantissa_shift]
  have start : (ExtendedMantissa.ofMantissaAndAccuracy mantissa accuracy).mantissa = mantissa := by
    cases accuracy with
    | exact => rfl
    | inexact o => cases o <;> rfl
  rw [start]
  refine ⟨by omega, ?_⟩
  rw [Nat.div_lt_iff_lt_mul (Nat.two_pow_pos _), ← Nat.pow_add]
  exact lt_of_lt_of_le Nat.lt_log2_self (Nat.pow_le_pow_right (by decide) (by omega))

/-- A mantissa with `bits` too many after the first shift is shifted once more. -/
theorem fits_of_rounded (bits : ℕ) (sign : Sign) (accuracy : Accuracy)
    (rounded : (shiftToTargetExponent Format.binary64 mantissa exponent accuracy).1.roundedMantissa < 2 ^ (53 + bits))
    (within : max exponent (max (mantissa.log2 + exponent - 52) (-1074)) + bits ≤ top) :
    Fits top (roundWithAccuracy Format.binary64 sign mantissa exponent accuracy) := by
  unfold roundWithAccuracy
  dsimp only
  obtain ⟨once, -⟩ := shifted mantissa exponent accuracy
  generalize shiftToTargetExponent Format.binary64 mantissa exponent accuracy = first at once rounded ⊢
  obtain ⟨twice, -⟩ := shifted first.1.roundedMantissa first.2 .exact
  generalize shiftToTargetExponent Format.binary64 first.1.roundedMantissa first.2 .exact = second at twice ⊢
  by_cases zero : second.1.mantissa = 0
  · rw [dif_pos zero]
    trivial
  · rw [dif_neg zero]
    have short := log2_le (k := 52 + bits) (by rw [Nat.add_right_comm]; exact rounded)
    show second.2 ≤ top
    rw [twice, once]
    omega

theorem fits_roundWithAccuracy (sign : Sign) (mantissa : ℕ) (exponent : ℤ) (accuracy : Accuracy) :
    Fits (max exponent (max (mantissa.log2 + exponent - 52) (-1074)) + 1)
      (roundWithAccuracy Format.binary64 sign mantissa exponent accuracy) := by
  have small := (shifted mantissa exponent accuracy).2
  have near := roundedMantissa_le (shiftToTargetExponent Format.binary64 mantissa exponent accuracy).1
  exact fits_of_rounded 1 sign accuracy (by omega) (le_refl _)

/-- The product of a number and `1` or `-1` is not rounded. -/
theorem fits_scaled (sign : Sign) (small : mantissa < 2 ^ 53) (low : -1074 ≤ exponent) :
    Fits exponent (roundWithAccuracy Format.binary64 sign (2 ^ 52 * mantissa) (-52 + exponent) .exact) := by
  have short : (2 ^ 52 * mantissa).log2 ≤ 104 := log2_le (by omega)
  apply fits_of_rounded 0
  · have left := (shifted (2 ^ 52 * mantissa) (-52 + exponent) .exact).2
    unfold shiftToTargetExponent shiftToExponent at left ⊢
    dsimp only at left ⊢
    rw [targetExponent_eq, totalExponent] at left ⊢
    generalize shift : (max (((2 ^ 52 * mantissa).log2 : ℤ) + 1 + (-52 + exponent) - 53) (-1074) - (-52 + exponent)).toNat
      = k at left ⊢
    have few : k ≤ 52 := by omega
    have split : 2 ^ 52 * mantissa = 2 ^ k * (2 ^ (52 - k) * mantissa) := by
      rw [← mul_assoc, ← Nat.pow_add, Nat.add_sub_cancel' few]
    have unrounded : ExtendedMantissa.ofMantissaAndAccuracy (2 ^ 52 * mantissa) .exact >>> k =
        ⟨2 ^ (52 - k) * mantissa, false, false⟩ := by
      rw [split]
      exact shift_exact _ k
    rw [unrounded] at left ⊢
    exact left
  · omega

theorem log2_shiftLeft_le (mantissa k : ℕ) : (mantissa <<< k).log2 ≤ mantissa.log2 + k := by
  apply log2_le
  rw [Nat.shiftLeft_eq, Nat.add_right_comm, Nat.pow_add]
  exact Nat.mul_lt_mul_of_pos_right Nat.lt_log2_self (Nat.two_pow_pos k)

theorem fits_round (sign : Sign) (mantissa : ℕ) (exponent : ℤ) :
    Fits (max (mantissa.log2 + exponent - 52) (-1074) + 1)
      (UnpackedFloat.round Format.binary64 sign mantissa exponent) := by
  unfold UnpackedFloat.round decreaseExponent
  dsimp only
  rw [targetExponent_eq, totalExponent]
  have shifted := log2_shiftLeft_le mantissa
    (exponent - max ((mantissa.log2 : ℤ) + 1 + exponent - 53) (-1074)).toNat
  apply (fits_roundWithAccuracy _ _ _ _).mono
  omega

theorem fits_normalize (mantissa exponent : ℤ) (sign : Sign) :
    Fits (max (mantissa.natAbs.log2 + exponent - 52) (-1074) + 1)
      (UnpackedFloat.normalize Format.binary64 mantissa exponent sign) := by
  unfold UnpackedFloat.normalize
  split
  · rename_i negative
    have same : (-mantissa).toNat = mantissa.natAbs := by
      have below := Int.compare_eq_lt.mp negative
      omega
    rw [same]
    exact fits_round _ _ _
  · trivial
  · rename_i positive
    have same : mantissa.toNat = mantissa.natAbs := by
      have above := Int.compare_eq_gt.mp positive
      omega
    rw [same]
    exact fits_round _ _ _

end Round

/-! ### Operations -/

section Operations
variable {u v : UnpackedFloat} {m₁ m₂ : ℕ} {e₁ e₂ top : ℤ}

/-- A sum of two mantissas at their smaller exponent is two bits longer at most. -/
theorem fits_sum (small₁ : m₁ < 2 ^ 53) (low₁ : -1074 ≤ e₁) (high₁ : e₁ ≤ top) (small₂ : m₂ < 2 ^ 53)
    (high₂ : e₂ ≤ top) {sum : ℤ}
    (bounded : sum.natAbs ≤ (decreaseExponent m₁ e₁ (min e₁ e₂)).1 + (decreaseExponent m₂ e₂ (min e₁ e₂)).1) :
    Fits (top + 2) (UnpackedFloat.normalize Format.binary64 sum (min e₁ e₂) .positive) := by
  have shifted : ∀ {m e}, m < 2 ^ 53 → e ≤ top →
      (decreaseExponent m e (min e₁ e₂)).1 < 2 ^ (53 + (top - min e₁ e₂).toNat) := by
    intro m e small high
    show m <<< (e - min e₁ e₂).toNat < _
    rw [Nat.shiftLeft_eq, Nat.pow_add]
    apply Nat.mul_lt_mul_of_lt_of_le small (Nat.pow_le_pow_right (by decide) (by omega)) (Nat.two_pow_pos _)
  have first := shifted small₁ high₁
  have second := shifted small₂ high₂
  have short : sum.natAbs.log2 ≤ 53 + (top - min e₁ e₂).toNat := by
    apply log2_le
    rw [Nat.pow_succ]
    omega
  apply (fits_normalize _ _ _).mono
  omega

theorem natAbs_apply (s : Sign) (m : ℕ) : (s.apply m).natAbs = m := by
  cases s with
  | positive => rfl
  | negative => exact Int.natAbs_neg m

theorem fits_add (left : Reads top u) (right : Reads top v) : Fits (top + 2) (UnpackedFloat.add Format.binary64 u v) := by
  cases u with
  | infinity => cases left
  | notANumber => cases left
  | zero s =>
    cases v with
    | infinity => cases right
    | notANumber => cases right
    | zero s' =>
      show Fits _ (if s == s' then .zero s else .zero .positive)
      split <;> trivial
    | finite s' m e pos => exact right.fits.mono (by omega)
  | finite s m e pos =>
    cases v with
    | infinity => cases right
    | notANumber => cases right
    | zero s' => exact left.fits.mono (by omega)
    | finite s' m' e' pos' =>
      apply fits_sum left.1 left.2.1 left.2.2 right.1 right.2.2
      apply (Int.natAbs_add_le _ _).trans
      rw [natAbs_apply, natAbs_apply]
      exact le_refl _

theorem sub_eq (u v : UnpackedFloat) :
    UnpackedFloat.sub Format.binary64 u v = UnpackedFloat.add Format.binary64 u v.neg := by
  cases u <;> cases v <;> try rfl
  rename_i s m e pos s' m' e' pos'
  have opposite : ∀ n : ℕ, (-s').apply n = -s'.apply n := by
    intro n
    cases s' with
    | positive => rfl
    | negative => exact (neg_neg (n : ℤ)).symm
  unfold UnpackedFloat.sub UnpackedFloat.add UnpackedFloat.neg
  dsimp only
  rw [opposite, ← sub_eq_add_neg]

theorem reads_neg (reads : Reads top u) : Reads top u.neg := by
  cases u <;> exact reads

/-- `1` or `-1`. -/
def unit (sign : Sign) : UnpackedFloat :=
  .finite sign (2 ^ 52) (-52) (by decide)

theorem fits_unit_mul (sign : Sign) (reads : Reads top u) : Fits top (UnpackedFloat.mul Format.binary64 (unit sign) u) := by
  cases u with
  | infinity => cases reads
  | notANumber => cases reads
  | zero s => trivial
  | finite s m e pos => exact (fits_scaled _ reads.1 reads.2.1).mono reads.2.2

theorem isFinite_unit_mul (sign : Sign) (infinite : u.isFinite = false) :
    (UnpackedFloat.mul Format.binary64 (unit sign) u).isFinite = false := by
  cases u with
  | infinity => rfl
  | notANumber => rfl
  | zero => cases infinite
  | finite => cases infinite

theorem fits_ofNat {n : ℕ} (small : n < 2 ^ 64) : Fits 12 (UnpackedFloat.ofNat Format.binary64 n) := by
  have short : ((n : ℤ).natAbs).log2 ≤ 63 := log2_le small
  apply (fits_normalize _ _ _).mono
  omega

end Operations

/-! ### Double-precision scalars -/

section Floats
variable {a b v : Float} {top : ℤ}

/-- A finite number with an exponent of at most `top`. -/
def Bounded (top : ℤ) (v : Float) : Prop :=
  Reads top v.toModel.unpack

theorem bounded_one : Bounded 12 (1 : Float) :=
  ⟨by decide, by decide, by decide⟩

theorem bounded_toFloat (n : UInt64) : Bounded 12 n.toFloat :=
  reads_pack (fits_ofNat n.toNat_lt) (by decide) (by decide)

theorem bounded_neg (bounded : Bounded 12 a) : Bounded 12 (-a) :=
  reads_pack (reads_neg bounded).fits (by decide) (by decide)

theorem bounded_add (left : Bounded 12 a) (right : Bounded 12 b) : Bounded 14 (a + b) :=
  reads_pack (fits_add left right) (by decide) (by decide)

theorem bounded_sub (left : Bounded 12 a) (right : Bounded 12 b) : Bounded 14 (a - b) := by
  show Reads 14 (Float.Model.pack (UnpackedFloat.sub Format.binary64 _ _)).unpack
  rw [sub_eq]
  exact reads_pack (fits_add left (reads_neg right)) (by decide) (by decide)

/-- The whole part of a number is small or the number itself. -/
theorem wholePart_cases (v : Float) : Bounded 12 (Double.wholePart v) ∨ Double.wholePart v = v := by
  unfold Double.wholePart
  split
  · split
    · exact Or.inl (bounded_neg (bounded_toFloat _))
    · exact Or.inl (bounded_toFloat _)
  · exact Or.inr rfl

theorem lt_irrefl (v : Float) : ¬v < v := by
  intro less
  have less : Scalar.lt v v = true := decide_eq_true less
  have flipped := LawfulOrder.lt_asymm less
  rw [less] at flipped
  cases flipped

theorem isFinite_ceil (finite : Scalar.isFinite v = true) : Scalar.isFinite (Double.ceil v) = true := by
  unfold Double.ceil
  rcases wholePart_cases v with small | same
  · split
    · exact isFinite_of_reads (bounded_add small bounded_one)
    · exact isFinite_of_reads small
  · rw [same, if_neg (lt_irrefl v)]
    exact finite

theorem isFinite_floor (finite : Scalar.isFinite v = true) : Scalar.isFinite (Double.floor v) = true := by
  unfold Double.floor
  rcases wholePart_cases v with small | same
  · split
    · exact isFinite_of_reads (bounded_sub small bounded_one)
    · exact isFinite_of_reads small
  · rw [same, if_neg (lt_irrefl v)]
    exact finite

theorem isFinite_mul_of_unit (sign : Sign) (one : a.toModel.unpack = unit sign) (v : Float) :
    Scalar.isFinite (a * v) = Scalar.isFinite v := by
  have product : (a * v).toModel.unpack =
      (Float.Model.pack (UnpackedFloat.mul Format.binary64 (unit sign) v.toModel.unpack)).unpack := by
    rw [← one]
    rfl
  cases finite : Scalar.isFinite v with
  | true =>
    have reads := reads_pack (fits_unit_mul sign (reads_of_isFinite finite)) (by decide) (by decide)
    rw [← product] at reads
    exact isFinite_of_reads reads
  | false =>
    show (a * v).toModel.unpack.isFinite = false
    rw [product]
    exact isFinite_pack_of_not (isFinite_unit_mul sign finite)

theorem max_zero_of_bottom (bottom : v.toModel.unpack = .infinity .negative) : Double.max v 0 = 0 := by
  have place : Double.place v = some (toLex (-2, toLex (0, 0))) := congrArg Double.rank bottom
  have less : Scalar.lt v 0 = true := by
    apply Double.lt_iff.mpr
    refine ⟨_, _, place, rfl, ?_⟩
    exact Prod.Lex.toLex_lt_toLex.mpr (Or.inl (by decide))
  unfold Double.max
  rw [if_pos (of_decide_eq_true less)]

/-- What is no number compares to nothing, and is raised to zero. -/
theorem max_zero_of_notANumber (noNumber : v.toModel.unpack = .notANumber) : Double.max v 0 = 0 := by
  have place : Double.place v = none := congrArg Double.rank noNumber
  have notLess : ¬v < 0 := by
    intro less
    obtain ⟨_, _, read, -⟩ := Double.lt_iff.mp (decide_eq_true less)
    rw [place] at read
    cases read
  have notMore : ¬0 < v := by
    intro more
    obtain ⟨_, _, -, read, -⟩ := Double.lt_iff.mp (decide_eq_true more)
    rw [place] at read
    cases read
  have notEqual : ¬(v == 0) = true := by
    intro equal
    obtain ⟨_, read, -⟩ := Double.eq_iff.mp equal
    rw [place] at read
    cases read
  have isNaN : v.isNaN = true := by
    show v.toModel.unpack.isNaN = true
    rw [noNumber]
    rfl
  unfold Double.max
  rw [if_neg notLess, if_neg notMore, if_neg notEqual, if_pos isNaN]

theorem max_zero_cases (v : Float) : Double.max v 0 = v ∨ Double.max v 0 = 0 := by
  unfold Double.max
  repeat' split
  all_goals simp

theorem isTop_of_raised (infinite : Scalar.isFinite (Double.max v 0) = false) : Scalar.isTop (Double.max v 0) = true := by
  have zero : Scalar.isFinite (0 : Float) = true := rfl
  have notZero : Double.max v 0 ≠ 0 := by
    intro raised
    rw [raised, zero] at infinite
    cases infinite
  have own := (max_zero_cases v).resolve_right notZero
  rw [own] at infinite ⊢
  have infinite : v.toModel.unpack.isFinite = false := infinite
  apply Double.isTop_iff.mpr
  cases read : v.toModel.unpack with
  | notANumber => exact absurd (max_zero_of_notANumber read) notZero
  | zero =>
    rw [read] at infinite
    cases infinite
  | finite =>
    rw [read] at infinite
    cases infinite
  | infinity sign =>
    cases sign with
    | negative => exact absurd (max_zero_of_bottom read) notZero
    | positive => exact congrArg Double.rank read

end Floats

end Binary64

instance : LawfulFinite Float where
  zero := rfl
  one := rfl
  neg_one := rfl
  one_mul v := Binary64.isFinite_mul_of_unit .positive rfl v
  neg_one_mul v := Binary64.isFinite_mul_of_unit .negative rfl v
  ceil := Binary64.isFinite_ceil
  floor := Binary64.isFinite_floor
  top_of_raised := Binary64.isTop_of_raised

end BranchBound
