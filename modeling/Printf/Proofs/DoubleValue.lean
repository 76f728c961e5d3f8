import Printf.Proofs.Nearest

/-! The numbers that finite doubles stand for. The magnitude of a double is its significand times a
power of two; with the sign it determines the bit pattern. No double has more than 1100 decimals or
more than 1101 significant digits. -/
namespace Printf.Binary64

def toRat (x : Binary64) : ℚ := (if x.negative then -1 else 1) * (x.significand * 2 ^ x.scale)

/-- The power of two of the leading digit: that of the hidden bit, and 0 for zero. -/
def leadingExponent (x : Binary64) : Int :=
  if x.isZero then 0 else if x.exponentField = 0 then -1022 else x.exponentField - 1023

theorem two_pow_pos (k : Int) : (0 : ℚ) < 2 ^ k := by positivity

theorem abs_toRat (x : Binary64) : |x.toRat| = x.significand * 2 ^ x.scale := by
  have positive : (0 : ℚ) ≤ x.significand * 2 ^ x.scale :=
    mul_nonneg (Nat.cast_nonneg _) (two_pow_pos _).le
  rw [toRat]
  cases x.negative
  · rw [if_neg Bool.false_ne_true, one_mul, abs_of_nonneg positive]
  · rw [if_pos rfl, neg_one_mul, abs_neg, abs_of_nonneg positive]

theorem toRat_magnitude (x : Binary64) : x.magnitude.toRat = |x.toRat| := by
  rw [magnitude, Ratio.toRat_timesPow, Ratio.toRat_ofNat, abs_toRat, Nat.cast_ofNat]

theorem fractionField_lt (x : Binary64) : x.fractionField < 2 ^ 52 :=
  Nat.mod_lt _ (by decide)

theorem exponentField_lt {x : Binary64} (finite : x.isFinite = true) : x.exponentField < 2047 := by
  have other : x.exponentField ≠ 2047 := by simpa [isFinite] using finite
  have small : x.exponentField < 2048 := Nat.mod_lt _ (by decide)
  omega

theorem significand_lt (x : Binary64) : x.significand < 2 ^ 53 := by
  have small := x.fractionField_lt
  rw [significand, leadingBit]
  split <;> omega

theorem scale_bounds {x : Binary64} (finite : x.isFinite = true) :
    -1074 ≤ x.scale ∧ x.scale ≤ 971 := by
  have small := exponentField_lt finite
  rw [scale]
  omega

theorem significand_eq_zero (x : Binary64) : x.significand = 0 ↔ x.isZero = true := by
  rw [significand, isZero, Bool.and_eq_true, beq_iff_eq, beq_iff_eq, leadingBit]
  split <;> simp_all

theorem abs_toRat_eq_zero (x : Binary64) : |x.toRat| = 0 ↔ x.isZero = true := by
  rw [abs_toRat, mul_eq_zero, or_iff_left (two_pow_pos _).ne', Nat.cast_eq_zero,
    significand_eq_zero]

theorem magnitude_pos {x : Binary64} (nonzero : x.isZero = false) : 0 < x.magnitude.num := by
  apply Nat.pos_of_ne_zero
  intro zero
  rw [← Ratio.toRat_eq_zero, toRat_magnitude, abs_toRat_eq_zero, nonzero] at zero
  cases zero

theorem scientific_zero {x : Binary64} (zero : x.isZero = true) (places : Nat) :
    Decimal.scientific x.magnitude places = ⟨0, 0⟩ := by
  rw [← abs_toRat_eq_zero, ← toRat_magnitude, Ratio.toRat_eq_zero] at zero
  exact if_pos zero

theorem bits_eq (x : Binary64) : x.bits.toNat =
    (if x.negative then 2 ^ 63 else 0) + x.exponentField * 2 ^ 52 + x.fractionField := by
  have small := x.bits.toNat_lt
  have sign : x.negative = true ↔ x.bits.toNat / 2 ^ 63 = 1 := by
    rw [negative, beq_iff_eq]
    rfl
  rw [exponentField, fractionField, leadingBit]
  split
  · next minus =>
    have := sign.mp minus
    omega
  · next plus =>
    have := mt sign.mpr plus
    omega

theorem ext_fields {x y : Binary64} (sign : x.negative = y.negative)
    (exponent : x.exponentField = y.exponentField) (fraction : x.fractionField = y.fractionField) :
    x = y := by
  have bits : x.bits.toNat = y.bits.toNat := by rw [bits_eq, bits_eq, sign, exponent, fraction]
  cases x
  cases y
  exact congrArg mk (UInt64.toNat_inj.mp bits)

theorem two_pow_le_significand {x : Binary64} (normal : -1074 < x.scale) :
    2 ^ 52 ≤ x.significand := by
  have field : x.exponentField ≠ 0 := by
    rw [scale] at normal
    omega
  rw [significand, if_neg field, leadingBit]
  omega

/-- A double in the units of another one whose units are not larger. -/
theorem abs_toRat_shift {x y : Binary64} (le : x.scale ≤ y.scale) :
    |y.toRat| = (y.significand * 2 ^ (y.scale - x.scale).toNat : Nat) * 2 ^ x.scale := by
  have shift : (2 : ℚ) ^ y.scale = 2 ^ (y.scale - x.scale).toNat * 2 ^ x.scale := by
    rw [← zpow_natCast, ← zpow_add₀ (by norm_num)]
    congr 1
    omega
  rw [abs_toRat, shift, ← mul_assoc]
  push_cast
  rfl

/-- A larger double has no smaller units. -/
theorem scale_le_of_abs_le {x y : Binary64} (finite : x.isFinite = true)
    (le : |y.toRat| ≤ |x.toRat|) : y.scale ≤ x.scale := by
  by_contra above
  -- then the significand of `y` has its leading bit, and that of `x` is at least twice as large
  have normal := two_pow_le_significand (x := y) (by have := (scale_bounds finite).1; omega)
  rw [abs_toRat_shift (x := x) (y := y) (by omega), abs_toRat x] at le
  have whole : y.significand * 2 ^ (y.scale - x.scale).toNat ≤ x.significand := by
    exact_mod_cast le_of_mul_le_mul_right le (two_pow_pos x.scale)
  have twice : 2 ^ 1 ≤ 2 ^ (y.scale - x.scale).toNat := Nat.pow_le_pow_right (by decide) (by omega)
  have large := Nat.mul_le_mul normal twice
  have small := x.significand_lt
  omega

/-- Doubles of different magnitudes are at least a unit of the smaller one apart. -/
theorem add_unit_le_abs {x y : Binary64} (finite : y.isFinite = true)
    (less : |x.toRat| < |y.toRat|) : |x.toRat| + 2 ^ x.scale ≤ |y.toRat| := by
  have unit := two_pow_pos x.scale
  have scales := scale_le_of_abs_le finite less.le
  rw [abs_toRat_shift scales, abs_toRat x] at less ⊢
  have next : (x.significand : ℚ) + 1 ≤ (y.significand * 2 ^ (y.scale - x.scale).toNat : Nat) := by
    exact_mod_cast lt_of_mul_lt_mul_right less unit.le
  have scaled := mul_le_mul_of_nonneg_right next unit.le
  rwa [add_mul, one_mul] at scaled

/-- The sign and the magnitude of a finite double determine its bits. -/
theorem eq_of_abs_eq {x y : Binary64} (finite : x.isFinite = true) (finite' : y.isFinite = true)
    (sign : x.negative = y.negative) (same : |x.toRat| = |y.toRat|) : x = y := by
  have scales := le_antisymm (scale_le_of_abs_le finite' same.le) (scale_le_of_abs_le finite same.ge)
  have significands : x.significand = y.significand := by
    rw [abs_toRat, abs_toRat, scales] at same
    exact_mod_cast mul_right_cancel₀ (two_pow_pos y.scale).ne' same
  have small := x.fractionField_lt
  have small' := y.fractionField_lt
  rw [scale, scale] at scales
  rw [significand, significand, leadingBit] at significands
  apply ext_fields sign
  · split at significands <;> split at significands <;> omega
  · split at significands <;> split at significands <;> omega

/-- Digits of a binary number end where twos can be taken out of the tens. -/
theorem exists_multiple (m : Nat) {e k : Int} (positive : 0 ≤ k) (enough : 0 ≤ e + k) :
    ∃ n : Nat, (m : ℚ) * 2 ^ e = n * 10 ^ (-k) := by
  refine ⟨m * 2 ^ (e + k).toNat * 5 ^ k.toNat, ?_⟩
  have tens : (10 : ℚ) ^ (-k) = 2 ^ (-k) * 5 ^ (-k) := by rw [← mul_zpow]; norm_num
  have fives : (5 : ℚ) ^ k * 5 ^ (-k) = 1 := by
    rw [← zpow_add₀ (by norm_num), add_neg_cancel, zpow_zero]
  have twos : (2 : ℚ) ^ (e + k) * 2 ^ (-k) = 2 ^ e := by
    rw [← zpow_add₀ (by norm_num), add_neg_cancel_right]
  push_cast
  rw [← zpow_natCast, ← zpow_natCast, Int.toNat_of_nonneg positive, Int.toNat_of_nonneg enough, tens]
  calc (m : ℚ) * 2 ^ e = m * (2 ^ (e + k) * 2 ^ (-k)) * (5 ^ k * 5 ^ (-k)) := by
        rw [twos, fives, mul_one]
    _ = m * 2 ^ (e + k) * 5 ^ k * (2 ^ (-k) * 5 ^ (-k)) := by ring

/-- No finite double has more than 1100 decimals. -/
theorem exists_decimals {x : Binary64} (finite : x.isFinite = true) :
    ∃ n : Nat, |x.toRat| = n * 10 ^ (-1100 : Int) := by
  have := scale_bounds finite
  rw [abs_toRat]
  exact exists_multiple _ (by omega) (by omega)

theorem abs_toRat_lt (x : Binary64) : |x.toRat| < 2 ^ (53 + x.scale) := by
  have small : (x.significand : ℚ) < 2 ^ (53 : Nat) := by exact_mod_cast x.significand_lt
  rw [abs_toRat, zpow_add₀ (by norm_num)]
  exact mul_lt_mul_of_pos_right (by exact_mod_cast small) (two_pow_pos _)

theorem abs_toRat_lt_two_pow {x : Binary64} (finite : x.isFinite = true) :
    |x.toRat| < 2 ^ (1024 : Int) := by
  obtain ⟨-, most⟩ := scale_bounds finite
  exact x.abs_toRat_lt.trans_le (zpow_le_zpow_right₀ (by norm_num) (by omega))

/-- A double is below `10 ^ 309`. -/
theorem exponent_lt {x : Binary64} (finite : x.isFinite = true) {X : Int}
    (low : (10 : ℚ) ^ X ≤ |x.toRat|) : X < 309 := by
  have tens : 2 ^ 1024 ≤ 10 ^ 309 := by decide +kernel
  have tens : (2 : ℚ) ^ (1024 : Int) ≤ 10 ^ (309 : Int) := by exact_mod_cast tens
  have under := low.trans_lt (abs_toRat_lt_two_pow finite)
  exact (zpow_lt_zpow_iff_right₀ (by norm_num)).mp (under.trans_le tens)

/-- A double other than zero is not below `10 ^ -324`. -/
theorem le_exponent {x : Binary64} (finite : x.isFinite = true) (nonzero : x.isZero = false) {X : Int}
    (high : |x.toRat| < 10 ^ (X + 1)) : -324 ≤ X := by
  have one : (1 : ℚ) ≤ x.significand := by
    rw [← Bool.not_eq_true, ← significand_eq_zero] at nonzero
    exact_mod_cast Nat.pos_of_ne_zero nonzero
  have unit : (2 : ℚ) ^ (-1074 : Int) ≤ 2 ^ x.scale :=
    zpow_le_zpow_right₀ (by norm_num) (scale_bounds finite).1
  have least : (2 : ℚ) ^ (-1074 : Int) ≤ |x.toRat| := by
    rw [abs_toRat]
    exact unit.trans (le_mul_of_one_le_left (two_pow_pos _).le one)
  have tens : 2 ^ 1074 ≤ 10 ^ 324 := by decide +kernel
  have tens : (10 : ℚ) ^ (-324 : Int) ≤ 2 ^ (-1074 : Int) := by
    rw [zpow_neg, zpow_neg]
    apply inv_anti₀ (two_pow_pos _)
    exact_mod_cast tens
  have above := (zpow_lt_zpow_iff_right₀ (by norm_num)).mp ((tens.trans least).trans_lt high)
  omega

/-- No finite double has more than 1101 significant digits. -/
theorem exists_digits {x : Binary64} (finite : x.isFinite = true) {X : Int}
    (low : (10 : ℚ) ^ X ≤ |x.toRat|) : ∃ n : Nat, |x.toRat| = n * 10 ^ (X - 1100) := by
  obtain ⟨least, most⟩ := scale_bounds finite
  have bound := exponent_lt finite low
  have under := low.trans_lt x.abs_toRat_lt
  have small : x.scale < -53 → X < 0 := by
    intro below
    have one : (2 : ℚ) ^ (53 + x.scale) ≤ 10 ^ (0 : Int) := by
      rw [zpow_zero]
      exact zpow_le_one_of_nonpos₀ (by norm_num) (by omega)
    exact (zpow_lt_zpow_iff_right₀ (by norm_num)).mp (under.trans_le one)
  rw [abs_toRat, ← neg_sub]
  exact exists_multiple _ (by omega) (by omega)

end Printf.Binary64
