import Mathlib.Algebra.Order.Field.Power
import Mathlib.Tactic.FieldSimp
import Mathlib.Tactic.Linarith
import Mathlib.Tactic.Positivity
import Mathlib.Tactic.Ring
import Printf.Binary64
import Printf.Float.Decimal
import Printf.Proofs.Digits

/-! Rounding of rational numbers, to a unit and to a number of significant digits, as relations that
determine the result. Fractions of natural numbers round by these rules, and a decimal with one
digit in front of its point has the digits that they ask for. -/
namespace Printf

/-- So many units are nearest to a number, and an even number of them if there are two nearest. -/
structure Nearest (q unit : ℚ) (n : Nat) : Prop where
  near : |q - n * unit| ≤ unit / 2
  even : |q - n * unit| = unit / 2 → Even n

/-- A number rounded to `p` significant digits: to units of the last one of the digits that start at
the first of the number itself. -/
inductive Significant (p : Nat) (q R : ℚ) : Prop
  | zero : q = 0 → R = 0 → Significant p q R
  | positive (k : Int) (n : Nat) : (10 : ℚ) ^ k ≤ q → q < 10 ^ (k + 1) →
      Nearest q (10 ^ (k + 1 - p)) n → R = n * 10 ^ (k + 1 - p) → Significant p q R

namespace Nearest

variable {q unit : ℚ} {m n : Nat}

theorem mul (nearest : Nearest q unit n) {c : ℚ} (positive : 0 < c) :
    Nearest (q * c) (unit * c) n := by
  have scaled : |q * c - n * (unit * c)| = |q - n * unit| * c := by
    rw [← abs_of_pos positive, ← abs_mul, abs_of_pos positive]
    congr 1
    ring
  constructor
  · rw [scaled]
    have := mul_le_mul_of_nonneg_right nearest.near positive.le
    linarith
  · intro tie
    apply nearest.even
    rw [scaled] at tie
    apply mul_right_cancel₀ positive.ne'
    linarith

theorem of_eq (positive : 0 < unit) (value : q = n * unit) : Nearest q unit n := by
  constructor
  · rw [value, sub_self, abs_zero]
    positivity
  · intro tie
    rw [value, sub_self, abs_zero] at tie
    linarith

/-- Rounding does not cross a multiple of the unit. -/
theorem le (nearest : Nearest q unit n) (positive : 0 < unit) {N : Nat} (bound : q ≤ N * unit) :
    n ≤ N := by
  by_contra above
  have next : (N : ℚ) + 1 ≤ n := by exact_mod_cast Nat.lt_of_not_le above
  have := mul_le_mul_of_nonneg_right next positive.le
  have := (abs_le.mp nearest.near).1
  linarith

theorem ge (nearest : Nearest q unit n) (positive : 0 < unit) {N : Nat} (bound : N * unit ≤ q) :
    N ≤ n := by
  by_contra below
  have next : (n : ℚ) + 1 ≤ N := by exact_mod_cast Nat.lt_of_not_le below
  have := mul_le_mul_of_nonneg_right next positive.le
  have := (abs_le.mp nearest.near).2
  linarith

theorem not_lt (hm : Nearest q unit m) (hn : Nearest q unit n) (positive : 0 < unit) : ¬ m < n := by
  intro less
  have next : (m : ℚ) + 1 ≤ n := by exact_mod_cast less
  have gap := mul_le_mul_of_nonneg_right next positive.le
  have below := (abs_le.mp hm.near).2
  have above := (abs_le.mp hn.near).1
  -- both are half a unit away, and of two neighbours only one is even
  have low : q - m * unit = unit / 2 := by linarith
  have high : q - n * unit = -(unit / 2) := by linarith
  have evenLow : Even m := hm.even (by rw [low, abs_of_pos (half_pos positive)])
  have evenHigh : Even n := hn.even (by rw [high, abs_neg, abs_of_pos (half_pos positive)])
  have neighbours : (n : ℚ) = m + 1 := by
    apply mul_right_cancel₀ positive.ne'
    linarith
  have neighbours : n = m + 1 := by exact_mod_cast neighbours
  rw [neighbours, Nat.even_add_one] at evenHigh
  exact evenHigh evenLow

theorem unique (hm : Nearest q unit m) (hn : Nearest q unit n) (positive : 0 < unit) : m = n := by
  have := hm.not_lt hn positive
  have := hn.not_lt hm positive
  omega

/-- Where rounding gives a multiple of a coarser unit, rounding to that unit gives the same. -/
theorem coarsen {b : Nat} (coarse : 2 ≤ b) (positive : 0 < unit) (nearest : Nearest q unit (b * n)) :
    Nearest q (b * unit) n := by
  have same : |q - n * (b * unit)| = |q - (b * n : Nat) * unit| := by
    congr 1
    push_cast
    ring
  have half : unit / 2 < b * unit / 2 := by
    have : (2 : ℚ) ≤ b := by exact_mod_cast coarse
    nlinarith
  constructor
  · rw [same]
    exact nearest.near.trans half.le
  · intro tie
    rw [same] at tie
    exact absurd (tie ▸ nearest.near) (not_le.mpr half)

end Nearest

namespace Ratio

def toRat (r : Ratio) : ℚ := r.num / r.den

theorem den_pos_rat (r : Ratio) : (0 : ℚ) < r.den := by exact_mod_cast r.den_pos

theorem toRat_eq_zero (r : Ratio) : r.toRat = 0 ↔ r.num = 0 := by
  rw [toRat, div_eq_zero_iff, Nat.cast_eq_zero, or_iff_left r.den_pos_rat.ne']

theorem toRat_ofNat (n : Nat) : (ofNat n).toRat = n := by simp [toRat, ofNat]

theorem toRat_timesPow (r : Ratio) (b : Nat) [Base b] (k : Int) :
    (r.timesPow b k).toRat = r.toRat * (b : ℚ) ^ k := by
  cases k with
  | ofNat k =>
    simp only [timesPow, toRat, Nat.pow_eq, Int.ofNat_eq_natCast, zpow_natCast, Nat.cast_mul,
      Nat.cast_pow]
    ring
  | negSucc k =>
    simp only [timesPow, toRat, Nat.pow_eq, zpow_negSucc, Nat.cast_mul, Nat.cast_pow,
      ← div_eq_mul_inv, div_div]

/-- The rounding of fractions is to the nearest number, ties to even. -/
theorem round_nearest (r : Ratio) : Nearest r.toRat 1 r.round := by
  have positive := r.den_pos_rat
  suffices scaled : Nearest r.num r.den r.round by
    have back := scaled.mul (inv_pos.mpr positive)
    rwa [← div_eq_mul_inv, mul_inv_cancel₀ positive.ne'] at back
  have split : (r.num : ℚ) = r.den * (r.num / r.den : Nat) + (r.num % r.den : Nat) := by
    exact_mod_cast (Nat.div_add_mod r.num r.den).symm
  have small : ((r.num % r.den : Nat) : ℚ) < r.den := by exact_mod_cast Nat.mod_lt _ r.den_pos
  have halfway (tie : ((r.num % r.den : Nat) : ℚ) = r.den / 2) : 2 * (r.num % r.den) = r.den := by
    have : 2 * ((r.num % r.den : Nat) : ℚ) = r.den := by linarith
    exact_mod_cast this
  rw [round]
  split
  · next up =>
    have far : (r.den : ℚ) ≤ 2 * (r.num % r.den : Nat) := by exact_mod_cast up.elim le_of_lt (·.1.ge)
    have distance : |(r.num : ℚ) - (r.num / r.den + 1 : Nat) * r.den| =
        r.den - (r.num % r.den : Nat) := by
      rw [abs_sub_comm, split, abs_of_nonneg] <;> push_cast <;> linarith
    refine ⟨by rw [distance]; linarith, fun tie => ?_⟩
    rw [distance] at tie
    have tie := halfway (by linarith)
    rw [Nat.even_add_one, Nat.not_even_iff]
    exact up.elim (fun above => absurd tie above.ne') (·.2)
  · next stay =>
    have positive : (0 : ℚ) ≤ (r.num % r.den : Nat) := Nat.cast_nonneg _
    have near : 2 * ((r.num % r.den : Nat) : ℚ) ≤ r.den := by
      exact_mod_cast Nat.le_of_not_lt fun far => stay (Or.inl far)
    have distance : |(r.num : ℚ) - (r.num / r.den : Nat) * r.den| = (r.num % r.den : Nat) := by
      rw [split, abs_of_nonneg] <;> linarith
    refine ⟨by rw [distance]; linarith, fun tie => ?_⟩
    rw [distance] at tie
    rw [Nat.even_iff, ← Nat.mod_two_ne_one]
    exact fun odd => stay (Or.inr ⟨halfway tie, odd⟩)

/-- The power of the base below a number and the next one above it. -/
theorem floorLog_bounds (r : Ratio) {b : Nat} (base : 2 ≤ b) (positive : 0 < r.num) :
    (b : ℚ) ^ r.floorLog b ≤ r.toRat ∧ r.toRat < (b : ℚ) ^ (r.floorLog b + 1) := by
  have den := r.den_pos_rat
  have num : (0 : ℚ) < r.num := by exact_mod_cast positive
  rw [floorLog]
  split
  · next large =>
    have whole : 0 < r.num / r.den := Nat.div_pos large r.den_pos
    generalize digits : Radix.size b (r.num / r.den) = s
    have low : b ^ (s - 1) * r.den ≤ r.num :=
      (Nat.le_div_iff_mul_le r.den_pos).mp (digits ▸ Radix.pow_size_le base whole)
    have high : r.num < b ^ s * r.den :=
      (Nat.div_lt_iff_lt_mul r.den_pos).mp (digits ▸ Radix.lt_pow_size base _)
    have some : 0 < s := digits ▸ Radix.size_pos base whole
    have below : ((s : Int) - 1) = (s - 1 : Nat) := by omega
    rw [Int.sub_add_cancel, below, zpow_natCast, zpow_natCast, toRat, le_div_iff₀ den,
      div_lt_iff₀ den]
    exact_mod_cast And.intro low high
  · next small =>
    -- `c + 1` is the quotient of the other way round, rounded up
    have split := Nat.div_add_mod (r.den + r.num - 1) r.num
    have rest := Nat.mod_lt (r.den + r.num - 1) positive
    have two : 2 ≤ (r.den + r.num - 1) / r.num :=
      (Nat.le_div_iff_mul_le positive).mpr (by omega)
    generalize quotient : (r.den + r.num - 1) / r.num - 1 = c
    rw [show (r.den + r.num - 1) / r.num = c + 1 by omega, Nat.mul_succ] at split
    have some := Radix.size_pos base (show 0 < c by omega)
    have low := Radix.pow_size_le base (show 0 < c by omega)
    have high := Radix.lt_pow_size base c
    generalize Radix.size b c = s at some low high
    have below : -(s : Int) + 1 = -(s - 1 : Nat) := by omega
    have above : r.den ≤ r.num * b ^ s :=
      le_trans (by rw [Nat.mul_succ]; omega) (Nat.mul_le_mul_left r.num high)
    have under : r.num * b ^ (s - 1) < r.den :=
      lt_of_le_of_lt (Nat.mul_le_mul_left r.num low) (by omega)
    have power (k : Nat) : (0 : ℚ) < (b : ℚ) ^ k := by
      have : (0 : ℚ) < b := by exact_mod_cast (show 0 < b by omega)
      positivity
    rw [below, zpow_neg, zpow_neg, zpow_natCast, zpow_natCast, toRat, inv_le_comm₀ (power s)
      (div_pos num den), inv_div, div_le_iff₀ num, ← one_div, lt_div_iff₀ (power _), div_mul_eq_mul_div,
      div_lt_one den]
    constructor
    · rw [mul_comm]
      exact_mod_cast above
    · exact_mod_cast under

end Ratio

theorem ten_pow_mul (n : Nat) (k : Int) : (10 : ℚ) ^ n * 10 ^ (k - n) = 10 ^ k := by
  rw [← zpow_natCast, ← zpow_add₀ (by norm_num), add_sub_cancel]

theorem ten_pow_pos (k : Int) : (0 : ℚ) < 10 ^ k := by positivity

/-- A number of units is a larger number of smaller ones. -/
theorem ten_pow_refine {Q P : Nat} (more : Q ≤ P) (n : Nat) (e : Int) :
    (n : ℚ) * 10 ^ (e - Q) = (n * 10 ^ (P - Q) : Nat) * 10 ^ (e - P) := by
  have unit : e - P = e - Q - (P - Q : Nat) := by omega
  rw [unit, Nat.cast_mul, Nat.cast_pow, Nat.cast_ofNat, mul_assoc, ten_pow_mul]

/-- The decimal exponent of a number with its first digit in front of `P` more. -/
theorem ten_pow_digits {P D : Nat} (low : 10 ^ P ≤ D) (high : D < 10 ^ (P + 1)) (X : Int) :
    (10 : ℚ) ^ X ≤ D * 10 ^ (X - P) ∧ (D : ℚ) * 10 ^ (X - P) < 10 ^ (X + 1) := by
  have low : (10 : ℚ) ^ P ≤ D := by exact_mod_cast low
  have high : (D : ℚ) < 10 ^ (P + 1) := by exact_mod_cast high
  have unit := ten_pow_pos (X - P)
  constructor
  · rw [← ten_pow_mul P X]
    exact mul_le_mul_of_nonneg_right low unit.le
  · have next : X + 1 - (P + 1 : Nat) = X - P := by push_cast; ring
    rw [← ten_pow_mul (P + 1) (X + 1), next]
    exact mul_lt_mul_of_pos_right high unit

/-- A number of so many digits is rounded to itself. -/
theorem Significant.of_eq {q : ℚ} {P D : Nat} {X : Int} (low : 10 ^ P ≤ D) (high : D < 10 ^ (P + 1))
    (value : q = D * 10 ^ (X - P)) : Significant (P + 1) q q := by
  obtain ⟨below, above⟩ := ten_pow_digits low high X
  have unit : X + 1 - (P + 1 : Nat) = X - P := by omega
  rw [← value] at below above
  apply Significant.positive X D below above
  · rw [unit]
    exact .of_eq (ten_pow_pos _) value
  · rw [unit]
    exact value

theorem Significant.unique {p : Nat} {q R R' : ℚ} (h : Significant p q R) (h' : Significant p q R') :
    R' = R := by
  have one : (1 : ℚ) < 10 := by norm_num
  cases h with
  | zero none zero =>
    cases h' with
    | zero _ zero' => rw [zero, zero']
    | positive k n low => exact absurd (none ▸ low) (not_le.mpr (ten_pow_pos k))
  | positive k n low high nearest value =>
    cases h' with
    | zero none => exact absurd (none ▸ low) (not_le.mpr (ten_pow_pos k))
    | positive k' n' low' high' nearest' value' =>
      have := (zpow_lt_zpow_iff_right₀ one).mp (low.trans_lt high')
      have := (zpow_lt_zpow_iff_right₀ one).mp (low'.trans_lt high)
      obtain rfl : k' = k := by omega
      rw [value, value', nearest.unique nearest' (ten_pow_pos _)]

namespace Decimal

/-- The digits of a positive fraction are the nearest ones in the place of the last of them, also
where rounding up makes a digit more and the last place moves. -/
theorem scientific_nearest (r : Ratio) (positive : 0 < r.num) (places : Nat) :
    10 ^ places ≤ (scientific r places).digits ∧
    (scientific r places).digits < 10 ^ (places + 1) ∧
    Nearest r.toRat (10 ^ ((scientific r places).exponent - places)) (scientific r places).digits ∧
    Significant (places + 1) r.toRat
      ((scientific r places).digits * 10 ^ ((scientific r places).exponent - places)) := by
  obtain ⟨low, high⟩ := r.floorLog_bounds (b := 10) (by decide) positive
  rw [scientific, if_neg positive.ne']
  simp only [Nat.pow_eq]
  push_cast at low high
  generalize r.floorLog 10 = k at low high ⊢
  have nearest := (r.timesPow 10 (places - k)).round_nearest.mul (ten_pow_pos (k - places))
  generalize (r.timesPow 10 (places - k)).round = n at nearest ⊢
  rw [Ratio.toRat_timesPow, Nat.cast_ofNat, mul_assoc, ← zpow_add₀ (by norm_num), sub_add_sub_cancel,
    sub_self, zpow_zero, mul_one, one_mul] at nearest
  have least : 10 ^ places ≤ n := by
    apply nearest.ge (ten_pow_pos _)
    rwa [Nat.cast_pow, Nat.cast_ofNat, ten_pow_mul]
  have most : n ≤ 10 ^ (places + 1) := by
    apply nearest.le (ten_pow_pos _)
    rw [Nat.cast_pow, Nat.cast_ofNat, pow_succ', mul_assoc, ten_pow_mul, ← zpow_one_add₀ (by norm_num),
      add_comm]
    exact high.le
  have unit : k + 1 - (places + 1 : Nat) = k - places := by push_cast; ring
  have rounded : Significant (places + 1) r.toRat (n * 10 ^ (k - places)) := by
    apply Significant.positive k n low high <;> rw [unit]
    exact nearest
  split
  · next small => exact ⟨least, small, nearest, rounded⟩
  · next carry =>
    obtain rfl : n = 10 * 10 ^ places := by
      rw [← Nat.pow_succ']
      omega
    have next : (10 : ℚ) ^ (k + 1 - places) = 10 * 10 ^ (k - places) := by
      rw [← zpow_one_add₀ (by norm_num)]
      congr 1
      ring
    refine ⟨Nat.le_refl _, Nat.pow_lt_pow_right (by decide) (Nat.lt_succ_self _), ?_, ?_⟩
    · rw [next]
      exact_mod_cast nearest.coarsen (by decide) (ten_pow_pos _)
    · rw [next]
      convert rounded using 1
      push_cast
      ring

end Decimal
end Printf
