import Printf.Proofs.FloatText

/-! Correct rounding at every precision. A double has no digits past the exact places, so that a
number rounded there is the number itself and the zeros written behind it are its true digits. -/
namespace Printf

namespace Binary64

variable {x : Binary64}

/-- The digits written for a number of places are the nearest ones, also past the exact places. -/
theorem fixed_nearest (finite : x.isFinite = true) (P : Nat) :
    ∃ n : Nat, Nearest |x.toRat| (10 ^ (-P : Int)) n ∧
      ((x.magnitude.timesPow 10 (min P exactPlaces : Nat)).round : ℚ) *
        10 ^ (-(min P exactPlaces : Nat) : Int) = n * 10 ^ (-P : Int) := by
  have nearest := (x.magnitude.timesPow 10 (min P exactPlaces : Nat)).round_nearest.mul
    (ten_pow_pos (-(min P exactPlaces : Nat)))
  rw [Ratio.toRat_timesPow, toRat_magnitude, Nat.cast_ofNat, mul_assoc, ← zpow_add₀ (by norm_num),
    add_neg_cancel, zpow_zero, mul_one, one_mul] at nearest
  generalize (x.magnitude.timesPow 10 (min P exactPlaces : Nat)).round = m at nearest ⊢
  by_cases few : P ≤ exactPlaces
  · rw [Nat.min_eq_left few] at nearest ⊢
    exact ⟨m, nearest, rfl⟩
  · have many := Nat.le_of_not_le few
    rw [Nat.min_eq_right many] at nearest ⊢
    obtain ⟨n, exact⟩ := exists_decimals finite
    obtain rfl : m = n := nearest.unique (.of_eq (ten_pow_pos _) exact) (ten_pow_pos _)
    have value := ten_pow_refine many m 0
    rw [zero_sub, zero_sub] at value
    exact ⟨_, .of_eq (ten_pow_pos _) (exact.trans value), value⟩

/-- So many significant digits are all that there are. -/
theorem significant_exact (finite : x.isFinite = true) {R : ℚ}
    (rounded : Significant (exactPlaces + 1) |x.toRat| R) : R = |x.toRat| := by
  cases rounded with
  | zero none zero => rw [none, zero]
  | positive k n low high nearest value =>
    obtain ⟨m, exact⟩ := exists_digits finite low
    have unit : k + 1 - (exactPlaces + 1 : Nat) = k - 1100 := by
      rw [exactPlaces]
      push_cast
      ring
    rw [unit] at nearest value
    rw [value, exact, nearest.unique (.of_eq (ten_pow_pos _) exact) (ten_pow_pos _)]

/-- The digits written for a number of significant digits are the nearest ones, also past the exact
places. -/
theorem scientific_digits (finite : x.isFinite = true) (nonzero : x.isZero = false) (P : Nat) :
    let s := Decimal.scientific x.magnitude (min P exactPlaces)
    ∃ D : Nat, 10 ^ P ≤ D ∧ D < 10 ^ (P + 1) ∧ Nearest |x.toRat| (10 ^ (s.exponent - P)) D ∧
      Significant (P + 1) |x.toRat| (D * 10 ^ (s.exponent - P)) ∧
      (s.digits : ℚ) * 10 ^ (s.exponent - (min P exactPlaces : Nat)) = D * 10 ^ (s.exponent - P) := by
  have rounded := Decimal.scientific_nearest x.magnitude (magnitude_pos nonzero) (min P exactPlaces)
  rw [toRat_magnitude] at rounded
  by_cases few : P ≤ exactPlaces
  · rw [Nat.min_eq_left few] at rounded ⊢
    obtain ⟨low, high, nearest, significant⟩ := rounded
    exact ⟨_, low, high, nearest, significant, rfl⟩
  · have many := Nat.le_of_not_le few
    rw [Nat.min_eq_right many] at rounded ⊢
    obtain ⟨low, high, -, significant⟩ := rounded
    generalize Decimal.scientific x.magnitude exactPlaces = s at low high significant ⊢
    have value := ten_pow_refine many s.digits s.exponent
    obtain ⟨k, rfl⟩ := Nat.exists_eq_add_of_le many
    rw [Nat.add_sub_cancel_left] at value
    have least : 10 ^ (exactPlaces + k) ≤ s.digits * 10 ^ k := by
      rw [pow_add]
      exact Nat.mul_le_mul_right _ low
    have most : s.digits * 10 ^ k < 10 ^ (exactPlaces + k + 1) := by
      rw [Nat.add_right_comm, pow_add]
      exact Nat.mul_lt_mul_of_pos_right high (by positivity)
    have exact : |x.toRat| = (s.digits * 10 ^ k : Nat) * 10 ^ (s.exponent - (exactPlaces + k : Nat)) :=
      (significant_exact finite significant).symm.trans value
    refine ⟨_, least, most, .of_eq (ten_pow_pos _) exact, ?_, value⟩
    rw [← exact]
    exact .of_eq least most exact

end Binary64

namespace FloatStyle

variable {x : Binary64} (finite : x.isFinite = true) (places : Nat) (strip point upper : Bool)

include finite

theorem fixedNumeral_value : ∃ n : Nat, Nearest |x.toRat| (10 ^ (-places : Int)) n ∧
    (fixedNumeral x places strip point).value .decimal = n * 10 ^ (-places : Int) := by
  obtain ⟨n, nearest, same⟩ := Binary64.fixed_nearest finite places
  refine ⟨n, nearest, ?_⟩
  rw [fixedNumeral, numeral_value, Option.elim_none, zero_sub, same]

/-- The digits of the number rounded to significant digits, with the place of the last one. Zero has
none, and its exponent is zero. -/
theorem exists_roundedDigits : ∃ D : Nat,
    Nearest |x.toRat| (10 ^ (roundedExponent x places - places)) D ∧
    Significant (places + 1) |x.toRat| (D * 10 ^ (roundedExponent x places - places)) ∧
    (scientificNumeral x places strip point upper).value .decimal =
      D * 10 ^ (roundedExponent x places - places) ∧
    (x.isZero = true → D = 0 ∧ roundedExponent x places = 0) ∧
    (x.isZero = false → 10 ^ places ≤ D ∧ D < 10 ^ (places + 1)) := by
  rw [scientificNumeral, numeral_value, Option.elim_some, roundedExponent]
  cases zero : x.isZero with
  | true =>
    have none := (Binary64.abs_toRat_eq_zero x).mpr zero
    rw [Binary64.scientific_zero zero]
    refine ⟨0, .of_eq (ten_pow_pos _) ?_, .zero none ?_, ?_, fun _ => ⟨rfl, rfl⟩, ?_⟩
    · rw [none, Nat.cast_zero, zero_mul]
    · rw [Nat.cast_zero, zero_mul]
    · rw [Nat.cast_zero, zero_mul, zero_mul]
    · intro other
      cases other
  | false =>
    obtain ⟨D, low, high, nearest, significant, value⟩ :=
      Binary64.scientific_digits finite zero places
    refine ⟨D, nearest, significant, value, ?_, fun _ => ⟨low, high⟩⟩
    intro other
    cases other

theorem scientificNumeral_value : Significant (places + 1) |x.toRat|
    ((scientificNumeral x places strip point upper).value .decimal) := by
  obtain ⟨D, -, significant, value, -⟩ := exists_roundedDigits finite places strip point upper
  rw [value]
  exact significant

end FloatStyle

/-- The fixed and the exponent conversion are correctly rounded at every precision, to so many
decimals and to so many digits behind the first. The text of the magnitude has exactly that many
digits behind its point, and a point if it has any or is forced to. Only zero has a zero for the
digit in front of an exponent. -/
theorem fixed_and_exponent_round_correctly {features : Features} {p : Directive.Spelling}
    {d : Directive} (denotes : p.Denotes features d) (args : List Arg) {a : Arg} {x : Binary64}
    (value : args[d.width.slots + d.precision.slots]? = some a) (number : a.float? = some x)
    (finite : x.isFinite = true) (kind : d.conversion = .fixed ∨ d.conversion = .exponent) :
    let P := (d.resolve (.ofList args)).1.precision.getD 6
    ∃ (sign : Bytes) (t : Numeral), p.unpadded features d args = sign ++ t.text ∧
      sign = (if x.negative then utf8 "-" else if d.flags.forceSign then utf8 "+"
        else if d.flags.spaceSign then utf8 " " else []) ∧
      t.WellFormed .decimal ∧
      t.fraction.length = P ∧
      (t.point = true ↔ 0 < P ∨ d.flags.altForm = true) ∧
      (t.whole.head? = some (byte '0') → t.whole.length = 1) ∧
      (d.conversion = .fixed → t.exponent = none ∧
        ∃ n : Nat, Nearest |x.toRat| (10 ^ (-P : Int)) n ∧ t.value .decimal = n * 10 ^ (-P : Int)) ∧
      (d.conversion = .exponent → (∃ X, t.Scientific (d.letterCase == .upper) X) ∧
        (t.whole.head? = some (byte '0') ↔ x.isZero = true) ∧
        Significant (P + 1) |x.toRat| (t.value .decimal)) := by
  intro P
  have isFloat : d.conversion.isFloat = true := by
    obtain fixed | exponent := kind
    · rw [fixed]; rfl
    · rw [exponent]; rfl
  obtain fixed | exponent := kind
  · have style : FloatStyle.ofSpec x.magnitude (d.resolve (.ofList args)).1 =
        .fixed P false d.flags.altForm := by
      rw [FloatStyle.ofSpec, d.resolve_conversion, fixed, d.resolve_altForm]
      rfl
    have text := unpadded_float denotes value number finite isFloat style
    rw [FloatStyle.body_fixed] at text
    obtain ⟨length, point⟩ := FloatStyle.fixedNumeral_unstripped x P d.flags.altForm
    refine ⟨_, _, text, rfl, FloatStyle.fixedNumeral_wellFormed _ _ _ _, length, point,
      FloatStyle.numeral_noZero _ _ _ _ _,
      fun _ => ⟨rfl, FloatStyle.fixedNumeral_value finite P _ _⟩, ?_⟩
    intro exponent
    rw [fixed] at exponent
    cases exponent
  · have style : FloatStyle.ofSpec x.magnitude (d.resolve (.ofList args)).1 =
        .scientific P false d.flags.altForm (d.letterCase == .upper) := by
      rw [FloatStyle.ofSpec, d.resolve_conversion, exponent, d.resolve_altForm, d.resolve_isUpper]
      rfl
    have text := unpadded_float denotes value number finite isFloat style
    rw [FloatStyle.body_scientific] at text
    obtain ⟨length, point⟩ := FloatStyle.scientificNumeral_unstripped x P d.flags.altForm
      (d.letterCase == .upper)
    obtain ⟨scientific, first⟩ :=
      FloatStyle.scientificNumeral_scientific x P false d.flags.altForm (d.letterCase == .upper)
    have rounded := FloatStyle.scientificNumeral_value finite P false d.flags.altForm
      (d.letterCase == .upper)
    refine ⟨_, _, text, rfl, FloatStyle.scientificNumeral_wellFormed _ _ _ _ _, length, point,
      FloatStyle.numeral_noZero _ _ _ _ _, ?_, fun _ => ⟨⟨_, scientific⟩, first, rounded⟩⟩
    intro fixed
    rw [exponent] at fixed
    cases fixed

/-- For 9.5, half way between two numbers of one digit, `%.0e` takes the even one, which carries into
the exponent. -/
theorem fixed_and_exponent_round_correctly_carry :
    let p : Directive.Spelling := ⟨[], [], utf8 ".0", [], byte 'e'⟩
    let d : Directive := ⟨{}, .unset, .fixed 0, .none, .exponent, .lower⟩
    let x : Binary64 := ⟨0x4023000000000000⟩
    p.Denotes ⟨true, true⟩ d ∧ x.isFinite = true ∧
    ∃ t : Numeral, p.unpadded ⟨true, true⟩ d [.float x] = t.text ∧ t.text = utf8 "1e+01" ∧
      Significant 1 |x.toRat| (t.value .decimal) := by
  intro p d x
  have denotes : p.Denotes ⟨true, true⟩ d :=
    { flags := (Directive.flagText_iff _ _).mpr ⟨List.forall_mem_nil _, rfl⟩
      width := .absent
      precision := .digits [byte '0'] (List.forall_mem_singleton.mpr (by decide))
      length := .absent
      letter := .exponent rfl
      flagsMaximal := Directive.stops_cons.mpr (by decide)
      widthMaximal := Directive.stops_cons.mpr (by decide)
      precisionMaximal := Directive.stops_cons.mpr (by decide) }
  have finite : x.isFinite = true := by decide
  obtain ⟨sign, t, text, plain, -, -, -, -, -, each⟩ :=
    fixed_and_exponent_round_correctly denotes [.float x] rfl rfl finite (Or.inr rfl)
  have positive : x.negative = false := by decide
  have written : p.unpadded ⟨true, true⟩ d [.float x] = utf8 "1e+01" := by decide +kernel
  rw [plain, positive] at text
  exact ⟨denotes, finite, t, text, text.symm.trans written, (each rfl).2.2⟩

end Printf
