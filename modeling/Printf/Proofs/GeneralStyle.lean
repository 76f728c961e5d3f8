import Printf.Proofs.FloatRounding

/-! The general conversion. One rounding, to significant digits, chooses the style and another, to
the decimals that are left, makes a text without an exponent. Both have their last digit in the same
place, where there is one nearest number, so that the text denotes the number that chose its style. -/
namespace Printf

/-- The digits of a numeral are those of its value in the place of the last of them. -/
theorem Numeral.readDigits_of_value {t : Numeral} {N : Nat} {unit : Int}
    (place : t.exponent.elim 0 Exponent.value - t.fraction.length = unit)
    (value : t.value .decimal = N * 10 ^ unit) : readDigits 10 false (t.whole ++ t.fraction) = N := by
  have split : t.value .decimal = readDigits 10 false (t.whole ++ t.fraction) * 10 ^ unit := by
    rw [← place, zpow_sub₀ (by norm_num), zpow_natCast]
    have unfolded : t.value .decimal = readDigits 10 false (t.whole ++ t.fraction) /
      10 ^ t.fraction.length * 10 ^ t.exponent.elim 0 Exponent.value := rfl
    rw [unfolded]
    ring
  rw [split] at value
  exact_mod_cast mul_right_cancel₀ (ten_pow_pos unit).ne' value

theorem length_digits_of_bounds {P D : Nat} (low : 10 ^ P ≤ D) (high : D < 10 ^ (P + 1)) :
    (Nat.digits 10 D).length = P + 1 := by
  apply le_antisymm
  · exact (Nat.digits_length_le_iff (by decide) D).mpr high
  · exact (Nat.lt_digits_length_iff (by decide) D).mpr low

namespace FloatStyle

/-- The numeral of the general conversion for `places + 1` significant digits. -/
def generalNumeral (x : Binary64) (places : Nat) (alt upper : Bool) : Numeral :=
  if roundedExponent x places < -4 ∨ roundedExponent x places ≥ (places + 1 : Nat) then
    scientificNumeral x places (!alt) alt upper
  else fixedNumeral x (places - roundedExponent x places).toNat (!alt) alt

variable (x : Binary64) (places : Nat) (alt upper : Bool)

theorem general_text : (general x.magnitude (places + 1) alt upper).radixMark ++
    Output.toList (body x (general x.magnitude (places + 1) alt upper)) =
      (generalNumeral x places alt upper).text := by
  have places_eq : places + 1 - 1 = places := rfl
  have behind : ((places + 1 : Nat) : Int) - 1 - roundedExponent x places =
      places - roundedExponent x places := by omega
  rw [general, places_eq, ← roundedExponent, generalNumeral, behind]
  split
  · exact body_scientific _ _ _ _ _
  · exact body_fixed _ _ _ _

theorem generalNumeral_wellFormed : (generalNumeral x places alt upper).WellFormed .decimal := by
  rw [generalNumeral]
  split
  · exact scientificNumeral_wellFormed _ _ _ _ _
  · exact fixedNumeral_wellFormed _ _ _ _

theorem generalNumeral_style :
    if roundedExponent x places < -4 ∨ roundedExponent x places ≥ (places + 1 : Nat) then
      (generalNumeral x places alt upper).Scientific upper (roundedExponent x places)
    else (generalNumeral x places alt upper).exponent = none := by
  rw [generalNumeral]
  split
  · exact (scientificNumeral_scientific _ _ _ _ _).1
  · rfl

/-- Without the alternative form there is no zero at the end of a fraction, and no bare point. -/
theorem generalNumeral_stripped :
    ((generalNumeral x places false upper).point = true ↔
      (generalNumeral x places false upper).fraction ≠ []) ∧
    (generalNumeral x places false upper).fraction.getLast? ≠ some (byte '0') := by
  rw [generalNumeral]
  split
  · exact numeral_stripped _ _ _
  · exact numeral_stripped _ _ _

/-- In the alternative form all digits are kept, up to the last significant one. -/
theorem generalNumeral_kept : (generalNumeral x places true upper).point = true ∧
    (generalNumeral x places true upper).exponent.elim 0 Exponent.value -
      (generalNumeral x places true upper).fraction.length = roundedExponent x places - places := by
  rw [generalNumeral, Bool.not_true]
  split
  · obtain ⟨length, point⟩ := scientificNumeral_unstripped x places true upper
    obtain ⟨⟨-, e, found, -, -, value, -⟩, -⟩ :=
      scientificNumeral_scientific x places false true upper
    refine ⟨point.mpr (Or.inr rfl), ?_⟩
    rw [Option.mem_def.mp found, Option.elim_some, value, length]
  · next fixed =>
    obtain ⟨length, point⟩ :=
      fixedNumeral_unstripped x (places - roundedExponent x places).toNat true
    have none : (fixedNumeral x (places - roundedExponent x places).toNat false true).exponent =
      none := rfl
    refine ⟨point.mpr (Or.inr rfl), ?_⟩
    rw [length, none, Option.elim_none]
    omega

variable {x} (finite : x.isFinite = true)

include finite

theorem generalNumeral_value : ∃ D : Nat,
    Nearest |x.toRat| (10 ^ (roundedExponent x places - places)) D ∧
    Significant (places + 1) |x.toRat| (D * 10 ^ (roundedExponent x places - places)) ∧
    (generalNumeral x places alt upper).value .decimal =
      D * 10 ^ (roundedExponent x places - places) ∧
    (x.isZero = true → D = 0 ∧ roundedExponent x places = 0) ∧
    (x.isZero = false → 10 ^ places ≤ D ∧ D < 10 ^ (places + 1)) := by
  obtain ⟨D, nearest, significant, value, zero, nonzero⟩ :=
    exists_roundedDigits finite places (!alt) alt upper
  refine ⟨D, nearest, significant, ?_, zero, nonzero⟩
  rw [generalNumeral]
  split
  · exact value
  · next fixed =>
    -- the last digit has the same place in both styles
    obtain ⟨N, nearest', value'⟩ := fixedNumeral_value finite
      (places - roundedExponent x places).toNat (!alt) alt
    have unit : -((places - roundedExponent x places).toNat : Int) =
        roundedExponent x places - places := by omega
    rw [unit] at nearest' value'
    rw [value', nearest'.unique nearest (ten_pow_pos _)]

/-- In the alternative form there are as many significant digits as asked for. Zero has none, and all
but one of its digits stand behind the point. -/
theorem generalNumeral_significant : if x.isZero then
      (generalNumeral x places true upper).fraction.length = places
    else (((generalNumeral x places true upper).whole ++
      (generalNumeral x places true upper).fraction).dropWhile (· == byte '0')).length =
        places + 1 := by
  obtain ⟨D, -, -, value, zero, nonzero⟩ := generalNumeral_value places true upper finite
  obtain ⟨-, place⟩ := generalNumeral_kept x places upper
  split
  · next none =>
    obtain ⟨-, origin⟩ := zero none
    have style := generalNumeral_style x places true upper
    rw [origin] at style place
    rw [if_neg (by omega)] at style
    rw [style, Option.elim_none] at place
    omega
  · next some =>
    obtain ⟨low, high⟩ := nonzero (Bool.not_eq_true _ ▸ some)
    have digits : IsDigits 10 false _ := (generalNumeral_wellFormed x places true upper).digits
    rw [digits.length_significant (by decide), Numeral.readDigits_of_value place value,
      length_digits_of_bounds low high]

end FloatStyle

/-- The general conversion writes the number rounded to significant digits, and `X` is the decimal
exponent that it has then. The exponent is written where `X` is below -4 or the significant digits
end in front of the point; elsewhere the number is rounded once more, to the place of the last
significant digit, and that gives the same number. Zeros at the end of a fraction are dropped, or
kept up to the precision in the alternative form. -/
theorem general_writes_rounded {features : Features} {p : Directive.Spelling} {d : Directive}
    (denotes : p.Denotes features d) (args : List Arg) {a : Arg} {x : Binary64}
    (value : args[d.width.slots + d.precision.slots]? = some a) (number : a.float? = some x)
    (finite : x.isFinite = true) (kind : d.conversion = .general) :
    let P := max ((d.resolve (.ofList args)).1.precision.getD 6) 1
    ∃ (R : ℚ) (X : Int) (t : Numeral),
      p.unpadded features d args = signBytes x.negative d.flags ++ t.text ∧
      t.WellFormed .decimal ∧
      Significant P |x.toRat| R ∧
      (if x.isZero then X = 0 else (10 : ℚ) ^ X ≤ R ∧ R < 10 ^ (X + 1)) ∧
      t.value .decimal = R ∧
      (if X < -4 ∨ X ≥ P then t.Scientific (d.letterCase == .upper) X else t.exponent = none) ∧
      (∃ D : Nat, Nearest |x.toRat| (10 ^ (X + 1 - P)) D ∧ R = D * 10 ^ (X + 1 - P)) ∧
      (d.flags.altForm = false →
        (t.point = true ↔ t.fraction ≠ []) ∧ t.fraction.getLast? ≠ some (byte '0')) ∧
      (d.flags.altForm = true → t.point = true ∧
        if x.isZero then t.fraction.length = P - 1
        else ((t.whole ++ t.fraction).dropWhile (· == byte '0')).length = P) := by
  intro P
  obtain ⟨places, digits⟩ : ∃ places, P = places + 1 := Nat.exists_eq_add_one.mpr (by omega)
  have isFloat : d.conversion.isFloat = true := by rw [kind]; rfl
  have style : FloatStyle.ofSpec x.magnitude (d.resolve (.ofList args)).1 =
      .general x.magnitude (places + 1) d.flags.altForm (d.letterCase == .upper) := by
    rw [FloatStyle.ofSpec, d.resolve_conversion, kind, d.resolve_altForm, d.resolve_isUpper, ← digits]
    rfl
  have text := unpadded_float denotes value number finite isFloat style
  rw [FloatStyle.general_text] at text
  obtain ⟨D, nearest, significant, same, zero, nonzero⟩ := FloatStyle.generalNumeral_value places
    d.flags.altForm (d.letterCase == .upper) finite
  have unit : FloatStyle.roundedExponent x places + 1 - (places + 1 : Nat) =
    FloatStyle.roundedExponent x places - places := by omega
  rw [digits]
  refine ⟨_, FloatStyle.roundedExponent x places, _, text,
    FloatStyle.generalNumeral_wellFormed _ _ _ _, significant, ?_, same,
    FloatStyle.generalNumeral_style _ _ _ _, ⟨D, ?_, ?_⟩, ?_, ?_⟩
  · split
    · next none => exact (zero none).2
    · next some =>
      obtain ⟨low, high⟩ := nonzero (Bool.not_eq_true _ ▸ some)
      exact ten_pow_digits low high _
  · rw [unit]
    exact nearest
  · rw [unit]
  · intro plain
    rw [plain]
    exact FloatStyle.generalNumeral_stripped _ _ _
  · intro alt
    rw [alt]
    exact ⟨(FloatStyle.generalNumeral_kept _ _ _).1,
      FloatStyle.generalNumeral_significant places _ finite⟩

/-- `%#G` of 999999.5 rounds to seven digits, and so chooses the style with an exponent. -/
theorem general_writes_rounded_carry :
    let p : Directive.Spelling := ⟨[byte '#'], [], [], [], byte 'G'⟩
    let d : Directive := ⟨⟨false, false, false, true, false⟩, .unset, .unset, .none, .general, .upper⟩
    let x : Binary64 := ⟨0x412e847f00000000⟩
    p.Denotes ⟨true, true⟩ d ∧ x.isFinite = true ∧
    ∃ (R : ℚ) (t : Numeral), p.unpadded ⟨true, true⟩ d [.float x] = t.text ∧
      t.text = utf8 "1.00000E+06" ∧ Significant 6 |x.toRat| R ∧ t.value .decimal = R := by
  intro p d x
  have denotes : p.Denotes ⟨true, true⟩ d :=
    { flags := (Directive.flagText_iff _ _).mpr ⟨List.forall_mem_singleton.mpr (by decide), rfl⟩
      width := .absent
      precision := .absent
      length := .absent
      letter := .upperGeneral rfl
      flagsMaximal := Directive.stops_cons.mpr (by decide)
      widthMaximal := Directive.stops_cons.mpr (by decide)
      precisionMaximal := Directive.stops_cons.mpr (by decide) }
  have finite : x.isFinite = true := by decide
  obtain ⟨R, X, t, text, -, rounded, -, value, -⟩ :=
    general_writes_rounded denotes [.float x] rfl rfl finite rfl
  have plain : signBytes x.negative d.flags = [] := by decide
  have written : p.unpadded ⟨true, true⟩ d [.float x] = utf8 "1.00000E+06" := by decide +kernel
  rw [plain] at text
  exact ⟨denotes, finite, R, t, text, text.symm.trans written, rounded, value⟩

end Printf
