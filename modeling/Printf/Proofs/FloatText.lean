import Printf.Proofs.DoubleValue
import Printf.Proofs.Reshaping

/-! Texts of finite numbers in parts. Behind the sign and the mark stands the layout that the
conversion asks for; a decimal one is the numeral of a whole number with so many of its digits behind
the point, of which those past the exact places are zeros. -/
namespace Printf

/-- The text of a finite number is its sign, its mark and the body of its layout. -/
theorem unpadded_float {features : Features} {p : Directive.Spelling} {d : Directive}
    (denotes : p.Denotes features d) {args : List Arg} {a : Arg} {x : Binary64}
    (value : args[d.width.slots + d.precision.slots]? = some a) (number : a.float? = some x)
    (finite : x.isFinite = true) (kind : d.conversion.isFloat = true) {style : FloatStyle}
    (chosen : FloatStyle.ofSpec x.magnitude (d.resolve (.ofList args)).1 = style) :
    p.unpadded features d args =
      signBytes x.negative d.flags ++ (style.radixMark ++ Output.toList (style.body x)) := by
  have printed : d.conversion ≠ .percent := by
    intro percent
    rw [percent] at kind
    cases kind
  have made : (d.resolve (.ofList args)).1.image? a =
      some ((d.resolve (.ofList args)).1.floatImage x) := by
    rw [Spec.image?, d.resolve_conversion, number]
    revert kind
    cases d.conversion <;> simp [Conversion.isFloat]
  rw [unpadded_image denotes printed value made, Spec.floatImage, if_pos finite, chosen,
    d.resolve_signBytes, List.append_assoc]

namespace Decimal

def parts (n places : Nat) (exponent : Option Int) : Reshape.Parts where
  whole := Radix.decimal (n / 10 ^ places)
  fraction := if places = 0 then none else
    some ((Radix.lastDigits 10 places n).map (Radix.digitByte false))
  exponent := exponent.map fun k => (k < 0, Radix.decimal k.natAbs)

variable (n places : Nat) (exponent : Option Int)

theorem text_parts : (parts n places exponent).text = pointed n places ++
    exponent.elim [] fun k => byte 'e' :: ((if k < 0 then [byte '-'] else []) ++
      Radix.decimal k.natAbs) := by
  rw [Reshape.Parts.text, pointed, parts, ← List.append_assoc, Nat.pow_eq]
  congr 1
  · split <;> rfl
  · cases exponent with
    | none => rfl
    | some k => simp [Reshape.Parts.exponentText]

theorem fixedText_parts (r : Ratio) :
    fixedText r places = (parts (r.timesPow 10 places).round places none).text := by
  rw [text_parts, fixedText]
  exact (List.append_nil _).symm

theorem scientificText_parts (r : Ratio) : scientificText r places =
    (parts (scientific r places).digits places (some (scientific r places).exponent)).text := by
  rw [text_parts, scientificText, List.append_assoc]
  rfl

theorem isDigits_lastDigits :
    IsDigits 10 false ((Radix.lastDigits 10 places n).map (Radix.digitByte false)) :=
  isDigits_map (by decide) false (Radix.lastDigits_lt (by decide) places n)

theorem parts_digits : (parts n places exponent).AllDigits where
  whole := isDigits_decimal _
  fraction := by
    intro ds found
    rw [parts] at found
    split at found
    · cases found
    · cases found
      exact isDigits_lastDigits n places
  exponent := by
    intro e found
    obtain ⟨k, -, rfl⟩ := Option.map_eq_some_iff.mp found
    exact isDigits_decimal _

theorem fraction_parts : (parts n places exponent).fraction.getD [] =
    (Radix.lastDigits 10 places n).map (Radix.digitByte false) := by
  rw [parts]
  split
  · next none => rw [none]; rfl
  · rfl

theorem readDigits_parts : readDigits 10 false ((parts n places exponent).whole ++
    (parts n places exponent).fraction.getD []) = n := by
  have small := Radix.lastDigits_lt (b := 10) (by decide) places n
  rw [fraction_parts, parts, readDigits_append, readDigits_decimal, List.length_map,
    Radix.length_lastDigits, readDigits_map (fun d digit => by have := small d digit; omega),
    Radix.value_lastDigits, Nat.pow_eq]
  exact Nat.div_add_mod' n (10 ^ places)

theorem parts_value : (parts n places exponent).value = n * 10 ^ (exponent.getD 0 - places) := by
  have power : (parts n places exponent).exponent.elim (0 : Int) (fun e =>
      if e.1 then -(readDigits 10 false e.2 : Int) else readDigits 10 false e.2) =
      exponent.getD 0 := by
    cases exponent with
    | none => rfl
    | some k =>
      simp only [parts, Option.map_some, Option.elim_some, readDigits_decimal, Option.getD_some,
        decide_eq_true_eq]
      split <;> omega
  rw [Reshape.Parts.value, readDigits_parts, power, fraction_parts, List.length_map,
    Radix.length_lastDigits, zpow_sub₀ (by norm_num), zpow_natCast]
  ring

end Decimal

namespace FloatStyle

def numeral (n places : Nat) (strip point : Bool) (exponent : Option (UInt8 × Int)) : Numeral :=
  (Decimal.parts n (min places exactPlaces) (exponent.map (·.2))).numeral
    ⟨strip, point, exponent.map (·.1), tail places strip⟩

variable (n places : Nat) (strip point : Bool) (exponent : Option (UInt8 × Int))

theorem numeral_value : (numeral n places strip point exponent).value .decimal =
    n * 10 ^ (exponent.elim 0 (·.2) - (min places exactPlaces : Nat)) := by
  rw [numeral, Reshape.value_numeral (Decimal.parts_digits _ _ _), Decimal.parts_value]
  · cases exponent <;> rfl
  · cases exponent <;> rfl

/-- Zeros are appended only to a fraction that keeps its own and has all the exact places. -/
theorem tail_cases (exponent : Option Int) : tail places strip = 0 ∨
    strip = false ∧ (Decimal.parts n (min places exactPlaces) exponent).fraction.isSome = true := by
  cases strip with
  | true => exact Or.inl rfl
  | false =>
    by_cases few : places ≤ exactPlaces
    · exact Or.inl (Nat.sub_eq_zero_of_le few)
    · have some : min places exactPlaces ≠ 0 := by
        rw [exactPlaces] at few ⊢
        omega
      exact Or.inr ⟨rfl, by rw [Decimal.parts, if_neg some]; rfl⟩

theorem numeral_wellFormed (marker : ∀ e ∈ exponent, e.1 ∈ utf8 "eE") :
    (numeral n places strip point exponent).WellFormed .decimal := by
  apply Reshape.wellFormed_numeral (Decimal.parts_digits _ _ _) (Radix.decimal_ne_nil _)
    (tail_cases n places strip _)
  intro m found
  obtain ⟨e, some, rfl⟩ := Option.map_eq_some_iff.mp found
  exact marker e some

theorem numeral_exponent : (numeral n places strip point exponent).exponent =
    exponent.map fun e => ⟨e.1, e.2 < 0, Reshape.twoDigits e.2.natAbs⟩ := by
  cases exponent with
  | none => rfl
  | some e => simp [numeral, Reshape.Parts.numeral, Reshape.Options.exponent, Decimal.parts,
      Directive.decimalValue_decimal]

theorem numeral_unstripped :
    (numeral n places false point exponent).fraction.length = places ∧
    ((numeral n places false point exponent).point = true ↔ 0 < places ∨ point = true) := by
  constructor
  · have whole : min places exactPlaces + (places - exactPlaces) = places := by omega
    rw [numeral, Reshape.Parts.numeral, Reshape.fraction_kept rfl, Decimal.fraction_parts,
      List.length_append, List.length_map, Radix.length_lastDigits, zeros, List.length_replicate]
    exact whole
  · rw [numeral, Reshape.Parts.numeral, Reshape.pointed_kept rfl, Bool.or_eq_true, Decimal.parts,
      exactPlaces]
    split <;> simp <;> omega

theorem numeral_stripped :
    ((numeral n places true false exponent).point = true ↔
      (numeral n places true false exponent).fraction ≠ []) ∧
    (numeral n places true false exponent).fraction.getLast? ≠ some (byte '0') :=
  Reshape.fraction_stripped rfl rfl rfl _

theorem numeral_whole : (numeral n places strip point exponent).whole =
    Radix.decimal (n / 10 ^ min places exactPlaces) := rfl

theorem numeral_digit (few : n < 10 ^ (min places exactPlaces + 1)) :
    (numeral n places strip point exponent).whole.length = 1 ∧
    ((numeral n places strip point exponent).whole.head? = some (byte '0') ↔
      n < 10 ^ min places exactPlaces) := by
  have digit : n / 10 ^ min places exactPlaces < 10 := by
    apply Nat.div_lt_of_lt_mul
    rwa [← pow_succ]
  have one := (Nat.digits_length_le_iff (b := 10) (k := 1) (by decide) _).mpr digit
  rw [numeral_whole, length_decimal, Radix.head_decimal_iff, Nat.div_eq_zero_iff_lt (by positivity)]
  exact ⟨Nat.max_eq_left one, Iff.rfl⟩

/-- A zero stands alone in front of the point. -/
theorem numeral_noZero (zero : (numeral n places strip point exponent).whole.head? =
    some (byte '0')) : (numeral n places strip point exponent).whole.length = 1 := by
  rw [numeral_whole, Radix.head_decimal_iff] at zero
  rw [numeral_whole, zero]
  rfl

end FloatStyle

/-- One digit in front of the point, and the exponent with a sign and two digits at least. -/
structure Numeral.Scientific (t : Numeral) (upper : Bool) (X : Int) : Prop where
  whole : t.whole.length = 1
  exponent : ∃ e ∈ t.exponent, e.marker = (if upper then byte 'E' else byte 'e') ∧
    (e.negative = true ↔ X < 0) ∧ e.value = X ∧
    e.digits.length = max 2 (Nat.digits 10 X.natAbs).length

namespace FloatStyle

variable (x : Binary64) (places : Nat) (strip point upper : Bool)

def fixedNumeral : Numeral :=
  numeral (x.magnitude.timesPow 10 (min places exactPlaces : Nat)).round places strip point none

def roundedExponent : Int := (Decimal.scientific x.magnitude (min places exactPlaces)).exponent

def scientificNumeral : Numeral :=
  let s := Decimal.scientific x.magnitude (min places exactPlaces)
  numeral s.digits places strip point (some (if upper then byte 'E' else byte 'e', s.exponent))

theorem body_fixed : Output.toList (body x (.fixed places strip point)) =
    (fixedNumeral x places strip point).text := by
  rw [body, Decimal.fixedText_parts]
  exact Reshape.reshape_text _ (Decimal.parts_digits _ _ _)

theorem body_scientific : Output.toList (body x (.scientific places strip point upper)) =
    (scientificNumeral x places strip point upper).text := by
  rw [body, Decimal.scientificText_parts]
  exact Reshape.reshape_text _ (Decimal.parts_digits _ _ _)

theorem fixedNumeral_wellFormed : (fixedNumeral x places strip point).WellFormed .decimal := by
  apply numeral_wellFormed
  intro e none
  cases none

theorem scientificNumeral_wellFormed :
    (scientificNumeral x places strip point upper).WellFormed .decimal := by
  have letter : (if upper then byte 'E' else byte 'e') ∈ utf8 "eE" := by cases upper <;> decide
  apply numeral_wellFormed
  intro e found
  cases found
  exact letter

theorem fixedNumeral_unstripped : (fixedNumeral x places false point).fraction.length = places ∧
    ((fixedNumeral x places false point).point = true ↔ 0 < places ∨ point = true) :=
  numeral_unstripped _ _ _ _

theorem scientificNumeral_unstripped :
    (scientificNumeral x places false point upper).fraction.length = places ∧
    ((scientificNumeral x places false point upper).point = true ↔ 0 < places ∨ point = true) :=
  numeral_unstripped _ _ _ _

theorem scientificNumeral_scientific :
    (scientificNumeral x places strip point upper).Scientific upper (roundedExponent x places) ∧
    ((scientificNumeral x places strip point upper).whole.head? = some (byte '0') ↔
      x.isZero = true) := by
  rw [scientificNumeral, roundedExponent]
  generalize found : Decimal.scientific x.magnitude (min places exactPlaces) = s
  have shape : s.digits < 10 ^ (min places exactPlaces + 1) ∧
      (s.digits < 10 ^ min places exactPlaces ↔ x.isZero = true) := by
    cases zero : x.isZero with
    | true =>
      rw [← found, Binary64.scientific_zero zero]
      exact ⟨by positivity, iff_of_true (by positivity) rfl⟩
    | false =>
      obtain ⟨least, most, -⟩ := Decimal.scientific_nearest x.magnitude
        (Binary64.magnitude_pos zero) (min places exactPlaces)
      rw [found] at least most
      exact ⟨most, iff_of_false (Nat.not_lt.mpr least) Bool.false_ne_true⟩
  obtain ⟨few, zero⟩ := shape
  obtain ⟨one, first⟩ := numeral_digit s.digits places strip point
    (some (if upper then byte 'E' else byte 'e', s.exponent)) few
  obtain ⟨-, spelled, size⟩ := Reshape.twoDigits_spec s.exponent.natAbs
  exact ⟨⟨one, _, numeral_exponent _ _ _ _ _, rfl, decide_eq_true_iff,
    Exponent.value_of_natAbs _ spelled, size⟩, first.trans zero⟩

end FloatStyle
end Printf
