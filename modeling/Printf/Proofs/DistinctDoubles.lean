import Printf.Proofs.GeneralStyle

/-! Seventeen digits tell doubles apart. Rounding to so many digits moves a number by less than half
the distance to its neighbours, so that the value of a numeral determines the magnitude that it was
rounded from; the sign in front determines the rest. -/
namespace Printf

/-- Rounding to significant digits moves a number by a small part of itself. -/
theorem Significant.error {p : Nat} {q R : ℚ} (rounded : Significant p q R) :
    |q - R| ≤ q * 10 ^ (1 - p : Int) / 2 := by
  cases rounded with
  | zero none zero => rw [none, zero, sub_self, abs_zero, zero_mul, zero_div]
  | positive k n low high nearest value =>
    have unit : (10 : ℚ) ^ (k + 1 - p) = 10 ^ k * 10 ^ (1 - p : Int) := by
      rw [← zpow_add₀ (by norm_num), add_sub_assoc]
    have small := mul_le_mul_of_nonneg_right low (ten_pow_pos (1 - p)).le
    have near := nearest.near
    rw [value]
    linarith

namespace Binary64

variable {p : Nat} {x y : Binary64}

/-- A larger double is at least a unit away. The error of the digits is a smaller part of a number
than a unit is, since a double has less than 2 ^ 53 units. -/
theorem abs_le_of_significant (enough : 17 ≤ p) (finite : y.isFinite = true) {R : ℚ}
    (rounded : Significant p |x.toRat| R) (rounded' : Significant p |y.toRat| R) :
    |y.toRat| ≤ |x.toRat| := by
  by_contra less
  have apart := add_unit_le_abs finite (not_le.mp less)
  have few := x.abs_toRat_lt
  rw [zpow_add₀ (by norm_num)] at few
  have unit := two_pow_pos x.scale
  have positive := ten_pow_pos (1 - p)
  have relative : (10 : ℚ) ^ (1 - p : Int) ≤ 1 / 10 ^ 16 := by
    have least : (10 : ℚ) ^ (1 - p : Int) ≤ 10 ^ (-16 : Int) :=
      zpow_le_zpow_right₀ (by norm_num) (by omega)
    exact least.trans (by norm_num)
  have error := (abs_le.mp rounded.error).1
  have error' := (abs_le.mp rounded'.error).2
  generalize (10 : ℚ) ^ (1 - p : Int) = ε at positive relative error error'
  have close : |y.toRat| * (1 - ε / 2) ≤ |x.toRat| * (1 + ε / 2) := by linarith
  have far := mul_le_mul_of_nonneg_right apart (show 0 ≤ 1 - ε / 2 by linarith)
  have part := mul_lt_mul_of_pos_right few positive
  have small := mul_le_mul_of_nonneg_left relative unit.le
  norm_num at part
  linarith

theorem eq_of_significant (enough : 17 ≤ p) (finite : x.isFinite = true) (finite' : y.isFinite = true)
    (sign : x.negative = y.negative) {R : ℚ} (rounded : Significant p |x.toRat| R)
    (rounded' : Significant p |y.toRat| R) : x = y :=
  eq_of_abs_eq finite finite' sign (le_antisymm (abs_le_of_significant enough finite rounded' rounded)
    (abs_le_of_significant enough finite' rounded rounded'))

end Binary64

/-- The text of a decimal numeral begins with a digit. -/
theorem Numeral.WellFormed.digit {t : Numeral} (form : t.WellFormed .decimal) :
    ∃ b rest, t.text = b :: rest ∧ isDigit b = true := by
  obtain ⟨b, rest, whole⟩ := List.exists_cons_of_ne_nil form.whole
  have member : b ∈ t.whole ++ t.fraction := by
    rw [whole]
    exact List.mem_cons_self
  exact ⟨b, _, by rw [Numeral.text, whole, List.cons_append], form.digits.isDigit b member⟩

/-- A number is written as a sign and a decimal numeral for it rounded to significant digits. -/
def WritesSignificant (p : Nat) (flags : Flags) (x : Binary64) (text : Bytes) : Prop :=
  ∃ t : Numeral, text = signBytes x.negative flags ++ t.text ∧ t.WellFormed .decimal ∧
    Significant p |x.toRat| (t.value .decimal)

/-- Of seventeen digits, a text is that of one double. -/
theorem WritesSignificant.unique {p : Nat} (enough : 17 ≤ p) {flags : Flags} {x y : Binary64}
    (finite : x.isFinite = true) (finite' : y.isFinite = true) {text : Bytes}
    (writes : WritesSignificant p flags x text) (writes' : WritesSignificant p flags y text) :
    x = y := by
  obtain ⟨t, written, form, rounded⟩ := writes
  obtain ⟨u, written', form', rounded'⟩ := writes'
  obtain ⟨sign, same⟩ := signBytes_cancel form.digit form'.digit (written.symm.trans written')
  obtain rfl := Numeral.text_injective form form' same
  exact Binary64.eq_of_significant enough finite finite' sign rounded rounded'

def Directive.Spelling.precise (flags : Bytes) (precision : Nat) (letter : UInt8) : Spelling :=
  ⟨flags, [], byte '.' :: Radix.decimal precision, [], letter⟩

section
variable {features : Features} {flags : Bytes} {P : Nat} {letter : UInt8} {c : Conversion}
  {k : LetterCase}

theorem Directive.precise_denotes (flagged : ∀ b ∈ flags, b ∈ utf8 "-+ #0")
    (isLetter : Letter features letter c k) : (Spelling.precise flags P letter).Denotes features
      ⟨flagsOf flags, .unset, .fixed (min P maxField), .none, c, k⟩ := by
  apply Spelling.denotes_of_parts flagged .absent (fun zero => by cases zero) ?_ .absent isLetter
  have digits := PrecisionText.digits (Radix.decimal P) (Radix.isDigit_decimal P)
  rwa [decimalValue_decimal] at digits

variable (flagged : ∀ b ∈ flags, b ∈ utf8 "-+ #0") {x : Binary64} (finite : x.isFinite = true)

include flagged finite

/-- The exponent conversion writes one digit more than its precision. -/
theorem exponent_writes (isLetter : Directive.Letter features letter .exponent k) :
    WritesSignificant (min P maxField + 1) (Directive.flagsOf flags) x
      (content features (Directive.Spelling.precise flags P letter).text [.float x]) := by
  have given : [Arg.float x][0]? = some (.float x) := rfl
  have text := unpadded_float (Directive.precise_denotes (P := P) flagged isLetter) given rfl finite
    rfl rfl
  exact ⟨_, text.trans (congrArg _ (FloatStyle.body_scientific _ _ _ _ _)),
    FloatStyle.scientificNumeral_wellFormed _ _ _ _ _,
    FloatStyle.scientificNumeral_value finite _ _ _ _⟩

/-- The general conversion writes as many digits as its precision, in either style. -/
theorem general_writes (positive : 0 < P)
    (isLetter : Directive.Letter features letter .general k) :
    WritesSignificant (min P maxField) (Directive.flagsOf flags) x
      (content features (Directive.Spelling.precise flags P letter).text [.float x]) := by
  have given : [Arg.float x][0]? = some (.float x) := rfl
  have text := unpadded_float (Directive.precise_denotes (P := P) flagged isLetter) given rfl finite
    rfl rfl
  obtain ⟨places, digits⟩ : ∃ places, min P maxField = places + 1 :=
    Nat.exists_eq_add_one.mpr (by rw [maxField]; omega)
  have asked : max (min P maxField) 1 = places + 1 := by omega
  have style : FloatStyle.ofSpec x.magnitude (Directive.resolve
      ⟨Directive.flagsOf flags, .unset, .fixed (min P maxField), .none, .general, k⟩
      (.ofList [.float x])).1 =
      .general x.magnitude (places + 1) (Directive.flagsOf flags).altForm (k == .upper) := by
    rw [← asked]
    rfl
  obtain ⟨D, -, significant, value, -⟩ := FloatStyle.generalNumeral_value places
    (Directive.flagsOf flags).altForm (k == .upper) finite
  rw [style, FloatStyle.general_text] at text
  rw [digits]
  exact ⟨_, text, FloatStyle.generalNumeral_wellFormed _ _ _ _, value ▸ significant⟩

end

/-- With sixteen digits or more behind the first, different finite doubles have different texts, and
so have the two zeros. This holds with all flags, and with as many digits for the general conversion,
which drops zeros and chooses between two styles. -/
theorem seventeen_digits_identify {features : Features} (floats : features.float = true) {P : Nat}
    (enough : 16 ≤ P) {flags : Bytes} (flagged : ∀ b ∈ flags, b ∈ utf8 "-+ #0") {x y : Binary64}
    (finite : x.isFinite = true) (finite' : y.isFinite = true) (different : x.bits ≠ y.bits)
    (upper : Bool) :
    let exponent := Directive.Spelling.precise flags P (if upper then byte 'E' else byte 'e')
    let general := Directive.Spelling.precise flags (P + 1) (if upper then byte 'G' else byte 'g')
    content features exponent.text [.float x] ≠ content features exponent.text [.float y] ∧
    content features general.text [.float x] ≠ content features general.text [.float y] := by
  intro exponent general
  have isExponent : Directive.Letter features (if upper then byte 'E' else byte 'e') .exponent
      (if upper then .upper else .lower) := by
    cases upper
    · exact .exponent floats
    · exact .upperExponent floats
  have isGeneral : Directive.Letter features (if upper then byte 'G' else byte 'g') .general
      (if upper then .upper else .lower) := by
    cases upper
    · exact .general floats
    · exact .upperGeneral floats
  constructor
  · intro same
    have writes := exponent_writes (P := P) flagged finite isExponent
    have writes' := same ▸ exponent_writes (P := P) flagged finite' isExponent
    exact different (congrArg _ (writes.unique (by rw [maxField]; omega) finite finite' writes'))
  · intro same
    have writes := general_writes flagged finite (Nat.succ_pos P) isGeneral
    have writes' := same ▸ general_writes flagged finite' (Nat.succ_pos P) isGeneral
    exact different (congrArg _ (writes.unique (by rw [maxField]; omega) finite finite' writes'))

/-- The double that 0.1 is read as and the next one have different texts. -/
theorem seventeen_digits_identify_neighbours :
    let x : Binary64 := ⟨0x3fb999999999999a⟩
    let y : Binary64 := ⟨0x3fb999999999999b⟩
    content ⟨true, true⟩ (utf8 "%.16e") [.float x] = utf8 "1.0000000000000001e-01" ∧
    content ⟨true, true⟩ (utf8 "%.16e") [.float x] ≠ content ⟨true, true⟩ (utf8 "%.16e") [.float y] ∧
    content ⟨true, true⟩ (utf8 "%.17g") [.float x] ≠
      content ⟨true, true⟩ (utf8 "%.17g") [.float y] := by
  intro x y
  have written : content ⟨true, true⟩ (utf8 "%.16e") [.float x] = utf8 "1.0000000000000001e-01" := by
    decide +kernel
  have exponent : utf8 "%.16e" = (Directive.Spelling.precise [] 16 (byte 'e')).text := by
    decide +kernel
  have general : utf8 "%.17g" = (Directive.Spelling.precise [] 17 (byte 'g')).text := by
    decide +kernel
  have apart := @seventeen_digits_identify ⟨true, true⟩ rfl 16 (le_refl 16) [] (List.forall_mem_nil _)
    x y (by decide) (by decide) (by decide) false
  rw [exponent] at written ⊢
  rw [general]
  exact ⟨written, apart⟩

end Printf
