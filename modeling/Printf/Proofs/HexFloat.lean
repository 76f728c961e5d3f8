import Printf.Proofs.FloatText

/-! The hexadecimal conversion. Its digits are those of the significand, as they are or rounded, and
its exponent is that of the leading digit. Without a precision the text determines the double. -/
namespace Printf

namespace Hex

def Digits.number (d : Digits) : Nat := d.lead * 16 ^ d.nibbles + d.fraction

/-- Digits of a fraction that has as many as it says, behind a leading digit of at most two. -/
structure Digits.Proper (d : Digits) : Prop where
  lead : d.lead ≤ 2
  fraction : d.fraction < 16 ^ d.nibbles

/-- Dropping zeros at the end of a fraction leaves the number as it is, in units of another size. -/
theorem trim_spec (lead k : Nat) {f : Nat} (small : f < 16 ^ k) :
    (trim lead k f).lead = lead ∧ (trim lead k f).nibbles ≤ k ∧
    f = (trim lead k f).fraction * 16 ^ (k - (trim lead k f).nibbles) ∧
    ((trim lead k f).nibbles ≠ 0 → (trim lead k f).fraction % 16 ≠ 0) := by
  induction k generalizing f with
  | zero => simp [trim]
  | succ k ih =>
    rw [trim]
    split
    · next zero =>
      obtain ⟨lead, few, value, last⟩ := ih (f := f / 16) (by omega)
      refine ⟨lead, Nat.le_succ_of_le few, ?_, last⟩
      rw [Nat.succ_sub few, pow_succ, ← mul_assoc, ← value]
      omega
    · next last => exact ⟨rfl, Nat.le_refl _, by simp, fun _ => last⟩

def numeral (x : Binary64) (precision : Option Nat) (point upper : Bool) : Numeral where
  whole := [Radix.digitByte upper (digits x precision).lead]
  point := 0 < (digits x precision).nibbles ∨ 0 < precision.getD 0 - fullNibbles ∨ point
  fraction := (Radix.lastDigits 16 (digits x precision).nibbles (digits x precision).fraction).map
    (Radix.digitByte upper) ++ zeros (precision.getD 0 - fullNibbles)
  exponent := some ⟨if upper then byte 'P' else byte 'p', exponent x < 0,
    Radix.decimal (exponent x).natAbs⟩

variable (x : Binary64) (precision : Option Nat) (point upper : Bool)

theorem body_text : Output.toList (body x precision point upper) =
    (numeral x precision point upper).text := by
  simp [body, numeral, Numeral.text, Exponent.text, Chunk.toList, zeros]

theorem significand_split : x.significand / Binary64.leadingBit ≤ 1 ∧
    x.significand / Binary64.leadingBit * 16 ^ 13 + x.fractionField = x.significand := by
  have small := x.fractionField_lt
  rw [Binary64.significand, Binary64.leadingBit]
  split <;> omega

theorem sixteen_zpow (k : Int) : (16 : ℚ) ^ k = 2 ^ (4 * k) := by
  rw [zpow_mul]
  norm_num

/-- The rounded significand of a precision that leaves digits out. -/
def rounded (p : Nat) : Nat := ((Ratio.ofNat x.significand).timesPow 16 (p - fullNibbles)).round

theorem rounded_nearest (p : Nat) :
    Nearest (x.significand * 16 ^ ((p : Int) - 13)) 1 (rounded x p) := by
  have nearest := ((Ratio.ofNat x.significand).timesPow 16 (p - fullNibbles)).round_nearest
  rw [Ratio.toRat_timesPow, Ratio.toRat_ofNat] at nearest
  exact nearest

theorem rounded_le (p : Nat) : rounded x p ≤ 2 * 16 ^ p := by
  apply (rounded_nearest x p).le one_pos
  have small : (x.significand : ℚ) ≤ 2 * 16 ^ (13 : Int) := by
    exact_mod_cast x.significand_lt.le
  have unit : (0 : ℚ) ≤ 16 ^ ((p : Int) - 13) := by positivity
  calc (x.significand : ℚ) * 16 ^ ((p : Int) - 13)
      ≤ 2 * 16 ^ (13 : Int) * 16 ^ ((p : Int) - 13) := mul_le_mul_of_nonneg_right small unit
    _ = (2 * 16 ^ p : Nat) * 1 := by
        rw [mul_assoc, ← zpow_add₀ (by norm_num), add_sub_cancel, zpow_natCast]
        push_cast
        ring

theorem digits_none : (digits x none).lead = x.significand / Binary64.leadingBit ∧
    (digits x none).nibbles ≤ 13 ∧
    x.fractionField = (digits x none).fraction * 16 ^ (13 - (digits x none).nibbles) ∧
    ((digits x none).nibbles ≠ 0 → (digits x none).fraction % 16 ≠ 0) :=
  trim_spec _ 13 x.fractionField_lt

theorem digits_few {p : Nat} (few : p < 13) :
    digits x (some p) = ⟨rounded x p / 16 ^ p, rounded x p % 16 ^ p, p⟩ := by
  exact if_pos few

theorem digits_many {p : Nat} (many : 13 ≤ p) :
    digits x (some p) = ⟨x.significand / Binary64.leadingBit, x.fractionField, 13⟩ := by
  exact if_neg (Nat.not_lt.mpr many)

theorem digits_proper : (digits x precision).Proper := by
  have small := x.fractionField_lt
  obtain ⟨one, -⟩ := significand_split x
  cases precision with
  | none =>
    obtain ⟨lead, few, value, -⟩ := digits_none x
    have split : 16 ^ 13 = 16 ^ (digits x none).nibbles * 16 ^ (13 - (digits x none).nibbles) := by
      rw [← pow_add, Nat.add_sub_cancel' few]
    constructor
    · exact lead.trans_le (Nat.le_succ_of_le one)
    · rw [value] at small
      exact Nat.lt_of_mul_lt_mul_right (small.trans_eq split)
  | some p =>
    by_cases few : p < 13
    · rw [digits_few x few]
      constructor
      · apply Nat.div_le_of_le_mul
        rw [mul_comm]
        exact rounded_le x p
      · exact Nat.mod_lt _ (by positivity)
    · rw [digits_many x (Nat.le_of_not_lt few)]
      constructor
      · exact Nat.le_succ_of_le one
      · exact small

theorem lead_lt : ∀ d ∈ [(digits x precision).lead], d < 16 := by
  have lead := (digits_proper x precision).lead
  simp only [List.mem_singleton, forall_eq]
  omega

theorem isDigits_whole : IsDigits 16 upper (numeral x precision point upper).whole :=
  isDigits_map (by decide) upper (lead_lt x precision)

theorem isDigits_fraction : IsDigits 16 upper (numeral x precision point upper).fraction :=
  (isDigits_map (by decide) upper (Radix.lastDigits_lt (by decide) _ _)).append
    (isDigits_zeros (by decide) (by decide) upper _)

theorem length_fraction : (numeral x precision point upper).fraction.length =
    (digits x precision).nibbles + (precision.getD 0 - fullNibbles) := by
  rw [numeral, List.length_append, List.length_map, Radix.length_lastDigits, zeros,
    List.length_replicate]

theorem numeral_point : (numeral x precision point upper).point = true ↔
    (numeral x precision point upper).fraction ≠ [] ∨ point = true := by
  rw [← List.length_pos_iff, length_fraction, numeral, decide_eq_true_iff,
    Nat.add_pos_iff_pos_or_pos, or_assoc]

theorem numeral_wellFormed : (numeral x precision point upper).WellFormed (.hex upper) where
  whole := List.cons_ne_nil _ _
  digits := (isDigits_whole x precision point upper).append
    (isDigits_fraction x precision point upper)
  point := fun full => (numeral_point x precision point upper).mpr (Or.inl full)
  exponent := by
    intro e found
    cases found
    exact ⟨Radix.decimal_ne_nil _, isDigits_decimal _⟩
  marker := by
    intro e found
    cases found
    have letter : (if upper then byte 'P' else byte 'p') ∉ byte '.' :: (digitSet upper).take 16 := by
      cases upper <;> decide
    exact letter

theorem readDigits_whole : readDigits 16 upper (numeral x precision point upper).whole =
    (digits x precision).lead := by
  have value : Radix.value 16 [(digits x precision).lead] = (digits x precision).lead := by
    simp [Radix.value]
  exact (readDigits_map (lead_lt x precision) 16 upper).trans value

theorem numeral_value : (numeral x precision point upper).value (.hex upper) =
    (digits x precision).number * 2 ^ (exponent x - 4 * (digits x precision).nibbles) := by
  have digit : ∀ d ∈ Radix.lastDigits 16 (digits x precision).nibbles (digits x precision).fraction,
      d < 16 := Radix.lastDigits_lt (by decide) _ _
  have spelled : readDigits 16 upper ((numeral x precision point upper).whole ++
      (Radix.lastDigits 16 (digits x precision).nibbles (digits x precision).fraction).map
        (Radix.digitByte upper)) = (digits x precision).number := by
    rw [readDigits_append, readDigits_whole, List.length_map, Radix.length_lastDigits,
      readDigits_map digit, Radix.value_lastDigits, Nat.pow_eq,
      Nat.mod_eq_of_lt (digits_proper x precision).fraction, Digits.number]
  have mantissa := readDigits_div_zeros (show 0 < 16 by decide) upper
    (numeral x precision point upper).whole
    ((Radix.lastDigits 16 (digits x precision).nibbles (digits x precision).fraction).map
      (Radix.digitByte upper)) (precision.getD 0 - fullNibbles)
  have power := Exponent.value_of_natAbs (if upper then byte 'P' else byte 'p')
    (readDigits_decimal (exponent x).natAbs)
  rw [spelled, List.length_map, Radix.length_lastDigits] at mantissa
  calc (numeral x precision point upper).value (.hex upper)
      = (digits x precision).number / (16 : Nat) ^ (digits x precision).nibbles *
          (2 : Nat) ^ exponent x := congrArg₂ (fun m (e : Int) => m * ((2 : Nat) : ℚ) ^ e) mantissa power
    _ = _ := by
      rw [zpow_sub₀ (by norm_num), ← sixteen_zpow, zpow_natCast]
      push_cast
      ring

theorem exponent_eq : exponent x = x.leadingExponent := by
  rw [exponent, Binary64.leadingExponent, Binary64.scale]
  split
  · rfl
  · split <;> omega

theorem abs_toRat_exponent : |x.toRat| = x.significand * 2 ^ (exponent x - 52) := by
  rw [Binary64.abs_toRat, exponent]
  split
  · next zero => rw [(Binary64.significand_eq_zero x).mpr zero, Nat.cast_zero, zero_mul, zero_mul]
  · rw [add_sub_cancel_right]

/-- All digits of the significand denote the number itself. -/
theorem value_exact {d : Digits} (few : d.nibbles ≤ 13)
    (whole : d.number * 16 ^ (13 - d.nibbles) = x.significand) :
    (d.number : ℚ) * 2 ^ (exponent x - 4 * d.nibbles) = |x.toRat| := by
  have unit : (16 : ℚ) ^ (13 - d.nibbles) * 2 ^ (exponent x - 52) =
      2 ^ (exponent x - 4 * d.nibbles) := by
    rw [← zpow_natCast, sixteen_zpow, ← zpow_add₀ (by norm_num)]
    congr 1
    omega
  rw [abs_toRat_exponent, ← whole, Nat.cast_mul, Nat.cast_pow, Nat.cast_ofNat, mul_assoc, unit]

/-- A rounded significand denotes the nearest multiple of the place of its last digit. -/
theorem value_rounded (p : Nat) :
    Nearest |x.toRat| (2 ^ (x.leadingExponent - 4 * p)) (rounded x p) := by
  rw [← exponent_eq]
  have unit : (16 : ℚ) ^ ((p : Int) - 13) * 2 ^ (exponent x - 4 * p) = 2 ^ (exponent x - 52) := by
    rw [sixteen_zpow, ← zpow_add₀ (by norm_num)]
    congr 1
    ring
  have nearest := (rounded_nearest x p).mul (Binary64.two_pow_pos (exponent x - 4 * p))
  rwa [mul_assoc, unit, one_mul, ← abs_toRat_exponent] at nearest

/-- Without a precision the text denotes the number itself, and no digit of it can be left out. -/
theorem numeral_none : (numeral x none point upper).value (.hex upper) = |x.toRat| ∧
    (numeral x none point upper).fraction.getLast? ≠ some (byte '0') := by
  obtain ⟨lead, few, fraction, last⟩ := digits_none x
  obtain ⟨-, split⟩ := significand_split x
  constructor
  · rw [numeral_value]
    apply value_exact x few
    rw [Digits.number, lead, Nat.add_mul, ← fraction, mul_assoc, ← pow_add, Nat.add_sub_cancel' few,
      split]
  · have plain : (numeral x none point upper).fraction =
        (Radix.lastDigits 16 (digits x none).nibbles (digits x none).fraction).map
          (Radix.digitByte upper) := List.append_nil _
    have nonzero : ∀ d < 16, ∀ upper, Radix.digitByte upper d = byte '0' → d = 0 := by decide
    rw [plain]
    cases nibbles : (digits x none).nibbles with
    | zero => simp [Radix.lastDigits]
    | succ k =>
      rw [nibbles] at last
      simp only [Radix.lastDigits, List.map_append, List.map_singleton, List.getLast?_concat, ne_eq,
        Option.some.injEq]
      intro zero
      exact last (Nat.succ_ne_zero k) (nonzero _ (Nat.mod_lt _ (by decide)) upper zero)

theorem length_fraction_some (p : Nat) :
    (numeral x (some p) point upper).fraction.length = p := by
  rw [length_fraction, Option.getD_some, fullNibbles]
  by_cases few : p < 13
  · rw [digits_few x few]
    exact (congrArg (p + ·) (Nat.sub_eq_zero_of_le few.le)).trans (Nat.add_zero p)
  · have many := Nat.le_of_not_lt few
    rw [digits_many x many]
    exact Nat.add_sub_cancel' many

theorem numeral_many {p : Nat} (many : 13 ≤ p) :
    (numeral x (some p) point upper).value (.hex upper) = |x.toRat| := by
  obtain ⟨-, split⟩ := significand_split x
  rw [numeral_value, digits_many x many]
  apply value_exact x (Nat.le_refl 13)
  exact (Nat.mul_one _).trans split

theorem numeral_few {p : Nat} (few : p < 13) :
    (numeral x (some p) point upper).value (.hex upper) =
      rounded x p * 2 ^ (x.leadingExponent - 4 * p) := by
  rw [← exponent_eq]
  have number : Digits.number ⟨rounded x p / 16 ^ p, rounded x p % 16 ^ p, p⟩ = rounded x p :=
    Nat.div_add_mod' _ _
  rw [numeral_value, digits_few x few, number]

/-- The text without a precision determines the magnitude. -/
theorem abs_eq_of_text {y : Binary64} (same : (numeral x none point upper).text =
    (numeral y none point upper).text) : |x.toRat| = |y.toRat| := by
  have numerals := Numeral.text_injective (numeral_wellFormed x none point upper)
    (numeral_wellFormed y none point upper) same
  rw [← (numeral_none x point upper).1, numerals, (numeral_none y point upper).1]

/-- The exponent is that of the leading digit. -/
theorem numeral_exponent : ∃ e ∈ (numeral x precision point upper).exponent,
    e.marker = (if upper then byte 'P' else byte 'p') ∧
    (e.negative = true ↔ x.leadingExponent < 0) ∧ e.value = x.leadingExponent ∧
    e.digits.length = max 1 (Nat.digits 10 x.leadingExponent.natAbs).length := by
  rw [← exponent_eq]
  exact ⟨_, rfl, rfl, decide_eq_true_iff,
    Exponent.value_of_natAbs _ (readDigits_decimal _), length_decimal _⟩

end Hex

/-- Without a precision different numbers have different texts. -/
theorem hex_eq_of_text {x y : Binary64} (finite : x.isFinite = true) (finite' : y.isFinite = true)
    {flags : Flags} {mark : UInt8} {point upper : Bool}
    (same : signBytes x.negative flags ++ byte '0' :: mark :: (Hex.numeral x none point upper).text =
      signBytes y.negative flags ++ byte '0' :: mark :: (Hex.numeral y none point upper).text) :
    x = y := by
  have zero : isDigit (byte '0') = true := by decide
  obtain ⟨sign, text⟩ := signBytes_cancel ⟨_, _, rfl, zero⟩ ⟨_, _, rfl, zero⟩ same
  simp only [List.cons.injEq, true_and] at text
  exact Binary64.eq_of_abs_eq finite finite' sign (Hex.abs_eq_of_text x point upper text)

/-- The text of a finite number in hexadecimal digits. -/
theorem unpadded_hex {features : Features} {p : Directive.Spelling} {d : Directive}
    (denotes : p.Denotes features d) {args : List Arg} {a : Arg} {x : Binary64}
    (value : args[d.width.slots + d.precision.slots]? = some a) (number : a.float? = some x)
    (finite : x.isFinite = true) (kind : d.conversion = .hexFloat) :
    p.unpadded features d args = signBytes x.negative d.flags ++
      (byte '0' :: (if d.letterCase == .upper then byte 'X' else byte 'x') ::
        (Hex.numeral x (d.resolve (.ofList args)).1.precision d.flags.altForm
          (d.letterCase == .upper)).text) := by
  have isFloat : d.conversion.isFloat = true := by rw [kind]; rfl
  have style : FloatStyle.ofSpec x.magnitude (d.resolve (.ofList args)).1 =
      .hex (d.resolve (.ofList args)).1.precision d.flags.altForm (d.letterCase == .upper) := by
    rw [FloatStyle.ofSpec, d.resolve_conversion, kind, d.resolve_altForm, d.resolve_isUpper]
    rfl
  rw [unpadded_float denotes value number finite isFloat style, FloatStyle.body, Hex.body_text]
  rfl

/-- The hexadecimal conversion is exact without a precision and with one of 13 digits or more, and
rounds correctly to fewer. Its exponent is that of the leading digit before rounding, which becomes 2
at most when a carry reaches it. Without a precision the fraction has no zero at its end, and finite
numbers with the same text are the same, sign included. -/
theorem hex_is_exact_or_rounded {features : Features} {p : Directive.Spelling} {d : Directive}
    (denotes : p.Denotes features d) (args : List Arg) {a : Arg} {x : Binary64}
    (value : args[d.width.slots + d.precision.slots]? = some a) (number : a.float? = some x)
    (finite : x.isFinite = true) (kind : d.conversion = .hexFloat) :
    let precision := (d.resolve (.ofList args)).1.precision
    let upper := d.letterCase == .upper
    let E := x.leadingExponent
    ∃ (sign : Bytes) (t : Numeral),
      p.unpadded features d args = sign ++ ((if upper then utf8 "0X" else utf8 "0x") ++ t.text) ∧
      sign = (if x.negative then utf8 "-" else if d.flags.forceSign then utf8 "+"
        else if d.flags.spaceSign then utf8 " " else []) ∧
      t.WellFormed (.hex upper) ∧
      t.whole.length = 1 ∧
      (∃ e ∈ t.exponent, e.marker = (if upper then byte 'P' else byte 'p') ∧
        (e.negative = true ↔ E < 0) ∧ e.value = E ∧
        e.digits.length = max 1 (Nat.digits 10 E.natAbs).length) ∧
      (t.point = true ↔ t.fraction ≠ [] ∨ d.flags.altForm = true) ∧
      (precision = none → t.value (.hex upper) = |x.toRat| ∧
        t.fraction.getLast? ≠ some (byte '0') ∧
        ∀ (args' : List Arg) (a' : Arg) (y : Binary64),
          args'[d.width.slots + d.precision.slots]? = some a' → a'.float? = some y →
          y.isFinite = true → (d.resolve (.ofList args')).1.precision = none →
          p.unpadded features d args' = p.unpadded features d args → y = x) ∧
      (∀ k, precision = some k → t.fraction.length = k ∧
        (13 ≤ k → t.value (.hex upper) = |x.toRat|) ∧
        (k < 13 → readDigits 16 upper t.whole ≤ 2 ∧
          ∃ n : Nat, Nearest |x.toRat| (2 ^ (E - 4 * k)) n ∧
            t.value (.hex upper) = n * 2 ^ (E - 4 * k))) := by
  intro precision upper E
  have text := unpadded_hex denotes value number finite kind
  have mark (rest : Bytes) : byte '0' :: (if upper then byte 'X' else byte 'x') :: rest =
      (if upper then utf8 "0X" else utf8 "0x") ++ rest := by
    split <;> rfl
  refine ⟨_, Hex.numeral x precision d.flags.altForm upper, text.trans ?_, rfl,
    Hex.numeral_wellFormed _ _ _ _, rfl, Hex.numeral_exponent _ _ _ _, Hex.numeral_point _ _ _ _,
    ?_, ?_⟩
  · exact congrArg (signBytes x.negative d.flags ++ ·) (mark _)
  · intro none
    obtain ⟨exact, last⟩ := Hex.numeral_none x d.flags.altForm upper
    rw [none]
    refine ⟨exact, last, ?_⟩
    intro args' a' y value' number' finite' none' same
    have text' := unpadded_hex denotes value' number' finite' kind
    have none : (d.resolve (.ofList args)).1.precision = Option.none := none
    rw [text, text', none', none] at same
    exact hex_eq_of_text finite' finite same
  · intro k some
    rw [some]
    refine ⟨Hex.length_fraction_some x _ _ k, Hex.numeral_many x _ _, ?_⟩
    intro few
    refine ⟨?_, _, Hex.value_rounded x k, Hex.numeral_few x _ _ few⟩
    rw [Hex.readDigits_whole]
    exact (Hex.digits_proper x _).lead

/-- For 1.5, half way between two leading digits, `%.0a` takes the even one, which is a carry. -/
theorem hex_is_exact_or_rounded_carry :
    let p : Directive.Spelling := ⟨[], [], utf8 ".0", [], byte 'a'⟩
    let d : Directive := ⟨{}, .unset, .fixed 0, .none, .hexFloat, .lower⟩
    let x : Binary64 := ⟨0x3ff8000000000000⟩
    p.Denotes ⟨true, true⟩ d ∧ x.isFinite = true ∧ x.leadingExponent = 0 ∧
    ∃ t : Numeral, p.unpadded ⟨true, true⟩ d [.float x] = utf8 "0x" ++ t.text ∧
      utf8 "0x" ++ t.text = utf8 "0x2p+0" ∧
      ∃ n : Nat, Nearest |x.toRat| (2 ^ (x.leadingExponent - 4 * (0 : Nat))) n ∧
        t.value (.hex false) = n * 2 ^ (x.leadingExponent - 4 * (0 : Nat)) := by
  intro p d x
  have denotes : p.Denotes ⟨true, true⟩ d :=
    { flags := (Directive.flagText_iff _ _).mpr ⟨List.forall_mem_nil _, rfl⟩
      width := .absent
      precision := .digits [byte '0'] (List.forall_mem_singleton.mpr (by decide))
      length := .absent
      letter := .hexFloat rfl rfl
      flagsMaximal := Directive.stops_cons.mpr (by decide)
      widthMaximal := Directive.stops_cons.mpr (by decide)
      precisionMaximal := Directive.stops_cons.mpr (by decide) }
  have finite : x.isFinite = true := by decide
  obtain ⟨sign, t, text, plain, -, -, -, -, -, rounded⟩ :=
    hex_is_exact_or_rounded denotes [.float x] rfl rfl finite rfl
  obtain ⟨-, -, few⟩ := rounded 0 rfl
  have positive : x.negative = false := by decide
  have written : p.unpadded ⟨true, true⟩ d [.float x] = utf8 "0x2p+0" := by decide +kernel
  rw [plain, positive] at text
  exact ⟨denotes, finite, by decide, t, text, text.symm.trans written, (few (by decide)).2⟩

end Printf
