import Printf.Proofs.FloatRounding
import Printf.Proofs.IntegerDigits

/-! Whole numbers as doubles. The conversion of a number to a double is exact where there is one for
it, up to 2 ^ 53 and for rounder numbers above; the fixed conversion without decimals then has the
sign and the digits of an integer, and so the same text in every field. -/
namespace Printf

namespace Binary64

variable {x : Binary64}

theorem ofCode_code (x : Binary64) :
    ofCode x.negative (x.exponentField * leadingBit + x.fractionField) = x := by
  have bits : x.bits.toNat = (if x.negative then signBit else 0) +
      (x.exponentField * leadingBit + x.fractionField) := by
    rw [bits_eq, Nat.add_assoc]
    rfl
  rw [ofCode, ← bits]
  cases x
  exact congrArg mk UInt64.ofNat_toNat

/-- The units of a double are those that a number of its magnitude is rounded to. -/
theorem scale_eq {r : Ratio} (finite : x.isFinite = true) (nonzero : 0 < r.num)
    (value : r.toRat = |x.toRat|) : max (r.floorLog 2 - 52) (-1074) = x.scale := by
  obtain ⟨low, high⟩ := r.floorLog_bounds (le_refl 2) nonzero
  rw [value] at low high
  have least := (scale_bounds finite).1
  have below : r.floorLog 2 < 53 + x.scale := by
    have under := low.trans_lt x.abs_toRat_lt
    exact (zpow_lt_zpow_iff_right₀ (by norm_num)).mp under
  by_cases normal : -1074 < x.scale
  · have leading : (2 : ℚ) ^ (52 + x.scale) ≤ |x.toRat| := by
      have large : ((2 ^ 52 : Nat) : ℚ) ≤ x.significand := by
        exact_mod_cast two_pow_le_significand normal
      rw [abs_toRat, zpow_add₀ (by norm_num)]
      exact mul_le_mul_of_nonneg_right (by exact_mod_cast large) (two_pow_pos _).le
    have above : 52 + x.scale < r.floorLog 2 + 1 :=
      (zpow_lt_zpow_iff_right₀ (by norm_num)).mp (leading.trans_lt high)
    omega
  · omega

/-- Rounding gives the double of a fraction that is one already. -/
theorem ofRatio_exact {r : Ratio} (finite : x.isFinite = true) (nonzero : 0 < r.num)
    (value : r.toRat = |x.toRat|) : ofRatio x.negative r = x := by
  have unit := scale_eq finite nonzero value
  have round : (r.timesPow 2 (-x.scale)).round = x.significand := by
    apply (r.timesPow 2 (-x.scale)).round_nearest.unique (.of_eq one_pos ?_) one_pos
    rw [Ratio.toRat_timesPow, value, abs_toRat, Nat.cast_ofNat, mul_assoc, ← zpow_add₀ (by norm_num),
      add_neg_cancel, zpow_zero]
  have code : (x.scale + 1074).toNat * leadingBit + x.significand =
      x.exponentField * leadingBit + x.fractionField := by
    rw [scale, significand, leadingBit]
    split <;> omega
  have small : x.exponentField * leadingBit + x.fractionField < 2047 * leadingBit := by
    have := exponentField_lt finite
    have := x.fractionField_lt
    rw [leadingBit]
    omega
  rw [ofRatio, if_neg nonzero.ne']
  simp only [unit, round, code, small, if_true]
  exact x.ofCode_code

theorem ofInt_eq (v : Int) : ofInt v = ofRatio (v < 0) (.ofNat v.natAbs) := by
  cases v with
  | ofNat n => rfl
  | negSucc n =>
    have negative : decide (Int.negSucc n < 0) = true := decide_eq_true (Int.negSucc_lt_zero n)
    rw [negative]
    rfl

/-- The double of a whole number that there is one for. Zero has the positive one. -/
theorem ofInt_exact {v : Int} (finite : x.isFinite = true) (value : x.toRat = v) :
    (ofInt v).isFinite = true ∧ (ofInt v).negative = decide (v < 0) ∧
      |(ofInt v).toRat| = v.natAbs := by
  have magnitude : |x.toRat| = v.natAbs := by
    rw [value, Nat.cast_natAbs, Int.cast_abs]
  by_cases zero : v = 0
  · subst zero
    refine ⟨by decide, by decide, ?_⟩
    rw [Int.natAbs_zero, Nat.cast_zero, abs_toRat_eq_zero]
    decide
  · have sign : x.negative = decide (v < 0) := by
      have positive : (0 : ℚ) < x.significand * 2 ^ x.scale := by
        rw [← abs_toRat, value, abs_pos]
        exact_mod_cast zero
      rw [Bool.eq_iff_iff, decide_eq_true_iff, ← Int.cast_lt_zero (R := ℚ), ← value, toRat]
      cases x.negative
      · rw [if_neg Bool.false_ne_true, one_mul]
        exact iff_of_false Bool.false_ne_true positive.le.not_gt
      · rw [if_pos rfl, neg_one_mul]
        exact iff_of_true rfl (neg_neg_of_pos positive)
    have same : ofInt v = x := by
      rw [ofInt_eq, ← sign]
      apply ofRatio_exact finite (Nat.pos_of_ne_zero (Int.natAbs_ne_zero.mpr zero))
      rw [Ratio.toRat_ofNat, magnitude]
    rw [same]
    exact ⟨finite, sign, magnitude⟩

/-- The fields of a pattern that is put together from them. -/
theorem ofCode_fields (sign : Bool) {e f : Nat} (exponent : e < 2048) (fraction : f < leadingBit) :
    (ofCode sign (e * leadingBit + f)).negative = sign ∧
    (ofCode sign (e * leadingBit + f)).exponentField = e ∧
    (ofCode sign (e * leadingBit + f)).fractionField = f := by
  have bits : (ofCode sign (e * leadingBit + f)).bits.toNat =
      (if sign then signBit else 0) + (e * leadingBit + f) := by
    refine UInt64.toNat_ofNat_of_lt' ?_
    rw [leadingBit] at fraction ⊢
    rw [signBit, UInt64.size]
    split <;> omega
  rw [leadingBit] at fraction
  rw [negative, exponentField, fractionField, bits, signBit, leadingBit]
  refine ⟨?_, ?_, ?_⟩
  · cases sign
    · rw [if_neg Bool.false_ne_true]
      exact beq_eq_false_iff_ne.mpr (by omega)
    · rw [if_pos rfl]
      exact beq_iff_eq.mpr (by omega)
  · split <;> omega
  · split <;> omega

/-- There is a double for a number of at most 53 binary digits with zeros behind them. -/
theorem exists_double (sign : Bool) {s e : Nat} (digits : s < 2 ^ 53) (bound : e ≤ 971) :
    ∃ x : Binary64, x.isFinite = true ∧ x.toRat = (if sign then -1 else 1) * (s * 2 ^ e : Nat) := by
  by_cases zero : s = 0
  · refine ⟨.zero sign, by cases sign <;> decide, ?_⟩
    have none : (Binary64.zero sign).significand = 0 := by cases sign <;> decide
    rw [toRat, none, zero]
    simp
  · -- the leading digit is moved to the place of the hidden bit
    have few : Nat.log 2 s < 53 := Nat.log_lt_of_lt_pow zero digits
    have low := Nat.pow_log_le_self 2 zero
    have high := Nat.lt_pow_succ_log_self (b := 2) (by decide) s
    generalize Nat.log 2 s = k at few low high
    obtain ⟨j, shift⟩ : ∃ j, k + j = 52 := ⟨52 - k, by omega⟩
    have leading : leadingBit ≤ s * 2 ^ j := by
      have := Nat.mul_le_mul_right (2 ^ j) low
      rwa [← pow_add, shift] at this
    have less : s * 2 ^ j < 2 * leadingBit := by
      have := Nat.mul_lt_mul_of_pos_right high (Nat.two_pow_pos j)
      rwa [← pow_add, Nat.succ_add, shift] at this
    obtain ⟨negative, exponent, fraction⟩ := ofCode_fields sign (e := e + k + 1023)
      (f := s * 2 ^ j - leadingBit) (by omega) (by omega)
    refine ⟨ofCode sign ((e + k + 1023) * leadingBit + (s * 2 ^ j - leadingBit)), ?_, ?_⟩
    all_goals generalize ofCode sign _ = x at *
    · rw [isFinite, exponent]
      exact bne_iff_ne.mpr (by omega)
    · have significand : x.significand = s * 2 ^ j := by
        rw [Binary64.significand, exponent, fraction, if_neg (by omega)]
        omega
      have scale : x.scale = e - j := by
        rw [Binary64.scale, exponent]
        omega
      have power : (2 : ℚ) ^ j * 2 ^ ((e : Int) - j) = 2 ^ e := by
        rw [← zpow_natCast, ← zpow_natCast, ← zpow_add₀ (by norm_num), add_sub_cancel]
      rw [toRat, negative, significand, scale]
      push_cast
      rw [mul_assoc (s : ℚ), power]

theorem exists_integer {v : Int} (bound : v.natAbs ≤ 2 ^ 53) :
    ∃ x : Binary64, x.isFinite = true ∧ x.toRat = v := by
  obtain ⟨s, e, digits, small, split⟩ : ∃ s e, s < 2 ^ 53 ∧ e ≤ 971 ∧ v.natAbs = s * 2 ^ e := by
    by_cases last : v.natAbs = 2 ^ 53
    · exact ⟨1, 53, by decide, by decide, by rw [last, one_mul]⟩
    · exact ⟨v.natAbs, 0, by omega, by decide, by rw [pow_zero, mul_one]⟩
  obtain ⟨x, finite, value⟩ := exists_double (v < 0) digits small
  refine ⟨x, finite, ?_⟩
  rw [value, ← split, Nat.cast_natAbs]
  rcases lt_or_ge v 0 with negative | positive
  · rw [if_pos (decide_eq_true negative), abs_of_neg negative, neg_one_mul, Int.cast_neg, neg_neg]
  · rw [if_neg (by simpa using positive), abs_of_nonneg positive, one_mul]

end Binary64

/-- Without decimals a whole number is written with its digits alone. -/
theorem FloatStyle.body_whole {x : Binary64} {m : Nat} (value : |x.toRat| = m) :
    Output.toList (FloatStyle.body x (.fixed 0 false false)) = Radix.decimal m := by
  obtain ⟨length, point⟩ := fixedNumeral_unstripped x 0 false
  have noFraction := List.length_eq_zero_iff.mp length
  have noPoint : (fixedNumeral x 0 false false).point = false := by
    rw [Bool.eq_false_iff, Ne, point]
    decide
  have round : (x.magnitude.timesPow 10 (0 : Nat)).round = m := by
    apply (x.magnitude.timesPow 10 (0 : Nat)).round_nearest.unique (.of_eq one_pos ?_) one_pos
    rw [Ratio.toRat_timesPow, Binary64.toRat_magnitude, value, Nat.cast_zero, zpow_zero, mul_one]
  have whole : (fixedNumeral x 0 false false).whole = Radix.decimal m := by
    rw [fixedNumeral, numeral_whole, Nat.zero_min, round, pow_zero, Nat.div_one]
  have noExponent : (fixedNumeral x 0 false false).exponent = none := rfl
  rw [body_fixed, Numeral.text, whole, noPoint, noFraction, noExponent]
  simp

/-- An integer without a precision and without a mark is written with its digits alone. -/
theorem Spec.integerImage_decimal {s : Spec} (kind : s.conversion = .signed)
    (none : s.precision = none) (sign : Bytes) (m : Nat) :
    (s.integerImage sign m).lead = sign ∧
    Output.toList (s.integerImage sign m).body = Radix.decimal m ∧
    (s.integerImage sign m).zeroable = true := by
  have digits : s.digits m = Radix.decimal m := by
    simp [Spec.digits, none, kind, Spec.base, Radix.decimal, Radix.text]
  have noMark : s.radixMark m = [] := by
    rw [radixMark, kind]
    split <;> rfl
  have noZeros : s.precisionZeros m = 0 := by
    have some := List.length_pos_iff.mpr (Radix.decimal_ne_nil m)
    rw [precisionZeros, none, digits, Option.getD_none]
    omega
  refine ⟨?_, ?_, ?_⟩
  · rw [integerImage, noMark, List.append_nil]
  · simp [integerImage, noZeros, digits, Chunk.toList]
  · rw [integerImage, none]
    rfl

/-- The image of a whole number is that of an integer. -/
theorem Spec.floatImage_integer {s t : Spec} (fixed : s.conversion = .fixed)
    (places : s.precision = some 0) (plain : s.flags.altForm = false) (signed : t.conversion = .signed)
    (none : t.precision = Option.none) (flags : t.flags = s.flags) (width : t.width = s.width) {v : Int}
    {x : Binary64} (finite : x.isFinite = true) (value : x.toRat = v) :
    Output.toList ((s.floatImage (.ofInt v)).fit s.flags s.width) =
      Output.toList ((t.signedImage v).fit t.flags t.width) := by
  obtain ⟨finite, sign, magnitude⟩ := Binary64.ofInt_exact finite value
  obtain ⟨lead, body, zeroable⟩ :=
    integerImage_decimal signed none (signBytes (v < 0) t.flags) v.natAbs
  have style : FloatStyle.ofSpec (Binary64.ofInt v).magnitude s = .fixed 0 false false := by
    rw [FloatStyle.ofSpec, fixed, places, plain]
    rfl
  rw [width, flags]
  rw [flags] at lead body zeroable
  apply Image.toList_fit_congr
  · rw [signedImage, flags, lead, floatImage, if_pos finite, style, sign]
    exact List.append_nil _
  · rw [signedImage, flags, body, floatImage, if_pos finite, style]
    exact FloatStyle.body_whole magnitude
  · rw [signedImage, flags, zeroable, floatImage_zeroable, finite]

/-- Every integer is taken whole by a conversion of long integers. -/
theorem Arg.signed?_long (v : Int64) : (Arg.int v).signed? .l = some v.toInt := by
  obtain ⟨w, taken, congr, range⟩ := signed?_inRange (a := .int v) rfl .l
  have own : InRange true Length.l.bits v.toInt := ⟨v.le_toInt, v.toInt_lt⟩
  rw [taken, own.unique (by decide) range congr]

/-- A directive writes the image that its value has, fitted to its field. -/
theorem content_image {features : Features} {p : Directive.Spelling} {d : Directive}
    (denotes : p.Denotes features d) (printed : d.conversion ≠ .percent) {args : List Arg} {a : Arg}
    (value : args[d.width.slots + d.precision.slots]? = some a) {image : Image}
    (made : (d.resolveWith args[0]? args[d.width.slots]?).image? a = some image) :
    content features p.text args = Output.toList (image.fit
      (d.resolveWith args[0]? args[d.width.slots]?).flags
      (d.resolveWith args[0]? args[d.width.slots]?).width) := by
  rw [content_text denotes, value, Directive.output_value printed, Spec.contents_steps, made,
    Option.elim_some]

/-- The floating-point and the integer conversion agree on integers: without decimals, an integer that
there is a double for is written as the long integer conversion writes it, with every sign flag and
in every field. There is a double for each integer of at most 53 binary digits. -/
theorem whole_floats_print_as_integers {features : Features} (floats : features.float = true)
    {flags width : Bytes} {field : Field} (flagged : ∀ b ∈ flags, b ∈ utf8 "-+ 0")
    (spelled : Directive.WidthText width field) (args : List Arg) (v : Int64)
    (value : args[field.slots]? = some (.int v)) :
    (v.toInt.natAbs ≤ 2 ^ 53 → ∃ x : Binary64, x.isFinite = true ∧ x.toRat = v.toInt) ∧
    ((∃ x : Binary64, x.isFinite = true ∧ x.toRat = v.toInt) →
      content features (Directive.Spelling.mk flags width (utf8 ".0") [] (byte 'f')).text args =
        content features (Directive.Spelling.mk flags width [] (utf8 "l") (byte 'd')).text args) := by
  refine ⟨Binary64.exists_integer, ?_⟩
  rintro ⟨x, finite, exact⟩
  obtain ⟨zeros, rest, field', rfl, all, spelled', noZero, slots⟩ := spelled.without_zeros
  have flagged' : ∀ b ∈ flags ++ zeros, b ∈ utf8 "-+ 0" := by
    refine List.forall_mem_append.mpr ⟨flagged, fun b member => ?_⟩
    rw [all b member]
    decide
  have marked : ∀ b ∈ flags ++ zeros, b ∈ utf8 "-+ #0" := by
    have more : ∀ b ∈ utf8 "-+ 0", b ∈ utf8 "-+ #0" := by decide +kernel
    exact fun b member => more b (flagged' b member)
  have plain : (Directive.flagsOf (flags ++ zeros)).altForm = false := by
    rw [Directive.flagsOf_eq]
    refine decide_eq_false fun mark => ?_
    exact absurd (flagged' _ mark) (by decide)
  have text (precision length : Bytes) (letter : UInt8) :
      (Directive.Spelling.mk flags (zeros ++ rest) precision length letter).text =
        (Directive.Spelling.mk (flags ++ zeros) rest precision length letter).text := by
    simp [Directive.Spelling.text]
  let d : Directive :=
    ⟨Directive.flagsOf (flags ++ zeros), field', .fixed 0, .none, .fixed, .lower⟩
  let d' : Directive :=
    ⟨Directive.flagsOf (flags ++ zeros), field', .unset, .l, .signed, .none⟩
  have float : (Directive.Spelling.mk (flags ++ zeros) rest (utf8 ".0") [] (byte 'f')).Denotes
      features d :=
    Directive.Spelling.denotes_of_parts marked spelled' noZero
      (.digits [byte '0'] (List.forall_mem_singleton.mpr rfl)) .absent (.fixed floats)
  have integer : (Directive.Spelling.mk (flags ++ zeros) rest [] (utf8 "l") (byte 'd')).Denotes
      features d' :=
    Directive.Spelling.denotes_of_parts marked spelled' noZero .absent .l .signed
  have noMark : (d.resolveWith args[0]? args[field'.slots]?).flags.altForm = false := by
    have kept := d.resolve_altForm (.ofList args)
    rw [d.resolve_eq] at kept
    exact kept.trans plain
  rw [← slots] at value
  have printed : d.conversion ≠ .percent := Conversion.noConfusion
  have printed' : d'.conversion ≠ .percent := Conversion.noConfusion
  rw [text, text, content_image float printed value rfl,
    content_image integer printed' value (congrArg (Option.map _) (Arg.signed?_long v))]
  exact Spec.floatImage_integer (t := d'.resolveWith _ _) rfl rfl noMark rfl rfl rfl rfl finite exact

/-- Zeros fill a field behind the sign of the least integer, which is a power of two. -/
theorem whole_floats_print_as_integers_least :
    let v : Int64 := -0x8000000000000000
    v.toInt = -2 ^ 63 ∧
    content ⟨true, true⟩ (utf8 "% 0*.0f") [.int 24, .int v] =
      content ⟨true, true⟩ (utf8 "% 0*ld") [.int 24, .int v] ∧
    content ⟨true, true⟩ (utf8 "% 0*ld") [.int 24, .int v] = utf8 "-00009223372036854775808" := by
  intro v
  have least : v.toInt = -2 ^ 63 := by decide
  have float : utf8 "% 0*.0f" =
      (Directive.Spelling.mk (utf8 " 0") [byte '*'] (utf8 ".0") [] (byte 'f')).text := by decide
  have integer : utf8 "% 0*ld" =
      (Directive.Spelling.mk (utf8 " 0") [byte '*'] [] (utf8 "l") (byte 'd')).text := by decide
  have written : content ⟨true, true⟩ (utf8 "% 0*ld") [.int 24, .int v] =
      utf8 "-00009223372036854775808" := by decide +kernel
  have exact : Binary64.toRat ⟨0xc3e0000000000000⟩ = v.toInt := by
    have sign : Binary64.negative ⟨0xc3e0000000000000⟩ = true := by decide
    have significand : Binary64.significand ⟨0xc3e0000000000000⟩ = 2 ^ 52 := by decide
    have scale : Binary64.scale ⟨0xc3e0000000000000⟩ = 11 := by decide
    rw [Binary64.toRat, sign, significand, scale, least]
    norm_num
  have agree := (@whole_floats_print_as_integers ⟨true, true⟩ rfl (utf8 " 0") _ _ (by decide +kernel)
    .star [.int 24, .int v] v rfl).2 ⟨_, by decide, exact⟩
  rw [float]
  rw [integer] at written ⊢
  exact ⟨least, agree, written⟩

end Printf
