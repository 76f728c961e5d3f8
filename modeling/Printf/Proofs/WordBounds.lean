import Printf.Proofs.WordDecimals
import Printf.Proofs.WordHex

/-! Directives expanded in machine words. With checked operations throughout, from the numbers that
stars take to the filling of the field, an expansion has no fault and writes what the directive
writes. Fields have 31 bits and doubles at most 309 digits in front of their point, so that 32 bits
are enough for every size. -/
namespace Printf

/-- A style whose places are not more than a field can ask for. The general conversion turns a few
leading zeros into places of their own. -/
def FloatStyle.Bounded : FloatStyle → Prop
  | .fixed places _ _ => places ≤ maxField + 3
  | .scientific places _ _ _ => places ≤ maxField + 3
  | .hex precision _ _ => ∀ p ∈ precision, p ≤ maxField

theorem Spec.Bounded.digits {s : Spec} (bounded : s.Bounded) :
    s.precision.getD defaultPrecision ≤ maxField :=
  getD_le_maxField bounded.precision (by decide)

theorem FloatStyle.ofSpec_bounded {s : Spec} (bounded : s.Bounded) (r : Ratio) :
    (ofSpec r s).Bounded := by
  have digits := bounded.digits
  rw [ofSpec]
  split
  · exact Nat.le_add_right_of_le digits
  · have most : max (s.precision.getD defaultPrecision) 1 ≤ maxField := max_le digits (by decide)
    rw [general]
    split
    · exact Nat.le_add_right_of_le ((Nat.sub_le _ _).trans most)
    · next inside =>
      have places : ((max (s.precision.getD defaultPrecision) 1 : Nat) : Int) ≤ maxField := by
        exact_mod_cast most
      rw [Bounded]
      omega
  · exact bounded.precision
  · exact Nat.le_add_right_of_le digits

namespace Machine

/-- The significant digits that the general conversion is asked for; none count as one. -/
def significantDigits : Option Nat → Nat
  | none => defaultPrecision
  | some 0 => 1
  | some p => p

/-- The style of the general conversion. The decimal places are a difference of signed words. -/
def generalStyle (word : Nat) (r : Ratio) (p : Nat) (alt upper : Bool) : Checked FloatStyle := do
  let places ← sub p 1
  let x ← readExponent (Decimal.scientificText r (min places exactPlaces))
  let limit ← fitSigned 64 p
  if x < -4 ∨ x ≥ limit then return .scientific (← sub p 1) (!alt) alt upper
  else
    let last ← fitSigned 64 (limit - 1)
    return .fixed (← fitUnsigned word (← fitSigned 64 (last - x))) (!alt) alt

def style (word : Nat) (r : Ratio) (s : Spec) : Checked FloatStyle :=
  if s.conversion = .general then
    generalStyle word r (significantDigits s.precision) s.flags.altForm s.isUpper
  else .ok (FloatStyle.ofSpec r s)

def body (word : Nat) (x : Binary64) : FloatStyle → Checked Output
  | .fixed places strip point =>
    decimalBody word places strip point none (Decimal.fixedText x.magnitude)
  | .scientific places strip point upper =>
    decimalBody word places strip point (some (if upper then byte 'E' else byte 'e'))
      (Decimal.scientificText x.magnitude)
  | .hex precision point upper => hexBody word x precision point upper

/-- A finite number is written once to count its bytes and then into its field. -/
def float (word : Nat) (s : Spec) (x : Binary64) : Checked Output := do
  let sign := signBytes x.negative s.flags
  if x.isFinite then
    let style ← style word x.magnitude s
    let body ← body word x style
    let counted ← fit word (Output.size body)
    layout word s [sign.length, style.radixMark.length, counted]
      { lead := sign ++ style.radixMark, body, zeroable := true }
  else
    let text := nonFiniteText x s.isUpper
    layout word s [sign.length, text.length] { lead := sign, body := [.text text] }

def render (word : Nat) (s : Spec) (a : Arg) : Checked Output :=
  match s.conversion with
  | .char => (a.unsigned? .none).elim (.ok []) fun c => char word s c.toUInt8
  | .str => a.str?.elim (.ok []) (str word s)
  | .signed => (a.signed? s.length).elim (.ok []) fun v =>
    integer word s (signBytes (v < 0) s.flags) v.natAbs
  | .octal | .hex | .unsigned => (a.unsigned? s.length).elim (.ok []) (integer word s [])
  | .pointer => a.pointer?.elim (.ok []) (pointer word s)
  | .fixed | .exponent | .general | .hexFloat => a.float?.elim (.ok []) (float word s)
  | .percent | .charsWritten => .ok []

def expand (word : Nat) (d : Directive) (c : Cursor) : Checked Output := do
  let (s, c) ← resolve word d c
  if d.conversion = .percent then return [.text [byte '%']]
  else c.next.1.elim (.ok []) (render word s)

theorem significantDigits_eq (precision : Option Nat) :
    significantDigits precision = max (precision.getD defaultPrecision) 1 := by
  match precision with
  | none => rfl
  | some 0 => rfl
  | some (p + 1) => exact (Nat.max_eq_left (Nat.le_add_left 1 p)).symm

theorem significantDigits_bounds {s : Spec} (bounded : s.Bounded) :
    1 ≤ significantDigits s.precision ∧ significantDigits s.precision ≤ maxField := by
  rw [significantDigits_eq]
  exact ⟨Nat.le_max_right _ _, max_le bounded.digits (by decide)⟩

variable {word : Nat} (wide : 32 ≤ word)

theorem readExponent_magnitude {x : Binary64} (finite : x.isFinite = true) (places : Nat) :
    readExponent (Decimal.scientificText x.magnitude (min places exactPlaces)) =
      .ok (FloatStyle.roundedExponent x places) := by
  have bounds := FloatStyle.roundedExponent_bounds finite places
  rw [FloatStyle.roundedExponent] at bounds ⊢
  exact readExponent_ok _ _ (by omega)

include wide

theorem generalStyle_ok {x : Binary64} (finite : x.isFinite = true) {p : Nat} (one : 1 ≤ p)
    (most : p ≤ maxField) (alt upper : Bool) :
    generalStyle word x.magnitude p alt upper = .ok (FloatStyle.general x.magnitude p alt upper) := by
  obtain ⟨least, greatest⟩ := FloatStyle.roundedExponent_bounds finite (p - 1)
  rw [maxField] at most
  rw [generalStyle, sub_ok one, ok_bind, readExponent_magnitude finite, ok_bind,
    fitSigned_ok (by omega) (by omega), ok_bind, FloatStyle.general, ← FloatStyle.roundedExponent]
  generalize FloatStyle.roundedExponent x (p - 1) = X at least greatest
  by_cases out : X < -4 ∨ X ≥ p
  · rw [if_pos out, if_pos out]
    rfl
  · have behind : 0 ≤ (p : Int) - 1 - X := by omega
    rw [if_neg out, if_neg out, fitSigned_ok (by omega) (by omega), ok_bind,
      fitSigned_ok (by omega) (by omega), ok_bind,
      fitUnsigned_ok behind (small_word wide (by omega))]
    rfl

theorem style_ok {s : Spec} (bounded : s.Bounded) {x : Binary64} (finite : x.isFinite = true) :
    style word x.magnitude s = .ok (FloatStyle.ofSpec x.magnitude s) := by
  obtain ⟨one, most⟩ := significantDigits_bounds bounded
  rw [style]
  split
  · next general =>
    rw [generalStyle_ok wide finite one most, significantDigits_eq, FloatStyle.ofSpec, general]
  · rfl

/-- A body is written without a fault, and its size leaves room for a sign and a mark in 32 bits. -/
theorem body_ok {style : FloatStyle} (bounded : style.Bounded) {x : Binary64}
    (finite : x.isFinite = true) :
    body word x style = .ok (style.body x) ∧ Output.size (style.body x) < 2 ^ 32 - 3 := by
  cases style with
  | fixed places strip point =>
    exact decimalBody_ok wide strip point none bounded fun o =>
      Decimal.small_fixedText finite o (Nat.min_le_right _ _)
  | scientific places strip point upper =>
    exact decimalBody_ok wide strip point _ bounded fun o =>
      Decimal.small_scientificText finite o (Nat.min_le_right _ _)
  | hex precision point upper => exact hexBody_ok wide finite bounded point upper

/-- A field with a lead and a body. -/
theorem led_ok {s : Spec} (bounded : s.Bounded) {sizes : List Nat} {image : Image}
    (size : sizes.sum = image.size) (small : image.size < 2 ^ 32) :
    Renders s image (layout word s sizes
      { lead := image.lead, body := image.body, zeroable := image.zeroable }) := by
  have parts : Parts.size { lead := image.lead, body := image.body, zeroable := image.zeroable } =
      image.size := rfl
  have field := layout_ok wide bounded (sum_size wide (size.trans parts.symm) small) fun _ => small
  exact field.congr rfl rfl rfl

theorem float_ok {s : Spec} (bounded : s.Bounded) (x : Binary64) :
    Renders s (s.floatImage x) (float word s x) ∧ (s.floatImage x).size < 2 ^ 32 := by
  have sign := length_signBytes x.negative s.flags
  rw [float, Spec.floatImage]
  cases finite : x.isFinite with
  | false =>
    have text : (nonFiniteText x s.isUpper).length = 3 := by
      unfold nonFiniteText
      split <;> rfl
    have small : Image.size ⟨signBytes x.negative s.flags, [.text (nonFiniteText x s.isUpper)],
        false⟩ < 2 ^ 32 := by
      simp only [Image.size, Output.size, Chunk.size]
      omega
    exact ⟨led_ok wide bounded rfl small, small⟩
  | true =>
    obtain ⟨written, size⟩ := body_ok wide (FloatStyle.ofSpec_bounded bounded x.magnitude) finite
    rw [if_pos rfl, if_pos rfl, style_ok wide bounded finite, ok_bind, written, ok_bind]
    generalize FloatStyle.ofSpec x.magnitude s = style at size
    have mark : style.radixMark.length ≤ 2 := by
      cases style with
      | fixed | scientific => exact Nat.zero_le 2
      | hex => exact Nat.le_refl 2
    have small : Image.size ⟨signBytes x.negative s.flags ++ style.radixMark, style.body x, true⟩ <
        2 ^ 32 := by
      simp only [Image.size, List.length_append]
      omega
    rw [fit_ok (small_word wide (by omega)), ok_bind]
    refine ⟨led_ok wide bounded ?_ small, small⟩
    simp [Image.size, Nat.add_assoc]

omit wide

theorem signed?_natAbs_lt {a : Arg} {length : Length} {v : Int}
    (taken : a.signed? length = some v) : v.natAbs < 2 ^ 64 := by
  have range := Arg.inRange_signed? taken
  have most : (2 : Int) ^ (length.bits - 1) ≤ 2 ^ 63 :=
    pow_le_pow_right₀ (by decide) (Nat.sub_le_sub_right length.bits_bounds.2 1)
  simp only [InRange, if_true] at range
  omega

theorem unsigned?_lt {a : Arg} {length : Length} {v : Nat}
    (taken : a.unsigned? length = some v) : v < 2 ^ 64 := by
  have range := Arg.inRange_unsigned? taken
  have most : (2 : Int) ^ length.bits ≤ 2 ^ 64 :=
    pow_le_pow_right₀ (by decide) length.bits_bounds.2
  simp only [InRange, Bool.false_eq_true, if_false] at range
  omega

theorem pointer?_lt {a : Arg} {address : Nat} (taken : a.pointer? = some address) :
    address < 2 ^ 64 := by
  obtain ⟨raw, -, rfl⟩ := Option.map_eq_some_iff.mp taken
  exact raw.toNat_lt

/-- What is written for an argument if it is of a kind that is taken. -/
theorem elim_ok {s : Spec} {look : Option α} {image : α → Image} {run : α → Checked Output}
    (renders : ∀ v, look = some v → Renders s (image v) (run v)) :
    ∃ out, look.elim (.ok []) run = .ok out ∧ Output.toList out =
      (look.map image).elim [] fun image => Output.toList (image.fit s.flags s.width) := by
  cases look with
  | none => exact ⟨[], rfl, rfl⟩
  | some v => exact renders v rfl

include wide

/-- A conversion runs without a fault for every argument, and writes what its image is fitted to. -/
theorem render_ok {s : Spec} (bounded : s.Bounded) (a : Arg) :
    ∃ out, render word s a = .ok out ∧ Output.toList out =
      (s.image? a).elim [] fun image => Output.toList (image.fit s.flags s.width) := by
  rw [render, Spec.image?]
  cases s.conversion with
  | percent | charsWritten => exact ⟨[], rfl, rfl⟩
  | char => exact elim_ok fun c _ => char_ok wide bounded c.toUInt8
  | str => exact elim_ok fun text _ => str_ok wide bounded text
  | signed =>
    exact elim_ok fun v taken =>
      integer_ok wide bounded (length_signBytes _ _) (signed?_natAbs_lt taken)
  | octal | hex | unsigned =>
    exact elim_ok fun v taken =>
      integer_ok wide bounded (List.length_nil.trans_le (Nat.zero_le 1)) (unsigned?_lt taken)
  | pointer => exact elim_ok fun address taken => pointer_ok wide bounded (pointer?_lt taken)
  | fixed | exponent | general | hexFloat =>
    exact elim_ok fun x _ => (float_ok wide bounded x).1

omit wide

/-- The size of an image that is made of an argument if it is of a kind that is taken. -/
theorem size_map {look : Option α} {make : α → Image} {image : Image}
    (made : look.map make = some image)
    (small : ∀ v, look = some v → (make v).size < 2 ^ 32) : image.size < 2 ^ 32 := by
  obtain ⟨v, taken, rfl⟩ := Option.map_eq_some_iff.mp made
  exact small v taken

/-- The size that a width is compared with has 32 bits, for all but texts, whose size is given. -/
theorem size_image {s : Spec} (bounded : s.Bounded) {a : Arg} {image : Image}
    (made : s.image? a = some image) (other : s.conversion ≠ .str) : image.size < 2 ^ 32 := by
  rw [Spec.image?] at made
  revert made other
  cases s.conversion with
  | percent | charsWritten => exact fun made => absurd made.symm (Option.some_ne_none _)
  | str => exact fun _ other => absurd rfl other
  | char => exact fun made _ => size_map made fun c _ => Nat.one_lt_two_pow_iff.mpr (by decide)
  | signed =>
    exact fun made _ => size_map made fun v taken =>
      size_integerImage bounded (length_signBytes _ _) (signed?_natAbs_lt taken)
  | octal | hex | unsigned =>
    exact fun made _ => size_map made fun v taken =>
      size_integerImage bounded (List.length_nil.trans_le (Nat.zero_le 1)) (unsigned?_lt taken)
  | pointer =>
    exact fun made _ => size_map made fun address taken =>
      (size_pointerImage (pointer?_lt taken)).trans_lt (by decide)
  | fixed | exponent | general | hexFloat =>
    exact fun made _ => size_map made fun x _ => (float_ok (Nat.le_refl 32) bounded x).2

include wide

/-- A directive is expanded without a fault, and writes what the script of it writes. -/
theorem expand_ok {d : Directive} {c : Cursor} (bounded : (d.resolve c).1.Bounded) :
    ∃ out, expand word d c = .ok out ∧ Output.toList out = contents (d.steps c).1 := by
  rw [expand, resolve_ok wide, ok_bind, Directive.steps]
  dsimp only
  split
  · exact ⟨_, rfl, rfl⟩
  · cases (d.resolve c).2.next.1 with
    | none => exact ⟨[], rfl, rfl⟩
    | some a =>
      rw [Option.elim_some, Option.elim_some, Spec.contents_steps]
      exact render_ok wide bounded a

omit wide

/-- A directive that parses is expanded without a fault at every cursor, in words of 32 bits and in
wider ones, and so none of its operations wraps, shifts by a whole word or leaves a buffer. Width and
precision have 31 bits. Digits in the bases eight, ten and sixteen leave at least two of their 24
places free, and none of them is left out. The general conversion has a significant digit, and the
exponent that it reads back does not make its places negative; nor are those negative that are
appended as zeros. Rounding to hexadecimal digits shifts by 4 to 52 bits and leaves a decimal digit
in front. All sizes that are summed for a width have 32 bits. -/
theorem directives_stay_in_words {features : Features} {fmt : Bytes} {d : Directive} {n : Nat}
    (parsed : Directive.parse? features fmt = some (d, n)) {word : Nat} (wide : 32 ≤ word)
    (c : Cursor) :
    let s := (d.resolve c).1
    let P := significantDigits s.precision
    (s.width ≤ 2147483647 ∧ ∀ p ∈ s.precision, p ≤ 2147483647) ∧
    (∃ out, expand word d c = .ok out ∧ Output.toList out = contents (d.steps c).1) ∧
    (∀ base ∈ [8, 10, 16], ∀ upper, ∀ value < 2 ^ 64, ∃ filling,
      fillDigits base upper value = .ok filling ∧ filling.left = 0 ∧
      digitPlaces - filling.place ≤ 22 ∧
      behind filling.buffer filling.place = .ok (Radix.text base upper value)) ∧
    (1 ≤ P ∧ ∀ x : Binary64, x.isFinite = true → ∃ X,
      readExponent (Decimal.scientificText x.magnitude (min (P - 1) exactPlaces)) = .ok X ∧
      -324 ≤ X ∧ X ≤ 309 ∧ (¬(X < -4 ∨ X ≥ P) → 0 ≤ (P : Int) - 1 - X)) ∧
    (∀ places strip, ∃ tail, splitPlaces places strip = .ok (min places exactPlaces, tail)) ∧
    (∀ p < 13, ∃ shift, droppedBits word p = .ok shift ∧ 4 ≤ shift ∧ shift ≤ 52) ∧
    (∀ x precision, ∃ digits, hexDigits word x precision = .ok digits ∧ digits.lead ≤ 9) ∧
    (∀ a image, s.image? a = some image → s.conversion ≠ .str → image.size < 2 ^ 32) := by
  intro s P
  have bounded : s.Bounded := Directive.resolve_bounded parsed c
  refine ⟨⟨bounded.width, bounded.precision⟩, expand_ok wide bounded, ?_,
    ⟨(significantDigits_bounds bounded).1, ?_⟩, ?_, ?_, ?_, fun _ _ => size_image bounded⟩
  · intro base among upper value word64
    have bases : 8 ≤ base ∧ base ≤ 16 := by
      revert base
      decide
    obtain ⟨filling, filled, none, count, few, size, text⟩ :=
      fillDigits_ok bases.1 bases.2 upper word64
    refine ⟨filling, filled, none, by omega, ?_⟩
    rw [behind_ok (by omega), text]
  · intro x finite
    have bounds := FloatStyle.roundedExponent_bounds finite (P - 1)
    exact ⟨_, readExponent_magnitude finite (P - 1), by omega, by omega, by omega⟩
  · exact fun places strip => ⟨_, splitPlaces_ok places strip⟩
  · exact fun p few => ⟨_, droppedBits_ok wide few, by omega, by omega⟩
  · intro x precision
    have lead := (Hex.digits_proper x precision).lead
    exact ⟨_, hexDigits_ok wide x precision, by omega⟩

/-- The magnitude of the least number of 32 bits has no place in a signed word; as a width it is cut
to the greatest one. -/
theorem directives_stay_in_words_extremes :
    let fmt := utf8 "%#0*.*g"
    let d : Directive :=
      ⟨⟨false, false, false, true, true⟩, .fromArg, .fromArg, .none, .general, .lower⟩
    let c := Cursor.ofList
      [.int (-2147483648), .int 2147483647, .float ⟨0x3ff8000000000000⟩]
    Directive.parse? ⟨true, true⟩ fmt = some (d, fmt.length) ∧ 32 ≤ 32 ∧
    (d.resolve c).1.width = 2147483647 ∧ (d.resolve c).1.precision = some 2147483647 ∧
    ∃ out, expand 32 d c = .ok out ∧ Output.toList out = contents (d.steps c).1 := by
  intro fmt d c
  have parsed : Directive.parse? ⟨true, true⟩ fmt = some (d, fmt.length) := by decide
  obtain ⟨-, expanded, -⟩ := directives_stay_in_words parsed (Nat.le_refl 32) c
  exact ⟨parsed, Nat.le_refl 32, by decide, by decide, expanded⟩

/-- Words of eight bits are too narrow for the zeros of a field with 300 places. -/
example : expand 8 ⟨⟨false, false, false, false, true⟩, .fixed 300, .unset, .none, .signed, .lower⟩
    (.ofList [.int 1]) = .error .overflow := by decide

end Machine
end Printf
