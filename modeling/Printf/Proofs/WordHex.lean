import Printf.Proofs.HexFloat
import Printf.Proofs.WordLayout

/-! Hexadecimal texts of doubles by bits. A precision cuts digits off with a shift and rounds with
the bits that it drops; a carry into the leading digit is seen by another shift. All shifts stay in
their words and the result is the rounded significand. -/
namespace Printf

namespace Hex

variable (x : Binary64)

/-- Rounding looks at the dropped bits of the fraction only, and at the last digit that is kept. -/
theorem rounded_eq {p : Nat} (few : p < 13) :
    let unit := 2 ^ ((13 - p) * 4)
    let rest := x.fractionField % unit
    let kept := x.significand / Binary64.leadingBit * 16 ^ p + x.fractionField / unit
    rounded x p = if unit < 2 * rest ∨ 2 * rest = unit ∧ kept % 2 = 1 then kept + 1 else kept := by
  intro unit rest kept
  obtain ⟨-, split⟩ := significand_split x
  have power : unit = 16 ^ (13 - p) := by
    rw [show 16 = 2 ^ 4 by rfl, ← Nat.pow_mul, Nat.mul_comm]
  have thirteen : (16 : Nat) ^ 13 = unit * 16 ^ p := by
    rw [power, ← Nat.pow_add, Nat.sub_add_cancel few.le]
  have whole : x.significand = unit * (x.significand / Binary64.leadingBit * 16 ^ p) +
      x.fractionField := by
    rw [Nat.mul_left_comm, ← thirteen, split]
  have positive : 0 < unit := Nat.two_pow_pos _
  have quotient : x.significand / unit = kept := by
    rw [whole, Nat.mul_add_div positive]
  have remainder : x.significand % unit = rest := by
    rw [whole, Nat.mul_add_mod]
  have scale : (Ratio.ofNat x.significand).timesPow 16 ((p : Int) - fullNibbles) =
      ⟨x.significand, unit, positive⟩ := by
    have negative : (p : Int) - fullNibbles = .negSucc (12 - p) := by
      rw [fullNibbles]
      omega
    have unit : 1 * Nat.pow 16 (12 - p + 1) = unit := by
      rw [Nat.one_mul, Nat.pow_eq, power]
      congr 1
      omega
    rw [negative]
    simp only [Ratio.timesPow, Ratio.ofNat, unit]
  rw [rounded, scale, Ratio.round]
  dsimp only
  rw [quotient, remainder]

end Hex
namespace Machine

def lowBits (bits n k : Nat) : Checked Nat := do
  return n &&& (← sub (← shiftLeft bits 1 k) 1)

/-- The bits of the digits that a precision leaves out of a fraction. -/
def droppedBits (word p : Nat) : Checked Nat := do mul word (← sub Hex.fullNibbles p) 4

/-- Adds one to a fraction of so many digits, with a carry into the leading one. -/
def carryNibbles (word lead fraction p : Nat) : Checked Hex.Digits := do
  let up ← add 64 fraction 1
  let places ← mul word p 4
  let carry ← shiftRight 64 up places
  if carry = 0 then return ⟨lead, up, p⟩
  else return ⟨← add 64 lead 1, ← lowBits 64 up places, p⟩

def roundNibbles (word lead fraction p : Nat) : Checked Hex.Digits := do
  let shift ← droppedBits word p
  let rest ← lowBits 64 fraction shift
  let half ← shiftLeft 64 1 (← sub shift 1)
  let kept ← shiftRight 64 fraction shift
  let odd := if p = 0 then lead &&& 1 = 1 else kept &&& 1 = 1
  if half < rest ∨ rest = half ∧ odd then carryNibbles word lead kept p
  else return ⟨lead, kept, p⟩

def trimNibbles (lead : Nat) : Nat → Nat → Checked Hex.Digits
  | 0, fraction => .ok ⟨lead, fraction, 0⟩
  | nibbles + 1, fraction =>
    if fraction &&& 15 = 0 then do trimNibbles lead nibbles (← shiftRight 64 fraction 4)
    else .ok ⟨lead, fraction, nibbles + 1⟩

def fields (x : Binary64) : Checked (Nat × Nat) := do
  let bits := x.bits.toNat % 2 ^ 63
  return (← shiftRight 64 bits 52, ← lowBits 64 bits 52)

def hexDigits (word : Nat) (x : Binary64) (precision : Option Nat) : Checked Hex.Digits := do
  let (exponent, fraction) ← fields x
  let lead := if exponent = 0 then 0 else 1
  match precision with
  | none => trimNibbles lead Hex.fullNibbles fraction
  | some p =>
    if p < Hex.fullNibbles then roundNibbles word lead fraction p
    else .ok ⟨lead, fraction, Hex.fullNibbles⟩

def hexExponent (x : Binary64) : Checked Int := do
  let (exponent, fraction) ← fields x
  if exponent = 0 then return if fraction = 0 then 0 else -1022
  else fitSigned 64 (exponent - 1023)

def nibbleText (word : Nat) (upper : Bool) (nibbles fraction : Nat) : Checked Bytes :=
  (List.range nibbles).reverse.mapM fun i => do
    digit upper ((← shiftRight 64 fraction (← mul word i 4)) &&& 15)

def hexBody (word : Nat) (x : Binary64) (precision : Option Nat) (point upper : Bool) :
    Checked Output := do
  let d ← hexDigits word x precision
  let lead ← fitByte (48 + d.lead)
  let extra := precision.getD 0 - Hex.fullNibbles
  let digits ← nibbleText word upper d.nibbles d.fraction
  let exponent ← hexExponent x
  let magnitude ← digitText 10 false exponent.natAbs
  return [.text (lead ::
      (if 0 < d.nibbles ∨ 0 < extra ∨ point then [byte '.'] else []) ++ digits),
    .fill extra (byte '0'),
    .text ([if upper then byte 'P' else byte 'p', if exponent < 0 then byte '-' else byte '+'] ++
      magnitude)]

theorem lowBits_ok {bits k : Nat} (inside : k < bits) (n : Nat) :
    lowBits bits n k = .ok (n % 2 ^ k) := by
  rw [lowBits, shiftLeft_one inside, ok_bind, sub_ok Nat.one_le_two_pow, ok_bind,
    Nat.and_two_pow_sub_one_eq_mod]
  rfl

theorem fields_ok (x : Binary64) : fields x = .ok (x.exponentField, x.fractionField) := by
  have exponent : x.bits.toNat % 2 ^ 63 / 2 ^ 52 = x.exponentField := by
    rw [Binary64.exponentField, Binary64.leadingBit]
    omega
  have fraction : x.bits.toNat % 2 ^ 63 % 2 ^ 52 = x.fractionField := by
    rw [Binary64.fractionField, Binary64.leadingBit]
    omega
  rw [fields, shiftRight_ok (by decide), ok_bind, lowBits_ok (by decide), ok_bind, exponent,
    fraction]
  rfl

theorem lead_eq (x : Binary64) :
    (if x.exponentField = 0 then 0 else 1) = x.significand / Binary64.leadingBit := by
  have small := x.fractionField_lt
  rw [Binary64.significand, Binary64.leadingBit]
  split <;> omega

theorem trimNibbles_ok (lead nibbles fraction : Nat) :
    trimNibbles lead nibbles fraction = .ok (Hex.trim lead nibbles fraction) := by
  induction nibbles generalizing fraction with
  | zero => rfl
  | succ nibbles ih =>
    have last : fraction &&& 15 = fraction % 16 := Nat.and_two_pow_sub_one_eq_mod fraction 4
    rw [trimNibbles, Hex.trim, last, shiftRight_ok (by decide), ok_bind, ih]
    split <;> rfl

theorem hexExponent_ok {x : Binary64} (finite : x.isFinite = true) :
    hexExponent x = .ok (Hex.exponent x) := by
  have small := Binary64.exponentField_lt finite
  rw [hexExponent, fields_ok, ok_bind, Hex.exponent_eq, Binary64.leadingExponent, Binary64.isZero]
  by_cases subnormal : x.exponentField = 0
  · simp [subnormal, pure, Except.pure]
  · simp only [subnormal, beq_eq_false_iff_ne.mpr subnormal, Bool.false_and, Bool.false_eq_true,
      if_false]
    exact fitSigned_ok (by omega) (by omega)

theorem mapM_ok {f : α → Checked β} {g : α → β} {xs : List α} (each : ∀ a ∈ xs, f a = .ok (g a)) :
    xs.mapM f = .ok (xs.map g) := by
  induction xs with
  | nil => rfl
  | cons a xs ih =>
    obtain ⟨first, behind⟩ := List.forall_mem_cons.mp each
    rw [List.mapM_cons, first, ok_bind, ih behind]
    rfl

theorem lastDigits_eq (nibbles fraction : Nat) : Radix.lastDigits 16 nibbles fraction =
    (List.range nibbles).reverse.map fun i => fraction / 2 ^ (i * 4) % 16 := by
  induction nibbles generalizing fraction with
  | zero => rfl
  | succ nibbles ih =>
    have next (i : Nat) : fraction / 16 / 2 ^ (i * 4) = fraction / 2 ^ ((i + 1) * 4) := by
      rw [Nat.div_div_eq_div_mul, Nat.add_mul, Nat.pow_add, Nat.mul_comm 16]
    rw [Radix.lastDigits, ih, List.range_succ_eq_map, List.reverse_cons, List.map_append,
      ← List.map_reverse, List.map_map]
    simp only [next]
    simp

theorem nibbleText_ok {word : Nat} (wide : 32 ≤ word) (upper : Bool) {nibbles : Nat}
    (few : nibbles ≤ 13) (fraction : Nat) : nibbleText word upper nibbles fraction =
      .ok ((Radix.lastDigits 16 nibbles fraction).map (Radix.digitByte upper)) := by
  rw [nibbleText, lastDigits_eq, List.map_map]
  apply mapM_ok
  intro i member
  rw [List.mem_reverse, List.mem_range] at member
  have last (n : Nat) : n &&& 15 = n % 16 := Nat.and_two_pow_sub_one_eq_mod n 4
  rw [mul_ok (small_word wide (by omega)), ok_bind, shiftRight_ok (by omega), ok_bind, last]
  exact digit_ok upper (Nat.mod_lt _ (by decide))

theorem droppedBits_ok {word : Nat} (wide : 32 ≤ word) {p : Nat} (few : p < 13) :
    droppedBits word p = .ok ((13 - p) * 4) := by
  rw [droppedBits, Hex.fullNibbles, sub_ok few.le, ok_bind, mul_ok (small_word wide (by omega))]

/-- The last digit that is kept is odd if the whole number is. -/
theorem odd_iff (lead : Nat) {kept p : Nat} (few : p = 0 → kept = 0) :
    (if p = 0 then lead &&& 1 = 1 else kept &&& 1 = 1) ↔ (lead * 16 ^ p + kept) % 2 = 1 := by
  rw [Nat.and_one_is_mod, Nat.and_one_is_mod]
  cases p with
  | zero => simp [few rfl]
  | succ p =>
    rw [if_neg (Nat.succ_ne_zero p), Nat.pow_succ, ← Nat.mul_assoc]
    omega

theorem carryNibbles_ok {word : Nat} (wide : 32 ≤ word) {lead fraction p : Nat} (one : lead ≤ 1)
    (few : p < 13) (inside : fraction < 16 ^ p) :
    carryNibbles word lead fraction p =
      .ok ⟨lead + (fraction + 1) / 16 ^ p, (fraction + 1) % 16 ^ p, p⟩ := by
  have places : 2 ^ (p * 4) = 16 ^ p := by rw [Nat.mul_comm, Nat.pow_mul]
  have positive : 0 < 16 ^ p := Nat.pow_pos (by decide)
  have word64 : 16 ^ p < 2 ^ 63 := by
    rw [← places]
    exact Nat.pow_lt_pow_right (by decide) (by omega)
  rw [carryNibbles, add_ok (by omega), ok_bind, mul_ok (small_word wide (by omega)), ok_bind,
    shiftRight_ok (by omega), ok_bind, places]
  by_cases carry : (fraction + 1) / 16 ^ p = 0
  · have stays := (Nat.div_eq_zero_iff_lt positive).mp carry
    rw [if_pos carry, carry, Nat.mod_eq_of_lt stays]
    rfl
  · have next : (fraction + 1) / 16 ^ p = 1 := by
      apply le_antisymm _ (Nat.pos_of_ne_zero carry)
      apply Nat.div_le_of_le_mul
      omega
    rw [if_neg carry, add_ok (by omega), ok_bind, lowBits_ok (by omega), ok_bind, places, next]
    rfl

/-- The digits that are kept of a fraction. -/
theorem kept_lt (x : Binary64) {p : Nat} (few : p < 13) :
    x.fractionField / 2 ^ ((13 - p) * 4) < 16 ^ p := by
  have places : 16 ^ p = 2 ^ (p * 4) := by rw [Nat.mul_comm, Nat.pow_mul]
  apply Nat.div_lt_of_lt_mul
  rw [places, ← Nat.pow_add]
  refine x.fractionField_lt.trans_le (Nat.pow_le_pow_right (by decide) ?_)
  omega

theorem roundNibbles_ok {word : Nat} (wide : 32 ≤ word) (x : Binary64) {p : Nat} (few : p < 13) :
    roundNibbles word (x.significand / Binary64.leadingBit) x.fractionField p =
      .ok (Hex.digits x (some p)) := by
  have rounded := Hex.rounded_eq x few
  have kept := kept_lt x few
  obtain ⟨one, -⟩ := Hex.significand_split x
  have half : 2 ^ ((13 - p) * 4) = 2 * 2 ^ ((13 - p) * 4 - 1) := by
    rw [← Nat.pow_succ']
    congr 1
    omega
  rw [roundNibbles, droppedBits_ok wide few, ok_bind, lowBits_ok (by omega), ok_bind,
    sub_ok (by omega), ok_bind, shiftLeft_one (by omega), ok_bind, shiftRight_ok (by omega), ok_bind,
    Hex.digits_few x few, rounded]
  generalize x.significand / Binary64.leadingBit = lead at one
  generalize x.fractionField / 2 ^ ((13 - p) * 4) = m at kept ⊢
  generalize x.fractionField % 2 ^ ((13 - p) * 4) = rest
  rw [half]
  generalize 2 ^ ((13 - p) * 4 - 1) = h
  have positive : 0 < 16 ^ p := Nat.pow_pos (by decide)
  have none : p = 0 → m = 0 := by
    rintro rfl
    omega
  have odd := odd_iff lead none
  have up : h < rest ∨ rest = h ∧ (if p = 0 then lead &&& 1 = 1 else m &&& 1 = 1) ↔
      2 * h < 2 * rest ∨ 2 * rest = 2 * h ∧ (lead * 16 ^ p + m) % 2 = 1 := by
    rw [odd]
    omega
  by_cases more : 2 * h < 2 * rest ∨ 2 * rest = 2 * h ∧ (lead * 16 ^ p + m) % 2 = 1
  · rw [if_pos (up.mpr more), if_pos more, carryNibbles_ok wide one few kept, Nat.add_assoc,
      Nat.mul_comm, Nat.mul_add_div positive, Nat.mul_add_mod]
  · rw [if_neg (mt up.mp more), if_neg more, Nat.mul_comm, Nat.mul_add_div positive,
      Nat.mul_add_mod, Nat.mod_eq_of_lt kept, Nat.div_eq_of_lt kept]
    rfl

theorem hexDigits_ok {word : Nat} (wide : 32 ≤ word) (x : Binary64) (precision : Option Nat) :
    hexDigits word x precision = .ok (Hex.digits x precision) := by
  rw [hexDigits, fields_ok, ok_bind]
  dsimp only
  rw [lead_eq]
  cases precision with
  | none => exact trimNibbles_ok _ _ _
  | some p =>
    by_cases few : p < 13
    · exact (if_pos few).trans (roundNibbles_ok wide x few)
    · exact (if_neg few).trans (congrArg _ (Hex.digits_many x (Nat.le_of_not_lt few)).symm)

theorem few_nibbles (x : Binary64) (precision : Option Nat) :
    (Hex.digits x precision).nibbles ≤ 13 := by
  cases precision with
  | none => exact (Hex.digits_none x).2.1
  | some p =>
    by_cases few : p < 13
    · rw [Hex.digits_few x few]
      exact few.le
    · rw [Hex.digits_many x (Nat.le_of_not_lt few)]

/-- The hexadecimal text of a double by bits is that of its rounded significand, and fits a word of
32 bits together with a sign and a mark. -/
theorem hexBody_ok {word : Nat} (wide : 32 ≤ word) {x : Binary64} (finite : x.isFinite = true)
    {precision : Option Nat} (bounded : ∀ p ∈ precision, p ≤ maxField) (point upper : Bool) :
    hexBody word x precision point upper = .ok (Hex.body x precision point upper) ∧
    Output.size (Hex.body x precision point upper) < 2 ^ 32 - 3 := by
  have few := few_nibbles x precision
  have lead := (Hex.digits_proper x precision).lead
  have small : (Hex.exponent x).natAbs < 2 ^ 64 := by
    have scale := Binary64.scale_bounds finite
    rw [Hex.exponent]
    split <;> omega
  have digit : fitByte (48 + (Hex.digits x precision).lead) =
      .ok (Radix.digitByte upper (Hex.digits x precision).lead) := by
    rw [Radix.digitByte, if_pos (by omega)]
    exact fitByte_ok (by omega)
  constructor
  · rw [hexBody, hexDigits_ok wide, ok_bind, digit, ok_bind, nibbleText_ok wide upper few, ok_bind,
      hexExponent_ok finite, ok_bind, digitText_decimal small, ok_bind]
    rfl
  · have extra : precision.getD 0 ≤ maxField := getD_le_maxField bounded (Nat.zero_le _)
    have magnitude := length_decimal_le small
    have mark : (if 0 < (Hex.digits x precision).nibbles ∨ 0 < precision.getD 0 - Hex.fullNibbles ∨
        point then [byte '.'] else []).length ≤ 1 := by split <;> simp
    rw [maxField] at extra
    simp only [Hex.body, Output.size, Chunk.size, List.length_append, List.length_cons,
      List.length_nil, List.length_map, Radix.length_lastDigits]
    omega

end Machine
end Printf
