import Mathlib.Data.Int.ModEq
import Printf.Proofs.Numeral
import Printf.Proofs.Padding

/-! Integer conversions. The number written is the argument cut down to the bits that the length
selects, and its sign, mark and digits are told apart and read back from the text. -/
namespace Printf

def Arg.integer? : Arg → Option Int
  | .int v => some v.toInt
  | .uint v => some v.toNat
  | .char c => some c.toNat
  | .ptr a => some a.toNat
  | .float _ | .str _ | .count _ => none

def InRange (signed : Bool) (k : Nat) (v : Int) : Prop :=
  if signed then -2 ^ (k - 1) ≤ v ∧ v < 2 ^ (k - 1) else 0 ≤ v ∧ v < 2 ^ k

/-- The pattern of an argument is its number modulo the size of a word. -/
theorem Arg.bits?_integer {a : Arg} {z : Int} (integer : a.integer? = some z) :
    ∃ raw : UInt64, a.bits? = some raw ∧ (raw.toNat : Int) ≡ z [ZMOD 2 ^ 64] := by
  cases a with
  | int v =>
    cases integer
    refine ⟨v.toUInt64, rfl, ?_⟩
    have word : v.toInt = (v.toUInt64.toNat : Int).bmod (2 ^ 64) := BitVec.toInt_eq_toNat_bmod _
    rw [word]
    exact Int.bmod_emod.symm
  | uint v => cases integer; exact ⟨v, rfl, rfl⟩
  | char c =>
    cases integer
    exact ⟨c.toUInt64, rfl, by rw [UInt8.toNat_toUInt64]⟩
  | ptr a => cases integer; exact ⟨a, rfl, rfl⟩
  | float x => cases integer
  | str text => cases integer
  | count cell => cases integer

theorem Length.bits_bounds (length : Length) : 0 < length.bits ∧ length.bits ≤ 64 := by
  cases length <;> decide

/-- Numbers of one range that are congruent are equal. -/
theorem InRange.unique {signed : Bool} {k : Nat} (positive : 0 < k) {v v' : Int}
    (range : InRange signed k v) (range' : InRange signed k v') (congr : v' ≡ v [ZMOD 2 ^ k]) :
    v' = v := by
  obtain ⟨c, apart⟩ := congr.dvd
  have double : (2 : Int) ^ k = 2 ^ (k - 1) + 2 ^ (k - 1) := by
    rw [← Int.two_mul, ← Int.pow_succ', Nat.sub_add_cancel positive]
  have size : -2 ^ k < v - v' ∧ v - v' < 2 ^ k := by
    cases signed <;> simp only [InRange, if_true, Bool.false_eq_true, if_false] at range range' <;>
      omega
  have none : c = 0 := by
    rw [apart] at size
    by_contra other
    rcases Int.lt_or_gt_of_ne other with below | above
    · have := Int.mul_le_mul_of_nonneg_left (show c ≤ -1 by omega) (show 0 ≤ (2 : Int) ^ k by omega)
      omega
    · have := Int.mul_le_mul_of_nonneg_left (show 1 ≤ c by omega) (show 0 ≤ (2 : Int) ^ k by omega)
      omega
  rw [none, Int.mul_zero] at apart
  omega

theorem Arg.inRange_signed? {a : Arg} {length : Length} {v : Int}
    (taken : a.signed? length = some v) : InRange true length.bits v := by
  obtain ⟨raw, -, rfl⟩ := Option.map_eq_some_iff.mp taken
  have double : Nat.pow 2 length.bits = 2 * 2 ^ (length.bits - 1) := by
    rw [← Nat.pow_succ', Nat.succ_eq_add_one, Nat.sub_add_cancel length.bits_bounds.1]
    rfl
  have size := Nat.two_pow_pos (length.bits - 1)
  have low := Int.le_bmod (x := raw.toNat) (m := Nat.pow 2 length.bits) (by omega)
  have high := Int.bmod_lt (x := raw.toNat) (m := Nat.pow 2 length.bits) (by omega)
  have cast : ((2 ^ (length.bits - 1) : Nat) : Int) = 2 ^ (length.bits - 1) := by simp
  simp only [InRange, if_true, ← cast]
  omega

theorem Arg.inRange_unsigned? {a : Arg} {length : Length} {v : Nat}
    (taken : a.unsigned? length = some v) : InRange false length.bits v := by
  obtain ⟨raw, -, rfl⟩ := Option.map_eq_some_iff.mp taken
  have cast : ((Nat.pow 2 length.bits : Nat) : Int) = 2 ^ length.bits := by simp
  have size : raw.toNat % Nat.pow 2 length.bits < Nat.pow 2 length.bits :=
    Nat.mod_lt _ (Nat.two_pow_pos _)
  simp only [InRange, Bool.false_eq_true, if_false, ← cast]
  omega

/-- What a signed conversion takes an argument for. -/
theorem Arg.signed?_inRange {a : Arg} {z : Int} (integer : a.integer? = some z) (length : Length) :
    ∃ v, a.signed? length = some v ∧ v ≡ z [ZMOD 2 ^ length.bits] ∧
      InRange true length.bits v := by
  obtain ⟨raw, bits, congr⟩ := bits?_integer integer
  have taken : a.signed? length = some ((raw.toNat : Int).bmod (Nat.pow 2 length.bits)) := by
    rw [signed?, bits]
    rfl
  have small : (raw.toNat : Int) ≡ z [ZMOD 2 ^ length.bits] :=
    congr.of_dvd (pow_dvd_pow 2 length.bits_bounds.2)
  refine ⟨_, taken, Int.ModEq.trans ?_ small, inRange_signed? taken⟩
  have cast : ((Nat.pow 2 length.bits : Nat) : Int) = 2 ^ length.bits := by simp
  rw [← cast]
  exact Int.bmod_emod

/-- What an unsigned conversion takes an argument for. -/
theorem Arg.unsigned?_inRange {a : Arg} {z : Int} (integer : a.integer? = some z)
    (length : Length) :
    ∃ v : Nat, a.unsigned? length = some v ∧ (v : Int) ≡ z [ZMOD 2 ^ length.bits] ∧
      InRange false length.bits v := by
  obtain ⟨raw, bits, congr⟩ := bits?_integer integer
  have taken : a.unsigned? length = some (raw.toNat % Nat.pow 2 length.bits) := by
    rw [unsigned?, bits]
    rfl
  have small : (raw.toNat : Int) ≡ z [ZMOD 2 ^ length.bits] :=
    congr.of_dvd (pow_dvd_pow 2 length.bits_bounds.2)
  refine ⟨_, taken, Int.ModEq.trans ?_ small, inRange_unsigned? taken⟩
  have cast : ((Nat.pow 2 length.bits : Nat) : Int) = 2 ^ length.bits := by simp
  rw [← cast, Int.natCast_emod]
  exact Int.mod_modEq _ _

namespace Spec

variable (s : Spec) (m : Nat)

theorem base_eq : s.base = if s.conversion = .octal then 8 else if s.conversion = .hex then 16 else 10 := by
  rw [base]
  cases s.conversion <;> rfl

def capitals : Bool := s.conversion = .hex && s.isUpper

theorem digits_lt : ∀ d ∈ (if m = 0 ∧ s.precision = some 0 then [] else Radix.numeral s.base m),
    d < s.base := by
  intro d member
  split at member
  · cases member
  · exact Radix.numeral_lt s.base_bounds.1 m d member

theorem isDigits_digits : IsDigits s.base s.capitals (s.digits m) :=
  isDigits_map s.base_bounds.2 _ (s.digits_lt m)

theorem readDigits_digits : readDigits s.base s.capitals (s.digits m) = m := by
  refine (readDigits_map (fun d digit => ?_) _ _).trans ?_
  · have := s.digits_lt m d digit
    have := s.base_bounds
    omega
  · split
    · next empty => exact empty.1.symm
    · exact Radix.value_numeral s.base_bounds.1 m

theorem length_digits : (s.digits m).length =
    if m = 0 ∧ s.precision = some 0 then 0 else max 1 (s.base.digits m).length := by
  rw [digits, List.length_map]
  split
  · rfl
  · exact Radix.length_numeral s.base_bounds.1 m

theorem head_digits : (s.digits m).head? = some (byte '0') ↔ m = 0 ∧ s.precision ≠ some 0 := by
  by_cases zero : m = 0
  · by_cases none : s.precision = some 0
    · simp [digits, zero, none]
    · simp [digits, zero, none, Radix.numeral, Radix.digitByte, byte]
  · have digit : ∀ d < 16, ∀ upper, Radix.digitByte upper d = byte '0' → d = 0 := by decide
    have first : (Radix.significant s.base m).head? ≠ some 0 := Radix.head_significant s.base_bounds.1 m
    simp only [digits, zero, false_and, if_false, Radix.numeral, List.head?_map,
      Option.map_eq_some_iff, iff_false]
    rintro ⟨d, head, same⟩
    have small := Radix.significant_lt s.base m d (List.mem_of_mem_head? head)
    have bound := s.base_bounds.2
    rw [digit d (by omega) _ same] at head
    exact first head

theorem digits_ne_nil {b : Nat} (positive : m ≠ 0) : 0 < (b.digits m).length :=
  List.length_pos_iff.mpr (Nat.digits_ne_nil_iff_ne_zero.mpr positive)

/-- The precision is a least number of digits. -/
theorem precisionZeros_add : s.precisionZeros m + (s.digits m).length =
    max (s.precision.getD 1) (s.base.digits m).length := by
  rw [precisionZeros, length_digits]
  by_cases zero : m = 0
  · rcases s.precision with _ | _ | p <;> simp [zero]
  · have := digits_ne_nil m (b := s.base) zero
    simp only [zero, false_and, if_false]
    omega

/-- Some zero leads an octal number already, just if its precision exceeds its significant digits. -/
theorem noZero_iff : s.precisionZeros m = 0 ∧ (s.digits m).head? ≠ some (byte '0') ↔
    s.precision.getD 1 ≤ (s.base.digits m).length := by
  rw [precisionZeros, Ne, head_digits, length_digits]
  by_cases zero : m = 0
  · rcases s.precision with _ | _ | p <;> simp [zero]
  · have := digits_ne_nil m (b := s.base) zero
    simp only [zero, false_and, if_false, not_false_eq_true, and_true]
    omega

/-- The zero of the alternative form, which is one of the digits of an octal number. -/
def octalZero : Bytes := if s.conversion = .octal then s.radixMark m else []

def hexMark : Bytes := if s.conversion = .hex then s.radixMark m else []

theorem radixMark_eq : s.radixMark m = s.hexMark m ++ s.octalZero m := by
  rw [hexMark, octalZero, radixMark]
  cases s.conversion <;> simp

def written : Bytes := s.octalZero m ++ (zeros (s.precisionZeros m) ++ s.digits m)

theorem octalZero_eq : s.octalZero m =
    if (s.conversion = .octal ∧ s.flags.altForm = true) ∧
      s.precision.getD 1 ≤ (s.base.digits m).length then [byte '0'] else [] := by
  rw [octalZero, radixMark]
  simp only [← noZero_iff]
  cases s.conversion <;> cases s.flags.altForm <;> simp

theorem octalZero_zeros : ∃ n, s.octalZero m = zeros n := by
  rw [octalZero_eq]
  split
  · exact ⟨1, rfl⟩
  · exact ⟨0, rfl⟩

theorem isDigits_written : IsDigits s.base s.capitals (s.written m) := by
  have positive : 0 < s.base := by have := s.base_bounds; omega
  obtain ⟨n, zero⟩ := s.octalZero_zeros m
  rw [written, zero]
  apply (isDigits_zeros positive s.base_bounds.2 _ n).append
  apply (isDigits_zeros positive s.base_bounds.2 _ _).append
  exact s.isDigits_digits m

theorem readDigits_written : readDigits s.base s.capitals (s.written m) = m := by
  obtain ⟨n, zero⟩ := s.octalZero_zeros m
  rw [written, zero, readDigits_append, readDigits_append, zeros, zeros, readDigits_zeros,
    readDigits_zeros, readDigits_digits, Nat.zero_mul, Nat.zero_mul, Nat.zero_add, Nat.zero_add]

/-- The alternative form of an octal number asks for one digit more than the number has. -/
theorem length_written : (s.written m).length = max (s.precision.getD 1)
    ((s.base.digits m).length + if s.conversion = .octal ∧ s.flags.altForm = true then 1 else 0) := by
  rw [written, List.length_append, List.length_append, zeros, List.length_replicate,
    precisionZeros_add, octalZero_eq]
  by_cases marked : s.conversion = .octal ∧ s.flags.altForm = true
  · by_cases short : s.precision.getD 1 ≤ (s.base.digits m).length
    · simp only [marked, short, and_self, if_true, List.length_singleton]
      omega
    · simp only [marked, short, and_self, and_false, if_true, if_false, List.length_nil]
      omega
  · simp only [marked, false_and, if_false, List.length_nil]
    omega

theorem head_written (octal : s.conversion = .octal) (alt : s.flags.altForm = true) :
    (s.written m).head? = some (byte '0') := by
  rw [written, octalZero_eq]
  by_cases short : s.precision.getD 1 ≤ (s.base.digits m).length
  · rw [if_pos ⟨⟨octal, alt⟩, short⟩]
    rfl
  · rw [if_neg fun both => short both.2]
    cases more : s.precisionZeros m with
    | zero => exact not_not.mp fun other => short ((s.noZero_iff m).mp ⟨more, other⟩)
    | succ n => rfl

theorem hexMark_eq : s.hexMark m =
    if s.conversion = .hex ∧ s.flags.altForm = true ∧ m ≠ 0 then
      if s.isUpper then utf8 "0X" else utf8 "0x" else [] := by
  rw [hexMark, radixMark]
  by_cases hex : s.conversion = .hex
  · cases s.flags.altForm <;> cases s.isUpper <;> by_cases zero : m = 0 <;> simp [hex, zero] <;> rfl
  · simp [hex]

/-- The parts of the text of an integer. -/
theorem integerImage_text (sign : Bytes) : (s.integerImage sign m).lead ++
    Output.toList (s.integerImage sign m).body = sign ++ (s.hexMark m ++ s.written m) := by
  simp [integerImage, radixMark_eq, written, zeros, Chunk.toList]

/-- The image of an integer is that of the number of its range. -/
theorem image?_integer {s : Spec} {a : Arg} {z : Int} (integer : a.integer? = some z)
    (kind : s.conversion ∈ [.signed, .octal, .hex, .unsigned]) :
    ∃ v : Int, v ≡ z [ZMOD 2 ^ s.length.bits] ∧ InRange (s.conversion = .signed) s.length.bits v ∧
      s.image? a = some (s.integerImage
        (if s.conversion = .signed then signBytes (v < 0) s.flags else []) v.natAbs) := by
  simp only [List.mem_cons, List.not_mem_nil, or_false] at kind
  rcases kind with signed | octal | hex | unsigned
  · obtain ⟨v, taken, congr, range⟩ := Arg.signed?_inRange integer s.length
    exact ⟨v, congr, by simpa [signed] using range, by simp [image?, signed, taken, signedImage]⟩
  all_goals
    obtain ⟨v, taken, congr, range⟩ := Arg.unsigned?_inRange integer s.length
    exact ⟨v, congr, by simp_all, by simp_all [image?, unsignedImage]⟩

end Spec

theorem Directive.resolve_length (d : Directive) (c : Cursor) :
    (d.resolve c).1.length = d.length := by
  rw [resolve_eq]
  rfl

/-- An integer conversion writes the number that its argument is congruent to in the range of the
length, signed or unsigned: a sign, a mark and digits that spell the magnitude, at least as many as
the precision asks for. No digit is written for zero under precision zero. The alternative form of
an octal number has a zero in front, for which a digit is added where there is none. -/
theorem integers_print_their_value {features : Features} {p : Directive.Spelling} {d : Directive}
    (denotes : p.Denotes features d) (args : List Arg) {a : Arg} {z : Int}
    (value : args[d.width.slots + d.precision.slots]? = some a) (integer : a.integer? = some z)
    (kind : d.conversion ∈ [.signed, .octal, .hex, .unsigned]) :
    let signed : Bool := d.conversion = .signed
    let k := d.length.bits
    let base := if d.conversion = .octal then 8 else if d.conversion = .hex then 16 else 10
    let capitals : Bool := d.conversion = .hex && d.letterCase == .upper
    let octalZero := d.conversion = .octal ∧ d.flags.altForm = true
    let P := (d.resolve (.ofList args)).1.precision.getD 1
    (∃! v : Int, v ≡ z [ZMOD 2 ^ k] ∧ InRange signed k v) ∧
    ∀ v : Int, v ≡ z [ZMOD 2 ^ k] → InRange signed k v → ∃ sign mark D : Bytes,
      p.unpadded features d args = sign ++ (mark ++ D) ∧
      sign = (if v < 0 then utf8 "-"
        else if signed ∧ d.flags.forceSign then utf8 "+"
        else if signed ∧ d.flags.spaceSign then utf8 " " else []) ∧
      mark = (if d.conversion = .hex ∧ d.flags.altForm ∧ v ≠ 0 then
        if capitals then utf8 "0X" else utf8 "0x" else []) ∧
      IsDigits base capitals D ∧
      readDigits base capitals D = v.natAbs ∧
      D.length = max P ((base.digits v.natAbs).length + if octalZero then 1 else 0) ∧
      (octalZero → D.head? = some (byte '0')) := by
  intro signed k base capitals octalZero P
  obtain ⟨s, resolved⟩ : ∃ s, (d.resolve (.ofList args)).1 = s := ⟨_, rfl⟩
  have conversion : s.conversion = d.conversion := resolved ▸ d.resolve_conversion _
  have length : s.length = d.length := resolved ▸ d.resolve_length _
  have alt : s.flags.altForm = d.flags.altForm := resolved ▸ d.resolve_altForm _
  have sign (negative : Bool) : signBytes negative s.flags = signBytes negative d.flags :=
    resolved ▸ d.resolve_signBytes _ negative
  have upper : s.isUpper = d.isUpper := resolved ▸ d.resolve_isUpper _
  have sameBase : s.base = base := by rw [Spec.base_eq, conversion]
  have sameCase : s.capitals = capitals := by
    rw [Spec.capitals, conversion, upper]
    rfl
  have least : s.precision.getD 1 = P := by rw [← resolved]
  have printed : d.conversion ≠ .percent := by
    intro percent
    rw [percent] at kind
    exact absurd kind (by decide)
  obtain ⟨v, congr, range, made⟩ := Spec.image?_integer (s := s) integer (conversion ▸ kind)
  rw [length] at congr range
  rw [conversion, sign] at made
  rw [conversion] at range
  have unique (v' : Int) (congr' : v' ≡ z [ZMOD 2 ^ k]) (range' : InRange signed k v') : v' = v :=
    range.unique d.length.bits_bounds.1 range' (congr'.trans congr.symm)
  refine ⟨⟨v, ⟨congr, range⟩, fun v' both => unique v' both.1 both.2⟩, ?_⟩
  intro v' congr' range'
  obtain rfl := unique v' congr' range'
  have text := (unpadded_image denotes printed value (by rw [resolved]; exact made)).trans
    (s.integerImage_text _ _)
  refine ⟨_, _, _, text, ?_, ?_, ?_, ?_, ?_, ?_⟩
  · by_cases kind : d.conversion = .signed
    · by_cases negative : v' < 0 <;> simp [signed, kind, negative, signBytes] <;> rfl
    · have positive : ¬ v' < 0 := by
        simp only [kind, decide_false, InRange, Bool.false_eq_true, if_false] at range
        omega
      simp [signed, kind, positive]
  · rw [s.hexMark_eq, conversion, alt, upper]
    by_cases hex : d.conversion = .hex
    · simp [capitals, hex, Directive.isUpper]
    · simp [hex]
  · rw [← sameBase, ← sameCase]
    exact s.isDigits_written _
  · rw [← sameBase, ← sameCase]
    exact s.readDigits_written _
  · rw [s.length_written, sameBase, conversion, alt, least]
  · rintro ⟨octal, marked⟩
    exact s.head_written _ (conversion.trans octal) (alt.trans marked)

/-- `%#.3hho` of -8, a byte 370 in octal, has four digits. -/
theorem integers_print_their_value_octal :
    let p : Directive.Spelling := ⟨[byte '#'], [], utf8 ".3", utf8 "hh", byte 'o'⟩
    let d : Directive :=
      ⟨⟨false, false, false, true, false⟩, .unset, .fixed 3, .hh, .octal, .none⟩
    let a := Arg.int (-8)
    p.Denotes ⟨true, true⟩ d ∧ a.integer? = some (-8) ∧
    (248 : Int) ≡ -8 [ZMOD 2 ^ 8] ∧ InRange false 8 248 ∧
    ∃ D : Bytes, p.unpadded ⟨true, true⟩ d [a] = D ∧ readDigits 8 false D = 248 ∧ D.length = 4 ∧
      D.head? = some (byte '0') := by
  intro p d a
  have denotes : p.Denotes ⟨true, true⟩ d :=
    { flags := (Directive.flagText_iff _ _).mpr ⟨List.forall_mem_singleton.mpr (by decide), rfl⟩
      width := .absent
      precision := .digits [byte '3'] (List.forall_mem_singleton.mpr (by decide))
      length := .hh rfl
      letter := .octal
      flagsMaximal := Directive.stops_cons.mpr (by decide)
      widthMaximal := Directive.stops_cons.mpr (by decide)
      precisionMaximal := Directive.stops_cons.mpr (by decide) }
  have integer : a.integer? = some (-8) := by decide
  have congr : (248 : Int) ≡ -8 [ZMOD 2 ^ 8] := by decide
  have range : InRange false 8 248 := by simp [InRange]
  obtain ⟨-, each⟩ := integers_print_their_value denotes [a] rfl integer (by decide)
  obtain ⟨sign, mark, D, text, noSign, noMark, -, spelled, size, first⟩ := each 248 congr range
  rw [noSign, noMark] at text
  refine ⟨denotes, integer, congr, range, D, text, spelled, size.trans ?_, first (by decide)⟩
  decide +kernel

end Printf
