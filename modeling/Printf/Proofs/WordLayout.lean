import Printf.Proofs.DigitBuffer
import Printf.Proofs.IntegerDigits

/-! Fields laid out in machine words. The size of a field is the sum of the sizes of its parts, and
what a width leaves is filled. Widths and precisions have 31 bits, integers at most 22 digits, so that
all sums fit words of 32 bits. -/
namespace Printf

/-- A width and a precision in bounds, and a field that zeros fill on its left only. -/
structure Spec.Bounded (s : Spec) : Prop where
  width : s.width ≤ maxField
  precision : ∀ p ∈ s.precision, p ≤ maxField
  filling : s.flags.leftJustify = true → s.flags.zeroPad = false

/-- A precision in bounds, also where another number stands in for none. -/
theorem getD_le_maxField {precision : Option Nat} (bounded : ∀ p ∈ precision, p ≤ maxField) {n : Nat}
    (other : n ≤ maxField) : precision.getD n ≤ maxField := by
  cases given : precision with
  | none => exact other
  | some p => exact bounded p given

namespace Directive

theorem starWidth_bounded (flags : Flags) (w : Option Int) :
    (starWidth flags w).2 ≤ maxField ∧
    ((flags.leftJustify = true → flags.zeroPad = false) →
      (starWidth flags w).1.leftJustify = true → (starWidth flags w).1.zeroPad = false) := by
  cases w with
  | none => exact ⟨Nat.zero_le _, id⟩
  | some w =>
    refine ⟨Nat.min_le_right _ _, fun filling => ?_⟩
    rw [starWidth]
    split
    · exact fun _ => rfl
    · exact filling

theorem starPrecision_bounded (p : Option Int) : ∀ k ∈ starPrecision p, k ≤ maxField := by
  intro k found
  cases p with
  | none => cases found
  | some p =>
    rw [starPrecision] at found
    split at found
    · cases found
      exact Nat.min_le_right _ _
    · cases found

theorem WidthText.bounded {text : Bytes} {field : Field} (spelled : WidthText text field) :
    ∀ k ∈ field.value?, k ≤ maxField := by
  intro k found
  cases spelled with
  | absent | star => cases found
  | digits run _ _ =>
    cases found
    exact Nat.min_le_right _ _

theorem PrecisionText.bounded {text : Bytes} {field : Field}
    (spelled : PrecisionText text field) : ∀ k ∈ field.value?, k ≤ maxField := by
  intro k found
  cases spelled with
  | absent | star => cases found
  | digits run _ =>
    cases found
    exact Nat.min_le_right _ _

/-- What the parser reads stays in bounds with every argument for its stars. -/
theorem resolve_bounded {features : Features} {fmt : Bytes} {d : Directive} {n : Nat}
    (parsed : parse? features fmt = some (d, n)) (c : Cursor) : (d.resolve c).1.Bounded := by
  obtain ⟨-, p, -, denotes⟩ := (parse?_iff features fmt d n).mp parsed
  have filling (left : d.flags.leftJustify = true) : d.flags.zeroPad = false := by
    have minus := denotes.flags.leftJustify.mp left
    rw [Bool.eq_false_iff, Ne, denotes.flags.zeroPad]
    exact fun both => both.2 minus
  have width : d.fieldWidth ≤ maxField := by
    rw [fieldWidth]
    cases given : d.width.value? with
    | none => exact Nat.zero_le _
    | some k => exact denotes.width.bounded k given
  obtain ⟨starred, fills⟩ := starWidth_bounded d.flags (c.rest[0]?.bind (Arg.signed? .none))
  rw [resolve_eq]
  constructor
  · simp only [resolveWith]
    split
    · exact starred
    · exact width
  · simp only [resolveWith]
    split
    · exact starPrecision_bounded _
    · exact denotes.precision.bounded
  · simp only [resolveWith]
    split
    · exact fills filling
    · exact filling

end Directive

namespace Machine

def starSize (word : Nat) (z : Int) : Checked Nat := do
  return min (← fit word z.natAbs) maxField

def resolveWidth (word : Nat) (d : Directive) (c : Cursor) : Checked ((Flags × Nat) × Cursor) :=
  match d.width, c.take (Arg.signed? .none) with
  | .fromArg, (some w, c) => do return (((starWidth d.flags w).1, ← starSize word w), c)
  | _, _ => .ok (d.resolveWidth c)

def resolvePrecision (word : Nat) (d : Directive) (c : Cursor) : Checked (Option Nat × Cursor) :=
  match d.precision, c.take (Arg.signed? .none) with
  | .fromArg, (some p, c) =>
    if 0 ≤ p then do return (some (← starSize word p), c) else .ok (none, c)
  | _, _ => .ok (d.resolvePrecision c)

def resolve (word : Nat) (d : Directive) (c : Cursor) : Checked (Spec × Cursor) := do
  let ((flags, width), c) ← resolveWidth word d c
  let (precision, c) ← resolvePrecision word d c
  return ({ flags, width, precision, length := d.length, conversion := d.conversion,
            letterCase := d.letterCase }, c)

variable {word : Nat} (wide : 32 ≤ word)

include wide

theorem small_word {n : Nat} (small : n < 2 ^ 32) : n < 2 ^ word :=
  Nat.lt_of_lt_of_le small (Nat.pow_le_pow_right (by decide) wide)

/-- A star takes a number of 32 bits, the magnitude of the least one included. -/
theorem starSize_ok {a : Arg} {z : Int} (taken : a.signed? .none = some z) :
    starSize word z = .ok (min z.natAbs maxField) := by
  have range : -2 ^ 31 ≤ z ∧ z < 2 ^ 31 := Arg.inRange_signed? taken
  rw [starSize, fit_ok (small_word wide (by omega))]
  rfl

theorem take_signed {c : Cursor} {z : Int} {c' : Cursor}
    (taken : c.take (Arg.signed? .none) = (some z, c')) :
    starSize word z = .ok (min z.natAbs maxField) := by
  obtain ⟨a, -, signed⟩ := Option.bind_eq_some_iff.mp (congrArg Prod.fst taken)
  exact starSize_ok wide signed

theorem resolve_ok (d : Directive) (c : Cursor) : resolve word d c = .ok (d.resolve c) := by
  have width (c : Cursor) : resolveWidth word d c = .ok (d.resolveWidth c) := by
    rw [resolveWidth]
    split
    · next star taken =>
      rw [take_signed wide taken, Directive.resolveWidth, star, taken]
      rfl
    · rfl
  have precision (c : Cursor) : resolvePrecision word d c = .ok (d.resolvePrecision c) := by
    rw [resolvePrecision]
    split
    · next p c' star taken =>
      simp only [Directive.resolvePrecision, star, taken, starPrecision]
      split
      · next positive =>
        have magnitude : p.natAbs = p.toNat := by omega
        rw [take_signed wide taken, magnitude]
        rfl
      · rfl
    · rfl
  rw [resolve, width, ok_bind]
  simp only [precision, ok_bind]
  rfl

omit wide

/-- The parts of a field: what zeros are inserted behind, the zeros that are there anyway, and the
rest. -/
structure Parts where
  lead : Bytes := []
  zeros : Nat := 0
  body : Output
  zeroable : Bool := false

namespace Parts

def text (p : Parts) : Output := .text p.lead :: .fill p.zeros (byte '0') :: p.body

def size (p : Parts) : Nat := p.lead.length + p.zeros + Output.size p.body

def image (p : Parts) : Image := ⟨p.lead, .fill p.zeros (byte '0') :: p.body, p.zeroable⟩

theorem size_image (p : Parts) : p.image.size = p.size := by
  simp [image, size, Image.size, Output.size, Chunk.size, Nat.add_assoc]

end Parts

/-- A field whose size is the sum of some numbers. Zeros that fill it are added to those of its
parts. -/
def layout (word : Nat) (s : Spec) (sizes : List Nat) (p : Parts) : Checked Output := do
  let missing := s.width - (← sum word sizes)
  if s.flags.zeroPad && p.zeroable then
    return { p with zeros := ← add word p.zeros missing }.text
  else if s.flags.leftJustify then return p.text ++ [.fill missing (byte ' ')]
  else return .fill missing (byte ' ') :: p.text

def Renders (s : Spec) (image : Image) (run : Checked Output) : Prop :=
  ∃ out, run = .ok out ∧ Output.toList out = Output.toList (image.fit s.flags s.width)

/-- Another image with the same text fills the field alike. -/
theorem Renders.congr {s : Spec} {a b : Image} {run : Checked Output} (renders : Renders s a run)
    (lead : a.lead = b.lead) (body : Output.toList a.body = Output.toList b.body)
    (zeroable : a.zeroable = b.zeroable) : Renders s b run := by
  obtain ⟨out, ran, text⟩ := renders
  exact ⟨out, ran, text.trans (Image.toList_fit_congr lead body zeroable _ _)⟩

include wide

theorem layout_ok {s : Spec} (bounded : s.Bounded) {sizes : List Nat} {p : Parts}
    (size : sum word sizes = .ok p.size) (small : p.zeroable = true → p.size < 2 ^ 32) :
    Renders s p.image (layout word s sizes p) := by
  have width : s.width ≤ 2147483647 := bounded.width
  rw [Renders, layout, size, ok_bind, Image.fit, p.size_image]
  by_cases zeros : (s.flags.zeroPad && p.zeroable) = true
  · obtain ⟨pad, zeroable⟩ := Bool.and_eq_true_iff.mp zeros
    have right : s.flags.leftJustify = false := by
      by_contra left
      have none := bounded.filling (by simpa using left)
      rw [pad] at none
      cases none
    have less := small zeroable
    have fits : p.zeros + (s.width - p.size) < 2 ^ 32 := by
      rw [Parts.size] at less ⊢
      omega
    rw [if_pos zeros, add_ok (small_word wide fits), ok_bind, right]
    refine ⟨_, rfl, ?_⟩
    simp [Parts.image, Parts.text, zeros, Chunk.toList, ← List.append_assoc,
      List.replicate_append_replicate, Nat.add_comm]
  · rw [if_neg zeros]
    split
    · exact ⟨_, rfl, rfl⟩
    · refine ⟨_, rfl, ?_⟩
      rw [Parts.image, if_neg zeros]
      rfl

omit wide

/-- The digits of an integer; zero under precision zero has none. -/
def integerDigits (s : Spec) (n : Nat) : Checked Bytes :=
  if n = 0 ∧ s.precision = some 0 then .ok []
  else digitText s.base (s.conversion = .hex && s.isUpper) n

def integer (word : Nat) (s : Spec) (sign : Bytes) (n : Nat) : Checked Output := do
  let digits ← integerDigits s n
  let mark := s.radixMark n
  let zeros := s.precision.getD 1 - digits.length
  layout word s [sign.length, mark.length, zeros, digits.length]
    ⟨sign ++ mark, zeros, [.text digits], s.precision.isNone⟩

def char (word : Nat) (s : Spec) (c : UInt8) : Checked Output :=
  layout word s [1] { body := [.text [c]] }

def str (word : Nat) (s : Spec) (text : Bytes) : Checked Output := do
  let stop := (untilNul text).length
  let shown ← inFrontOf text (s.precision.elim stop (min stop))
  layout word s [shown.length] { body := [.text shown] }

def pointer (word : Nat) (s : Spec) (address : Nat) : Checked Output :=
  if address = 0 then layout word s [5] { body := [.text (utf8 "(nil)")] } else do
    let digits ← digitText 16 false address
    layout word s [2, digits.length] { body := [.text (utf8 "0x" ++ digits)] }

theorem base_least (s : Spec) : 8 ≤ s.base := by
  rw [s.base_eq]
  split
  · exact Nat.le_refl 8
  · split <;> decide

theorem length_signBytes (negative : Bool) (flags : Flags) : (signBytes negative flags).length ≤ 1 := by
  rcases isSign_signBytes negative flags with none | ⟨b, -, one⟩
  · rw [none]
    exact Nat.zero_le 1
  · rw [one]
    exact Nat.le_refl 1

theorem length_radixMark (s : Spec) (n : Nat) : (s.radixMark n).length ≤ 2 := by
  rw [Spec.radixMark]
  split
  · exact Nat.zero_le 2
  · split
    · split <;> decide
    · split
      · decide
      · exact Nat.le_refl 2
    · decide

theorem length_digits (s : Spec) {n : Nat} (word64 : n < 2 ^ 64) : (s.digits n).length ≤ 22 := by
  rw [Spec.digits, List.length_map]
  split
  · exact Nat.zero_le 22
  · have few := length_text (base_least s) s.base_bounds.2 false word64
    rwa [Radix.text, List.length_map] at few

/-- The sign, the mark, the zeros and the digits of an integer have a size of 32 bits. -/
theorem size_integerImage {s : Spec} (bounded : s.Bounded) {sign : Bytes} (one : sign.length ≤ 1)
    {n : Nat} (word64 : n < 2 ^ 64) : (s.integerImage sign n).size < 2 ^ 32 := by
  have mark := length_radixMark s n
  have digits := length_digits s word64
  have least : s.precision.getD 1 ≤ 2147483647 := getD_le_maxField bounded.precision (by decide)
  simp only [Image.size, Spec.integerImage, Spec.precisionZeros, List.length_append, Output.size,
    Chunk.size]
  omega

/-- An address has a mark and its digits, or is a text of five bytes. -/
theorem size_pointerImage {address : Nat} (word64 : address < 2 ^ 64) :
    (Spec.pointerImage address).size ≤ 24 := by
  have digits : (Radix.text 16 false address).length ≤ 22 :=
    length_text (by decide) (by decide) false word64
  have mark : (utf8 "0x").length = 2 := rfl
  have none : (utf8 "(nil)").length = 5 := rfl
  simp only [Image.size, Spec.pointerImage, Output.size, Chunk.size]
  split
  · simp [none]
  · simp only [List.length_append, List.length_nil]
    omega

theorem integerDigits_ok (s : Spec) {n : Nat} (word64 : n < 2 ^ 64) :
    integerDigits s n = .ok (s.digits n) := by
  rw [integerDigits, Spec.digits]
  split
  · rfl
  · exact digitText_ok (base_least s) s.base_bounds.2 _ word64

include wide

theorem sum_size {sizes : List Nat} {p : Parts} (parts : sizes.sum = p.size)
    (small : p.size < 2 ^ 32) : sum word sizes = .ok p.size := by
  rw [← parts] at small ⊢
  exact sum_ok (small_word wide small)

theorem integer_ok {s : Spec} (bounded : s.Bounded) {sign : Bytes} (one : sign.length ≤ 1) {n : Nat}
    (word64 : n < 2 ^ 64) : Renders s (s.integerImage sign n) (integer word s sign n) := by
  have parts : s.integerImage sign n = Parts.image ⟨sign ++ s.radixMark n, s.precisionZeros n,
      [.text (s.digits n)], s.precision.isNone⟩ := rfl
  have small := size_integerImage bounded one word64
  rw [parts, Parts.size_image] at small
  rw [integer, integerDigits_ok s word64, ok_bind, parts]
  refine layout_ok wide bounded (sum_size wide ?_ small) fun _ => small
  simp [Parts.size, Output.size, Chunk.size, Spec.precisionZeros, Nat.add_assoc]

/-- A text on its own, which zeros never fill. -/
theorem text_ok {s : Spec} (bounded : s.Bounded) {sizes : List Nat} {text : Bytes}
    (size : sum word sizes = .ok text.length) :
    Renders s { body := [.text text] } (layout word s sizes { body := [.text text] }) := by
  have parts : Parts.size { body := [.text text] } = text.length := by
    simp [Parts.size, Output.size, Chunk.size]
  have field := layout_ok wide bounded (size.trans (congrArg _ parts.symm))
    (absurd · Bool.false_ne_true)
  exact field.congr rfl rfl rfl

theorem char_ok {s : Spec} (bounded : s.Bounded) (c : UInt8) :
    Renders s (Spec.charImage c) (char word s c) := text_ok wide bounded rfl

theorem str_ok {s : Spec} (bounded : s.Bounded) (text : Bytes) :
    Renders s (s.strImage text) (str word s text) := by
  have front : text.take (untilNul text).length = untilNul text :=
    (List.prefix_iff_eq_take.mp (List.takeWhile_prefix _)).symm
  have inside : (untilNul text).length ≤ text.length := (List.takeWhile_prefix _).length_le
  rw [str, Spec.strImage]
  cases s.precision with
  | none =>
    rw [Option.elim_none, inFrontOf_ok inside, ok_bind, front]
    exact text_ok wide bounded rfl
  | some limit =>
    have less := Nat.le_trans (Nat.min_le_left _ limit) inside
    rw [Option.elim_some, inFrontOf_ok less, ok_bind, Nat.min_comm, ← List.take_take, front]
    exact text_ok wide bounded rfl

theorem pointer_ok {s : Spec} (bounded : s.Bounded) {address : Nat} (word64 : address < 2 ^ 64) :
    Renders s (Spec.pointerImage address) (pointer word s address) := by
  have few := size_pointerImage word64
  rw [Spec.pointerImage] at few ⊢
  rw [pointer]
  split
  · exact text_ok wide bounded rfl
  · next some =>
    have total : [2, (Radix.text 16 false address).length].sum =
        (utf8 "0x" ++ Radix.text 16 false address).length := by
      rw [List.length_append]
      rfl
    simp only [Image.size, Output.size, Chunk.size, if_neg some] at few
    rw [digitText_ok (by decide) (by decide) false word64, ok_bind]
    apply text_ok wide bounded
    rw [← total]
    refine sum_ok (small_word wide ?_)
    rw [total]
    omega

end Machine
end Printf
