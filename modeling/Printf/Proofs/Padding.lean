import Printf.Proofs.NumberText
import Printf.Proofs.Stars

/-! Fields as padding. Whatever the conversion, a width adds blanks on one side of the text without
a width, or zeros between its sign with its radix mark and the rest. The two places are found in
that text itself. -/
namespace Printf

def signLength (text : Bytes) : Nat := if text.head?.any (· ∈ utf8 "-+ ") then 1 else 0

def markLength (text : Bytes) : Nat :=
  if text.take 2 = utf8 "0x" ∨ text.take 2 = utf8 "0X" then 2 else 0

/-- Where a text takes zeros: behind its sign and the mark behind that. -/
def leadLength (text : Bytes) : Nat :=
  signLength text + markLength (text.drop (signLength text))

def spaces (n : Nat) : Bytes := List.replicate n (byte ' ')
def zeros (n : Nat) : Bytes := List.replicate n (byte '0')

def zeroFilled (n : Nat) (text : Bytes) : Bytes :=
  text.take (leadLength text) ++ zeros n ++ text.drop (leadLength text)

/-- Whether the zero flag means anything: for an integer without a precision and a finite float. -/
def Spec.takesZeros (s : Spec) (a : Arg) : Bool :=
  match s.conversion with
  | .signed | .octal | .hex | .unsigned => s.precision.isNone
  | .fixed | .exponent | .general | .hexFloat => a.float?.any Binary64.isFinite
  | .percent | .char | .str | .charsWritten | .pointer => false

def Spec.padded (s : Spec) (a : Arg) (w : Nat) (text : Bytes) : Bytes :=
  if s.flags.leftJustify then text ++ spaces (w - text.length)
  else if s.flags.zeroPad && s.takesZeros a then zeroFilled (w - text.length) text
  else spaces (w - text.length) ++ text

theorem length_padded (s : Spec) (a : Arg) (w : Nat) (text : Bytes) :
    (s.padded a w text).length = max w text.length := by
  rw [Spec.padded]
  split
  · simp only [spaces, List.length_append, List.length_replicate]
    omega
  · split
    · simp only [zeroFilled, zeros, List.length_append, List.length_replicate, List.length_take,
        List.length_drop]
      omega
    · simp only [spaces, List.length_append, List.length_replicate]
      omega

/-- A text that begins with neither a sign nor the mark of a hexadecimal number. -/
structure Unled (text : Bytes) : Prop where
  unsigned : ∀ b ∈ text.head?, b ∉ utf8 "-+ "
  plain : ∀ b ∈ text, Plain b

def IsSign (sign : Bytes) : Prop := sign = [] ∨ ∃ b ∈ utf8 "-+ ", sign = [b]

theorem isSign_signBytes (negative : Bool) (flags : Flags) : IsSign (signBytes negative flags) := by
  rw [signBytes]
  split
  · exact Or.inr ⟨byte '-', by decide, rfl⟩
  · split
    · exact Or.inr ⟨byte '+', by decide, rfl⟩
    · split
      · exact Or.inr ⟨byte ' ', by decide, rfl⟩
      · exact Or.inl rfl

/-- A minus sign can be told from a text that goes on with a digit. -/
theorem head_signBytes (negative : Bool) (flags : Flags) {b : UInt8} (digit : isDigit b = true)
    (rest : Bytes) : (signBytes negative flags ++ b :: rest).head? = some (byte '-') ↔
      negative = true := by
  have minus : b ≠ byte '-' := isDigit_apart digit (by decide)
  rw [signBytes]
  split
  · next below => exact iff_of_true rfl below
  · next above =>
    refine iff_of_false ?_ above
    have plus : byte '+' ≠ byte '-' := by decide
    have blank : byte ' ' ≠ byte '-' := by decide
    split
    · exact fun same => plus (Option.some.inj same)
    · split
      · exact fun same => blank (Option.some.inj same)
      · exact fun same => minus (Option.some.inj same)

/-- Texts with a digit in front are told apart together with the signs before them. -/
theorem signBytes_cancel {negative negative' : Bool} {flags : Flags} {a a' : Bytes}
    (first : ∃ b rest, a = b :: rest ∧ isDigit b = true)
    (first' : ∃ b rest, a' = b :: rest ∧ isDigit b = true)
    (same : signBytes negative flags ++ a = signBytes negative' flags ++ a') :
    negative = negative' ∧ a = a' := by
  obtain ⟨b, rest, rfl, digit⟩ := first
  obtain ⟨b', rest', rfl, digit'⟩ := first'
  have sign : negative = negative' := by
    rw [Bool.eq_iff_iff, ← head_signBytes _ flags digit rest, same, head_signBytes _ _ digit']
  rw [sign] at same
  exact ⟨sign, List.append_cancel_left same⟩

theorem leadLength_append {sign tail : Bytes} (isSign : IsSign sign)
    (unsigned : ∀ b ∈ tail.head?, b ∉ utf8 "-+ ") :
    leadLength (sign ++ tail) = sign.length + markLength tail := by
  have length : signLength (sign ++ tail) = sign.length := by
    rcases isSign with rfl | ⟨b, isSign, rfl⟩
    · cases tail with
      | nil => rfl
      | cons b tail =>
        have other : b ∉ utf8 "-+ " := unsigned b rfl
        simp [signLength, other]
    · simp [signLength, isSign]
  rw [leadLength, length, List.drop_left]

theorem markLength_plain {text : Bytes} (plain : ∀ b ∈ text, Plain b) : markLength text = 0 := by
  rw [markLength, if_neg]
  have apart {c : UInt8} (mark : ¬Plain c) : text.take 2 ≠ [byte '0', c] := by
    intro same
    refine mark (plain c (List.mem_of_mem_take (i := 2) ?_))
    rw [same]
    exact List.mem_cons_of_mem _ List.mem_cons_self
  rintro (lower | upper)
  · exact apart (c := byte 'x') (by decide) lower
  · exact apart (c := byte 'X') (by decide) upper

def IsMark (mark : Bytes) : Prop := mark = utf8 "0x" ∨ mark = utf8 "0X"

theorem markLength_mark {mark : Bytes} (isMark : IsMark mark) (rest : Bytes) :
    markLength (mark ++ rest) = mark.length := by
  have two : mark.length = 2 := by
    rcases isMark with rfl | rfl
    · rfl
    · rfl
  have shown : mark = utf8 "0x" ∨ mark = utf8 "0X" := isMark
  rw [markLength, List.take_left' two, if_pos shown, two]

theorem unsigned_mark {mark : Bytes} (isMark : IsMark mark) (rest : Bytes) :
    ∀ b ∈ (mark ++ rest).head?, b ∉ utf8 "-+ " := by
  intro b first
  rcases isMark with rfl | rfl
  · cases first
    decide
  · cases first
    decide

theorem Unled.zeros {text : Bytes} (unled : Unled text) (n : Nat) : Unled (zeros n ++ text) where
  unsigned := by
    cases n with
    | zero => exact unled.unsigned
    | succ n =>
      intro b first
      cases first
      decide
  plain := by
    intro b member
    rcases List.mem_append.mp member with zero | own
    · rw [List.eq_of_mem_replicate zero]
      decide
    · exact unled.plain b own

namespace Image

/-- The lead of an image is a sign and a mark. The mark of an octal number is a zero like those of a
filling, so that it makes no difference on which side of it they are. -/
inductive Led (image : Image) : Prop
  | hex (sign mark : Bytes) : image.lead = sign ++ mark → IsSign sign → IsMark mark → Led image
  | bare (sign : Bytes) (n : Nat) : image.lead = sign ++ zeros n → IsSign sign →
      Unled (Output.toList image.body) → Led image

theorem toList_bare (image : Image) :
    Output.toList image.bare = image.lead ++ Output.toList image.body := by
  simp [bare, Chunk.toList]

theorem zeroFilled_bare {image : Image} (led : image.Led) (n : Nat) :
    zeroFilled n (Output.toList image.bare) =
      image.lead ++ zeros n ++ Output.toList image.body := by
  rw [toList_bare]
  cases led with
  | hex sign mark lead isSign isMark =>
    rw [lead, List.append_assoc, zeroFilled,
      leadLength_append isSign (unsigned_mark isMark _), markLength_mark isMark,
      ← List.length_append, ← List.append_assoc, List.take_left, List.drop_left]
  | bare sign k lead isSign unled =>
    have tail := unled.zeros k
    have swap : zeros n ++ zeros k = zeros k ++ zeros n := by
      simp only [zeros, List.replicate_append_replicate, Nat.add_comm]
    rw [lead, List.append_assoc, zeroFilled, leadLength_append isSign tail.unsigned,
      markLength_plain tail.plain, Nat.add_zero, List.take_left, List.drop_left,
      List.append_assoc, ← List.append_assoc (zeros n), swap]
    simp only [List.append_assoc]

theorem toList_fit (image : Image) (flags : Flags) (width : Nat) :
    Output.toList (image.fit flags width) =
      let text := Output.toList image.bare
      let missing := width - text.length
      if flags.leftJustify then text ++ spaces missing
      else if flags.zeroPad && image.zeroable then
        image.lead ++ zeros missing ++ Output.toList image.body
      else spaces missing ++ text := by
  have size : (Output.toList image.bare).length = image.size := by
    rw [toList_bare, List.length_append, Output.length_toList, Image.size]
  simp only [size, fit]
  split
  · simp [spaces, Chunk.toList]
  · split
    · simp [zeros, Chunk.toList]
    · simp [spaces, Chunk.toList]

/-- Images with the same lead and the same text behind it fill every field alike. -/
theorem toList_fit_congr {a b : Image} (lead : a.lead = b.lead)
    (body : Output.toList a.body = Output.toList b.body) (zeroable : a.zeroable = b.zeroable)
    (flags : Flags) (width : Nat) :
    Output.toList (a.fit flags width) = Output.toList (b.fit flags width) := by
  rw [toList_fit, toList_fit, toList_bare, toList_bare, lead, body, zeroable]

end Image

namespace Spec

theorem base_bounds (s : Spec) : 2 ≤ s.base ∧ s.base ≤ 16 := by
  rw [base]
  split <;> decide

theorem digits_unled (s : Spec) (magnitude : Nat) : Unled (s.digits magnitude) := by
  have each : ∀ b ∈ s.digits magnitude, Plain b ∧ b ∉ utf8 "-+ " := by
    intro b member
    obtain ⟨d, digit, rfl⟩ := List.mem_map.mp member
    have small : d < s.base := by
      split at digit
      · cases digit
      · exact Radix.numeral_lt s.base_bounds.1 magnitude d digit
    exact Radix.digitByte_plain d (Nat.lt_of_lt_of_le small s.base_bounds.2) _
  exact ⟨fun b first => (each b (List.mem_of_mem_head? first)).2, fun b member => (each b member).1⟩

theorem radixMark_cases (s : Spec) (magnitude : Nat) :
    IsMark (s.radixMark magnitude) ∨ ∃ n, s.radixMark magnitude = zeros n := by
  rw [radixMark]
  split
  · exact Or.inr ⟨0, rfl⟩
  · split
    · split
      · exact Or.inr ⟨1, rfl⟩
      · exact Or.inr ⟨0, rfl⟩
    · split
      · exact Or.inr ⟨0, rfl⟩
      · cases s.isUpper with
        | false => exact Or.inl (Or.inl rfl)
        | true => exact Or.inl (Or.inr rfl)
    · exact Or.inr ⟨0, rfl⟩

theorem integerImage_led (s : Spec) {sign : Bytes} (isSign : IsSign sign) (magnitude : Nat) :
    (s.integerImage sign magnitude).Led := by
  rcases s.radixMark_cases magnitude with isMark | ⟨n, mark⟩
  · exact .hex sign _ rfl isSign isMark
  · refine .bare sign n (congrArg (sign ++ ·) mark) isSign ?_
    have text : Output.toList (s.integerImage sign magnitude).body =
        zeros (s.precisionZeros magnitude) ++ s.digits magnitude := by
      simp [integerImage, zeros, Chunk.toList]
    rw [text]
    exact (s.digits_unled magnitude).zeros _

end Spec

theorem unled_reshape (o : Reshape.Options) (marker : ∀ m ∈ o.marker, Plain m) {text : Bytes}
    (plain : ∀ b ∈ text, Plain b) (first : ∃ b rest, text = b :: rest ∧ isDigit b = true) :
    Unled (Output.toList (Reshape.reshape o text)) := by
  refine ⟨?_, Reshape.reshape_plain o plain marker⟩
  obtain ⟨b, rest, rfl, digit⟩ := first
  obtain ⟨behind, written⟩ := Reshape.reshape_digit o digit rest
  rw [written]
  intro c first
  cases first
  exact not_mem_of_isDigit digit (by decide)

theorem Spec.floatImage_led (s : Spec) {x : Binary64} (finite : x.isFinite = true) :
    (s.floatImage x).Led := by
  have isSign := isSign_signBytes x.negative s.flags
  rw [floatImage, if_pos finite]
  cases style : FloatStyle.ofSpec x.magnitude s with
  | fixed places strip point =>
    refine .bare _ 0 rfl isSign (unled_reshape _ (by simp) ?_ ?_)
    · exact Decimal.pointed_plain _ _
    · exact Decimal.pointed_digit _ _
  | scientific places strip point upper =>
    refine .bare _ 0 rfl isSign (unled_reshape _ ?_ ?_ ?_)
    · intro m marker
      cases marker
      cases upper <;> decide
    · exact Decimal.scientificText_plain _ _
    · exact Decimal.scientificText_digit _ _
  | hex precision point upper =>
    refine .hex _ _ rfl isSign ?_
    cases upper with
    | false => exact Or.inl rfl
    | true => exact Or.inr rfl

theorem Spec.floatImage_zeroable (s : Spec) (x : Binary64) :
    (s.floatImage x).zeroable = x.isFinite := by
  rw [floatImage]
  cases finite : x.isFinite <;> rfl

namespace Spec

/-- An image takes zeros as the conversion and the argument say, and then it has a proper lead. -/
theorem image?_zeroable {s : Spec} {a : Arg} {image : Image} (made : s.image? a = some image) :
    image.zeroable = s.takesZeros a ∧ (image.zeroable = true → image.Led) := by
  rw [image?] at made
  rw [takesZeros]
  cases kind : s.conversion with
  | percent | charsWritten =>
    rw [kind] at made
    cases made
  | char | str | pointer =>
    rw [kind] at made
    obtain ⟨v, -, rfl⟩ := Option.map_eq_some_iff.mp made
    exact ⟨rfl, fun zero => absurd zero Bool.false_ne_true⟩
  | signed =>
    rw [kind] at made
    obtain ⟨v, -, rfl⟩ := Option.map_eq_some_iff.mp made
    exact ⟨rfl, fun _ => s.integerImage_led (isSign_signBytes _ _) _⟩
  | octal | hex | unsigned =>
    rw [kind] at made
    obtain ⟨v, -, rfl⟩ := Option.map_eq_some_iff.mp made
    exact ⟨rfl, fun _ => s.integerImage_led (Or.inl rfl) _⟩
  | fixed | exponent | general | hexFloat =>
    rw [kind] at made
    obtain ⟨x, number, rfl⟩ := Option.map_eq_some_iff.mp made
    rw [number, Option.any_some, floatImage_zeroable]
    exact ⟨rfl, s.floatImage_led⟩

/-- The same conversion in another field: a width and the two flags that say where to fill it. -/
def refit (s : Spec) (w : Nat) (left zero : Bool) : Spec :=
  { s with width := w, flags := { s.flags with leftJustify := left, zeroPad := zero } }

theorem image?_refit (s : Spec) (a : Arg) (w : Nat) (left zero : Bool) :
    (s.refit w left zero).image? a = s.image? a := by
  obtain ⟨flags, width, precision, length, conversion, letterCase⟩ := s
  cases conversion <;> rfl

theorem contents_refit {s : Spec} {a : Arg} {image : Image} (made : s.image? a = some image)
    (w : Nat) (left zero : Bool) :
    contents ((s.refit w left zero).steps a) =
      (s.refit w left zero).padded a w (Output.toList image.bare) := by
  obtain ⟨zeroable, led⟩ := image?_zeroable made
  have takes : (s.refit w left zero).takesZeros a = s.takesZeros a := rfl
  have width : (s.refit w left zero).width = w := rfl
  rw [contents_steps, image?_refit, made, Option.elim_some, width, Image.toList_fit, padded, takes,
    zeroable]
  split
  · rfl
  · split
    · next fills =>
      have led := led (zeroable.trans (Bool.and_eq_true_iff.mp fills).2)
      rw [Image.zeroFilled_bare led]
    · rfl

theorem padded_zero (s : Spec) (a : Arg) (text : Bytes) : s.padded a 0 text = text := by
  simp [padded, zeroFilled, spaces, zeros]

/-- The zero flag makes no difference where zeros mean nothing. -/
theorem contents_refit_zero {s : Spec} {a : Arg} {image : Image} (made : s.image? a = some image)
    (noZeros : s.takesZeros a = false) (w : Nat) (left zero zero' : Bool) :
    contents ((s.refit w left zero).steps a) = contents ((s.refit w left zero').steps a) := by
  have takes (zero : Bool) : (s.refit w left zero).takesZeros a = false := noZeros
  have flag (zero : Bool) : (s.refit w left zero).flags.leftJustify = left := rfl
  rw [contents_refit made, contents_refit made]
  simp only [padded, takes, flag, Bool.and_false]

end Spec

theorem counted_body (body : Output) :
    (Run.play .counter (body.map .emit) ⟨0, 0, []⟩).2.sink = (Output.toList body).length := by
  have total (bs : Bytes) (n : Nat) : Sink.counter.after n bs = n + bs.length := by
    induction bs generalizing n with
    | nil => rfl
    | cons b bs ih =>
      have rest : Sink.counter.after n (b :: bs) = Sink.counter.after (n + 1) bs := rfl
      rw [rest, ih, List.length_cons]
      omega
  obtain ⟨cells, played⟩ := Run.play_offer .counter (body.map .emit) ⟨0, 0, []⟩
  rw [played, contents_emit, Sink.counter.offer_unrefused (fun _ _ => rfl), total, Nat.zero_add]

theorem content_text {features : Features} {p : Directive.Spelling} {d : Directive}
    (denotes : p.Denotes features d) (args : List Arg) :
    content features p.text args = d.output args[0]? args[d.width.slots]?
      args[d.width.slots + d.precision.slots]? := by
  have alone := script_text denotes [] args
  have nothing : script features [] (args.drop d.slots) = [] := by
    simp [script, pieces, untilNul, scan, stepsOf]
  rw [List.append_nil, nothing, List.append_nil] at alone
  rw [content_eq, alone, Directive.contents_stepsWith]

theorem starWidth_flags (flags : Flags) (w : Option Int) :
    { (starWidth flags w).1 with leftJustify := flags.leftJustify, zeroPad := flags.zeroPad } =
      flags := by
  cases w with
  | none => rfl
  | some w =>
    rw [starWidth]
    split <;> rfl

theorem Directive.output_value {d : Directive} (value : d.conversion ≠ .percent) (w p : Option Arg)
    (a : Arg) : d.output w p (some a) = contents ((d.resolveWith w p).steps a) := if_neg value

theorem Directive.Spelling.fillWidth_none (p : Spelling) :
    p.fillWidth none = { p with width := [] } := by
  simp [fillWidth, starFlag, starWidthText]

/-- A directive without its width keeps the flags that it has without the argument of a star. -/
theorem Directive.resolveWith_unset (d : Directive) (w p x : Option Arg) :
    (d.fillWidth none).resolveWith x p =
      (d.resolveWith w p).refit 0 d.flags.leftJustify d.flags.zeroPad := by
  obtain ⟨flags, width, precision, length, conversion, letterCase⟩ := d
  cases width with
  | unset => rfl
  | fixed n => rfl
  | fromArg =>
    have kept := starWidth_flags flags (w.bind (Arg.signed? .none))
    exact congrArg (fun flags => Spec.mk flags 0 _ length conversion letterCase) kept.symm

/-- The text without its width writes the image that its value has, and nothing around it. -/
theorem content_unset {features : Features} {p : Directive.Spelling} {d : Directive}
    (denotes : p.Denotes features d) (printed : d.conversion ≠ .percent) {args : List Arg} {a : Arg}
    (value : args[d.width.slots + d.precision.slots]? = some a) {image : Image}
    (made : (d.resolveWith args[0]? args[d.width.slots]?).image? a = some image) :
    content features { p with width := [] }.text (args.drop d.width.slots) =
      Output.toList image.bare := by
  have alone := content_text (denotes.fillWidth none) (args.drop d.width.slots)
  have noSlot : (d.fillWidth none).width.slots = 0 := rfl
  have slots : (d.fillWidth none).precision.slots = d.precision.slots := rfl
  have kind : (d.fillWidth none).conversion ≠ .percent := printed
  simp only [noSlot, slots, List.getElem?_drop, Nat.zero_add, Nat.add_zero, value,
    Directive.output_value kind, d.resolveWith_unset args[0]?, p.fillWidth_none] at alone
  rw [alone, Spec.contents_refit made, Spec.padded_zero]

def Directive.Spelling.unpadded (features : Features) (p : Spelling) (d : Directive)
    (args : List Arg) : Bytes :=
  content features { p with width := [] }.text (args.drop d.width.slots)

theorem unpadded_image {features : Features} {p : Directive.Spelling} {d : Directive}
    (denotes : p.Denotes features d) (printed : d.conversion ≠ .percent) {args : List Arg} {a : Arg}
    (value : args[d.width.slots + d.precision.slots]? = some a) {image : Image}
    (made : (d.resolve (.ofList args)).1.image? a = some image) :
    p.unpadded features d args = image.lead ++ Output.toList image.body := by
  rw [d.resolve_eq] at made
  exact (content_unset denotes printed value made).trans image.toList_bare

theorem Directive.resolve_conversion (d : Directive) (c : Cursor) :
    (d.resolve c).1.conversion = d.conversion := by
  rw [resolve_eq]
  rfl

theorem Directive.resolve_isUpper (d : Directive) (c : Cursor) :
    (d.resolve c).1.isUpper = d.isUpper := by
  rw [resolve_eq]
  rfl

/-- A width from an argument changes only the flags that say where to fill. -/
theorem Directive.resolve_flags (d : Directive) (c : Cursor) : ∃ left zero,
    (d.resolve c).1.flags = { d.flags with leftJustify := left, zeroPad := zero } := by
  rw [resolve_eq]
  simp only [resolveWith]
  split
  · cases c.rest[0]?.bind (Arg.signed? .none) with
    | none => exact ⟨_, _, rfl⟩
    | some w =>
      rw [starWidth]
      split <;> exact ⟨_, _, rfl⟩
  · exact ⟨_, _, rfl⟩

theorem Directive.resolve_altForm (d : Directive) (c : Cursor) :
    (d.resolve c).1.flags.altForm = d.flags.altForm := by
  obtain ⟨left, zero, flags⟩ := d.resolve_flags c
  rw [flags]

theorem Directive.resolve_signBytes (d : Directive) (c : Cursor) (negative : Bool) :
    signBytes negative (d.resolve c).1.flags = signBytes negative d.flags := by
  obtain ⟨left, zero, flags⟩ := d.resolve_flags c
  rw [flags]
  rfl

/-- A width only pads. For a directive that takes its value, `B` is what it writes without its width:
with a width it writes `B` and blanks behind or in front, or zeros behind the sign and mark of `B`,
up to the width. The zero flag has no effect on characters, texts, pointers and numbers that are not
finite, nor on integers with a precision. The size of a finite float that the padding is computed
from, which is that of a counting run of its body, is the size that its body is written with. -/
theorem width_only_pads {features : Features} {p : Directive.Spelling} {d : Directive}
    (denotes : p.Denotes features d) (args : List Arg) (a : Arg)
    (value : args[d.width.slots + d.precision.slots]? = some a)
    (taken : d.conversion.takes a = true) (printed : d.conversion ≠ .charsWritten) (w : Nat) :
    let s := (d.resolve (.ofList args)).1
    let out := fun w => contents ({ s with width := w }.steps a)
    let B := content features { p with width := [] }.text (args.drop d.width.slots)
    content features p.text args = out s.width ∧
    B = out 0 ∧
    out w = s.padded a w B ∧
    (out w).length = max w B.length ∧
    (s.takesZeros a = false → ∀ zero,
      contents ({ s with width := w, flags := { s.flags with zeroPad := zero } }.steps a) = out w) ∧
    ∀ x, a.float? = some x → x.isFinite = true →
      let image := s.floatImage x
      let counted := (Run.play .counter (image.body.map .emit) ⟨0, 0, []⟩).2.sink
      image.size = image.lead.length + counted ∧ counted = (Output.toList image.body).length := by
  intro s out B
  have resolved : s = d.resolveWith args[0]? args[d.width.slots]? :=
    congrArg Prod.fst (d.resolve_eq (.ofList args))
  have noPercent : d.conversion ≠ .percent := by
    intro percent
    rw [percent] at taken
    cases taken
  obtain ⟨image, made⟩ : ∃ image, s.image? a = some image := by
    rcases (s.takes_iff a).mp taken with image | ⟨count, -⟩
    · exact Option.isSome_iff_exists.mp image
    · exact absurd count printed
  have bare : B = Output.toList image.bare :=
    content_unset denotes noPercent value (resolved ▸ made)
  have law (w : Nat) : out w = s.padded a w B := by
    rw [bare]
    exact Spec.contents_refit made w s.flags.leftJustify s.flags.zeroPad
  refine ⟨?_, ?_, law w, ?_, ?_, ?_⟩
  · have whole := content_text denotes args
    rw [value, Directive.output_value noPercent, ← resolved] at whole
    exact whole
  · rw [law, Spec.padded_zero]
  · rw [law, length_padded]
  · intro noZeros zero
    exact Spec.contents_refit_zero made noZeros w s.flags.leftJustify zero s.flags.zeroPad
  · intro x number finite image counted
    have count : counted = (Output.toList image.body).length := counted_body image.body
    refine ⟨?_, count⟩
    rw [count, Output.length_toList, Image.size]

/-- For -3, `%0a` writes nine bytes, and a width of 12 puts three zeros behind the sign and the
mark. -/
theorem width_only_pads_negative_hex :
    let p : Directive.Spelling := ⟨[byte '0'], [byte '*'], [], [], byte 'a'⟩
    let d : Directive :=
      ⟨⟨false, false, false, false, true⟩, .fromArg, .unset, .none, .hexFloat, .lower⟩
    let a := Arg.float ⟨0xc008000000000000⟩
    p.Denotes ⟨true, true⟩ d ∧ d.conversion.takes a = true ∧ d.conversion ≠ .charsWritten ∧
    content ⟨true, true⟩ (utf8 "%0a") [a] = utf8 "-0x1.8p+1" ∧
    content ⟨true, true⟩ p.text [.int 12, a] = utf8 "-0x0001.8p+1" := by
  intro p d a
  have denotes : p.Denotes ⟨true, true⟩ d :=
    { flags := (Directive.flagText_iff _ _).mpr ⟨List.forall_mem_singleton.mpr (by decide), rfl⟩
      width := .star
      precision := .absent
      length := .absent
      letter := .hexFloat rfl rfl
      flagsMaximal := Directive.stops_cons.mpr (by decide)
      widthMaximal := Directive.stops_cons.mpr (by decide)
      precisionMaximal := Directive.stops_cons.mpr (by decide) }
  have taken : d.conversion.takes a = true := by decide
  have printed : d.conversion ≠ .charsWritten := by decide
  obtain ⟨whole, -, law, -⟩ := width_only_pads denotes [.int 12, a] a rfl taken printed 12
  have text : utf8 "%0a" = ({ p with width := [] } : Directive.Spelling).text := by decide
  have bare : content ⟨true, true⟩ (utf8 "%0a") [a] = utf8 "-0x1.8p+1" := by decide +kernel
  have width : (d.resolve (.ofList [.int 12, a])).1.width = 12 := by decide +kernel
  have fitted : Spec.padded (d.resolve (.ofList [.int 12, a])).1 a 12 (utf8 "-0x1.8p+1") =
      utf8 "-0x0001.8p+1" := by decide +kernel
  refine ⟨denotes, taken, printed, bare, ?_⟩
  rw [text] at bare
  rw [width] at whole
  exact whole.trans (law.trans ((congrArg (Spec.padded _ a 12) bare).trans fitted))

end Printf
