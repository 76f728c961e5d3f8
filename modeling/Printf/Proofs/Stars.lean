import Printf.Proofs.Concat
import Printf.Proofs.Digits

/-! Stars and the literals they stand for. A star acts as the text of the number that it takes would
in its place: a width as its digits, behind a minus flag if it is negative, a precision as a point
and its digits, and a number that asks for no field as no text at all. -/
namespace Printf

/-- The number that a star takes: the low 32 bits of an integer-like argument as a signed number. -/
def Arg.star? : Arg → Option Int
  | .int v => some v.toInt32.toInt
  | .uint v => some v.toUInt32.toInt32.toInt
  | .char c => some c.toNat
  | .ptr a => some a.toUInt32.toInt32.toInt
  | .float _ | .str _ | .count _ => none

theorem bmod_word (v : UInt64) : (v.toNat : Int).bmod (2 ^ 32) = v.toUInt32.toInt32.toInt := by
  have word : v.toUInt32.toInt32.toInt = v.toUInt32.toBitVec.toInt := rfl
  have low : v.toUInt32.toBitVec.toNat = v.toNat % 2 ^ 32 := UInt64.toNat_toUInt32 v
  rw [word, BitVec.toInt_eq_toNat_bmod, low, Int.natCast_emod]
  exact (Int.emod_bmod _ _).symm

theorem bmod_signed (v : Int64) : (v.toUInt64.toNat : Int).bmod (2 ^ 32) = v.toInt32.toInt := by
  have word : v.toInt = (v.toUInt64.toNat : Int).bmod (2 ^ 64) := BitVec.toInt_eq_toNat_bmod _
  rw [Int64.toInt_toInt32, word]
  exact (Int.bmod_bmod_of_dvd (by decide)).symm

theorem Arg.signed?_none : Arg.signed? .none = Arg.star? := by
  funext a
  cases a with
  | int v => exact congrArg some (bmod_signed v)
  | uint v => exact congrArg some (bmod_word v)
  | ptr v => exact congrArg some (bmod_word v)
  | char c =>
    have small := c.toNat_lt
    have byte : (c.toUInt64.toNat : Int).bmod (2 ^ 32) = c.toNat := by
      rw [UInt8.toNat_toUInt64]
      exact Int.bmod_eq_of_le (by omega) (by omega)
    exact congrArg some byte
  | float x => rfl
  | str text => rfl
  | count cell => rfl

namespace Directive

def starFlag : Option Int → Bytes
  | some w => if w < 0 then [byte '-'] else []
  | none => []

def starWidthText : Option Int → Bytes
  | some w => if w = 0 then [] else Radix.decimal w.natAbs
  | none => []

def starPrecisionText : Option Int → Bytes
  | some v => if 0 ≤ v then byte '.' :: Radix.decimal v.toNat else []
  | none => []

namespace Spelling

def fillWidth (p : Spelling) (w : Option Int) : Spelling :=
  { p with flags := p.flags ++ starFlag w, width := starWidthText w }

def fillPrecision (p : Spelling) (v : Option Int) : Spelling :=
  { p with precision := starPrecisionText v }

def unstarred (p : Spelling) (w v : Option Int) : Spelling :=
  let wide := if p.width = [byte '*'] then p.fillWidth w else p
  if p.precision = [byte '.', byte '*'] then wide.fillPrecision v else wide

end Spelling

/-- The width that a star's literal is read as. -/
def starField : Option Int → Field
  | some w => if w = 0 then .unset else .fixed (min w.natAbs maxField)
  | none => .unset

def fillWidth (d : Directive) (w : Option Int) : Directive :=
  { d with flags := (starWidth d.flags w).1, width := starField w }

def fillPrecision (d : Directive) (v : Option Int) : Directive :=
  { d with precision := (starPrecision v).elim .unset .fixed }

def unstarred (d : Directive) (w v : Option Int) : Directive :=
  let wide := if d.width = .fromArg then d.fillWidth w else d
  if d.precision = .fromArg then wide.fillPrecision v else wide

theorem WidthText.star_iff {text : Bytes} {field : Field} (spelled : WidthText text field) :
    text = [byte '*'] ↔ field = .fromArg := by
  cases spelled with
  | absent => decide
  | star => simp
  | digits _ full all =>
    refine iff_of_false ?_ (by simp)
    rintro rfl
    exact absurd (all _ List.mem_cons_self) (by decide)

theorem PrecisionText.star_iff {text : Bytes} {field : Field}
    (spelled : PrecisionText text field) : text = [byte '.', byte '*'] ↔ field = .fromArg := by
  cases spelled with
  | absent => decide
  | star => simp
  | digits run all =>
    refine iff_of_false ?_ (by simp)
    intro star
    obtain ⟨-, rfl⟩ := List.cons.inj star
    exact absurd (all _ List.mem_cons_self) (by decide)

theorem flagText_star {run : Bytes} {flags : Flags} (spelled : FlagText run flags)
    (w : Option Int) : FlagText (run ++ starFlag w) (starWidth flags w).1 := by
  obtain ⟨all, rfl⟩ := (flagText_iff run flags).mp spelled
  cases w with
  | none => rwa [starFlag, List.append_nil]
  | some w =>
    by_cases negative : w < 0
    · refine (flagText_iff _ _).mpr ⟨?_, ?_⟩
      · intro b member
        rw [starFlag, if_pos negative, List.mem_append, List.mem_singleton] at member
        rcases member with flag | rfl
        · exact all b flag
        · decide
      · have plus : byte '+' ≠ byte '-' := by decide
        have blank : byte ' ' ≠ byte '-' := by decide
        have hash : byte '#' ≠ byte '-' := by decide
        simp [starWidth, starFlag, negative, flagsOf_eq, plus, blank, hash]
    · simpa [starWidth, starFlag, negative] using spelled

theorem widthText_decimal (n : Nat) :
    WidthText (Radix.decimal n) (.fixed (min n maxField)) := by
  have spelled := WidthText.digits _ (Radix.decimal_ne_nil n) (Radix.isDigit_decimal n)
  rwa [decimalValue_decimal] at spelled

theorem widthText_star (w : Option Int) : WidthText (starWidthText w) (starField w) := by
  cases w with
  | none => exact .absent
  | some w =>
    rw [starWidthText, starField]
    split
    · exact .absent
    · exact widthText_decimal w.natAbs

theorem precisionText_star (v : Option Int) :
    PrecisionText (starPrecisionText v) ((starPrecision v).elim .unset .fixed) := by
  cases v with
  | none => exact .absent
  | some v =>
    rw [starPrecisionText, starPrecision]
    split
    · have spelled := PrecisionText.digits _ (Radix.isDigit_decimal v.toNat)
      rwa [decimalValue_decimal] at spelled
    · exact .absent

/-- The literal of a width does not begin with a zero, which would be one more flag. -/
theorem stops_starWidthText (w : Option Int) :
    Stops (· ∈ utf8 "-+ #0") (starWidthText w) := by
  cases w with
  | none => intro b member; cases member
  | some w =>
    rw [starWidthText]
    split
    · intro b member; cases member
    · next positive =>
      intro b member
      have digit := Radix.isDigit_decimal _ b (List.mem_of_mem_head? member)
      have nonzero : b ≠ byte '0' := by
        rintro rfl
        exact Radix.head_decimal (Int.natAbs_pos.mpr positive) member
      have flags : utf8 "-+ #0" = utf8 "-+ #" ++ [byte '0'] := by decide
      refine decide_eq_false fun flag => ?_
      rw [flags, List.mem_append, List.mem_singleton] at flag
      exact flag.elim (not_mem_of_isDigit digit (by decide)) nonzero

variable {features : Features} {p : Spelling} {d : Directive}

theorem Spelling.Denotes.stops_tail (denotes : p.Denotes features d) {q : UInt8 → Bool}
    {text : Bytes} {field : Field} (spelled : PrecisionText text field)
    (point : q (byte '.') = false) (apart : endingBytes.all (!q ·) = true) :
    Stops q (text ++ (p.length ++ [p.letter])) :=
  (spelled.stops point).append (stops_ending denotes.length denotes.letter apart [])

theorem Spelling.Denotes.fillWidth (denotes : p.Denotes features d) (w : Option Int) :
    (p.fillWidth w).Denotes features (d.fillWidth w) where
  flags := flagText_star denotes.flags w
  width := widthText_star w
  precision := denotes.precision
  length := denotes.length
  letter := denotes.letter
  flagsMaximal := (stops_starWidthText w).append
    (denotes.stops_tail denotes.precision (by decide) (by decide))
  widthMaximal := denotes.widthMaximal
  precisionMaximal := denotes.precisionMaximal

theorem Spelling.Denotes.fillPrecision (denotes : p.Denotes features d) (v : Option Int) :
    (p.fillPrecision v).Denotes features (d.fillPrecision v) where
  flags := denotes.flags
  width := denotes.width
  precision := precisionText_star v
  length := denotes.length
  letter := denotes.letter
  flagsMaximal := denotes.flagsMaximal.left.append
    (denotes.stops_tail (precisionText_star v) (by decide) (by decide))
  widthMaximal := denotes.stops_tail (precisionText_star v) (by decide) (by decide)
  precisionMaximal := denotes.precisionMaximal

theorem Spelling.Denotes.unstarred (denotes : p.Denotes features d) (w v : Option Int) :
    (p.unstarred w v).Denotes features (d.unstarred w v) := by
  have wide : (if p.width = [byte '*'] then p.fillWidth w else p).Denotes features
      (if d.width = .fromArg then d.fillWidth w else d) := by
    by_cases star : d.width = .fromArg
    · rw [if_pos star, if_pos (denotes.width.star_iff.mpr star)]
      exact denotes.fillWidth w
    · rw [if_neg star, if_neg (mt denotes.width.star_iff.mp star)]
      exact denotes
  rw [Spelling.unstarred, Directive.unstarred]
  by_cases star : d.precision = .fromArg
  · rw [if_pos star, if_pos (denotes.precision.star_iff.mpr star)]
    exact wide.fillPrecision v
  · rw [if_neg star, if_neg (mt denotes.precision.star_iff.mp star)]
    exact wide

theorem starField_value (flags : Flags) (w : Option Int) :
    (starField w).value?.getD 0 = (starWidth flags w).2 := by
  cases w with
  | none => rfl
  | some w =>
    rw [starField, starWidth]
    split
    · next zero => rw [zero]; rfl
    · rfl

theorem starField_ne (w : Option Int) : starField w ≠ .fromArg := by
  cases w with
  | none => decide
  | some w => rw [starField]; split <;> simp

theorem starPrecision_value (v : Option Int) :
    ((starPrecision v).elim Field.unset .fixed).value? = starPrecision v := by
  cases starPrecision v <;> rfl

theorem starPrecision_ne (v : Option Int) :
    (starPrecision v).elim Field.unset .fixed ≠ .fromArg := by
  cases starPrecision v <;> simp

/-- The text without stars asks for what the stars ask for with their arguments. -/
theorem unstarred_resolveWith (d : Directive) (a b x y : Option Arg) :
    (d.unstarred (a.bind Arg.star?) (b.bind Arg.star?)).resolveWith x y = d.resolveWith a b := by
  by_cases star : d.width = .fromArg <;> by_cases point : d.precision = .fromArg <;>
    simp [unstarred, fillWidth, fillPrecision, resolveWith, fieldWidth, star, point,
      Arg.signed?_none, starField_ne, starField_value d.flags, starPrecision_ne,
      starPrecision_value]

theorem slots_of_ne {field : Field} (other : field ≠ .fromArg) : field.slots = 0 := by
  cases field with
  | unset => rfl
  | fixed n => rfl
  | fromArg => contradiction

theorem unstarred_slots (d : Directive) (w v : Option Int) :
    (d.unstarred w v).width.slots = 0 ∧ (d.unstarred w v).precision.slots = 0 := by
  by_cases star : d.width = .fromArg <;> by_cases point : d.precision = .fromArg <;>
    simp [unstarred, fillWidth, fillPrecision, slots_of_ne, star, point, starField_ne,
      starPrecision_ne]

theorem unstarred_conversion (d : Directive) (w v : Option Int) :
    (d.unstarred w v).conversion = d.conversion := by
  rw [unstarred]
  split <;> split <;> rfl

theorem unstarred_stepsWith (d : Directive) (a b x y value : Option Arg) :
    (d.unstarred (a.bind Arg.star?) (b.bind Arg.star?)).stepsWith x y value =
      d.stepsWith a b value := by
  rw [stepsWith, stepsWith, unstarred_conversion, unstarred_resolveWith]

end Directive

/-- The script of a format that a directive starts. -/
theorem script_text {features : Features} {p : Directive.Spelling} {d : Directive}
    (denotes : p.Denotes features d) (back : Bytes) (args : List Arg) :
    script features (p.text ++ back) args =
      d.stepsWith args[0]? args[d.width.slots]? args[d.width.slots + d.precision.slots]? ++
        script features back (args.drop d.slots) := by
  have read : Directive.read? features (p.text ++ untilNul back) = some (d, untilNul back) :=
    Directive.read?_text denotes _
  have parts : pieces features (p.text ++ back) = .directive d :: pieces features back := by
    rw [pieces, untilNul_append denotes.nul_not_mem]
    exact scan_directive read
  have split : script features (p.text ++ back) args = (d.steps (.ofList args)).1 ++
      (stepsOf (pieces features back) (d.steps (.ofList args)).2).1 := by
    rw [script, parts]
    rfl
  rw [split, d.steps_fst, d.steps_snd, stepsOf_ofList _ (.skip ..)]
  rfl

/-- A list without `n` of its entries, those behind the first `first` ones. -/
def without (args : List Arg) (first n : Nat) : List Arg :=
  args.take first ++ args.drop (first + n)

theorem take_without (args : List Arg) (first n : Nat) :
    (without args first n).take first = args.take first := by
  by_cases inside : first ≤ args.length
  · exact List.take_left' (List.length_take_of_le inside)
  · have short : args.length ≤ first := Nat.le_of_not_le inside
    rw [without, List.drop_eq_nil_of_le (Nat.le_trans short (Nat.le_add_right _ _)),
      List.append_nil, List.take_take, Nat.min_self]

theorem drop_without (args : List Arg) (first n : Nat) :
    (without args first n).drop first = args.drop (first + n) := by
  by_cases inside : first ≤ args.length
  · exact List.drop_left' (List.length_take_of_le inside)
  · have short : args.length ≤ first := Nat.le_of_not_le inside
    rw [without, List.drop_eq_nil_of_le (Nat.le_trans short (Nat.le_add_right _ _)),
      List.append_nil]
    exact List.drop_eq_nil_of_le (List.length_take_le _ _)

/-- A directive with stars, anywhere in a format, does what the directive without stars does, where
each star stands for the number that its argument gives and the slots of the stars are left out.
Bytes and counts are the same on every sink. -/
theorem stars_are_literals {features : Features} {p : Directive.Spelling} {d : Directive}
    (denotes : p.Denotes features d) {front : Bytes} (noNul : 0 ∉ front)
    (whole : Whole features front) (back : Bytes) (args : List Arg) (S : Sink σ) (s : σ)
    (cells : List Nat) :
    let first := slotsOf (pieces features front)
    let w := args[first]?.bind Arg.star?
    let v := args[first + d.width.slots]?.bind Arg.star?
    let q := p.unstarred w v
    (∃ d', q.Denotes features d' ∧ d'.width.slots = 0 ∧ d'.precision.slots = 0) ∧
    formatTo S features (front ++ (p.text ++ back)) args s cells =
      formatTo S features (front ++ (q.text ++ back))
        (without args first (d.width.slots + d.precision.slots)) s cells := by
  intro first w v q
  have filled : q.Denotes features (d.unstarred w v) := denotes.unstarred w v
  obtain ⟨noWidth, noPrecision⟩ := d.unstarred_slots w v
  refine ⟨⟨_, filled, noWidth, noPrecision⟩, ?_⟩
  generalize taken : d.width.slots + d.precision.slots = stars
  have slots : d.slots = stars + (d.unstarred w v).slots := by
    simp only [Directive.slots, noWidth, noPrecision, d.unstarred_conversion, taken, Nat.zero_add]
  have before : script features front (without args first stars) = script features front args := by
    refine stepsOf_congr _ fun j bound => ?_
    have same : ((without args first stars).take first)[j]? = (args.take first)[j]? := by
      rw [take_without]
    rwa [List.getElem?_take_of_lt bound, List.getElem?_take_of_lt bound] at same
  have scripts : script features (front ++ (p.text ++ back)) args =
      script features (front ++ (q.text ++ back)) (without args first stars) := by
    rw [script_append noNul whole, script_append noNul whole, script_text denotes,
      script_text filled, before, drop_without, d.unstarred_stepsWith, noWidth, noPrecision, taken,
      slots]
    simp only [List.getElem?_drop, List.drop_drop, Nat.add_zero, Nat.add_assoc]
    rfl
  rw [formatTo, formatTo, scripts]

/-- With -6 as an unsigned number and -1, `%0*.*d` is `%0-6d`: a blank field behind the number, and
no precision. -/
theorem stars_are_literals_negative :
    let p : Directive.Spelling := ⟨[byte '0'], [byte '*'], [byte '.', byte '*'], [], byte 'd'⟩
    let d : Directive :=
      ⟨⟨false, false, false, false, true⟩, .fromArg, .fromArg, .none, .signed, .none⟩
    let front := utf8 "%d|"
    p.Denotes ⟨true, true⟩ d ∧ 0 ∉ front ∧ Whole ⟨true, true⟩ front ∧
    (p.unstarred (some (-6)) (some (-1))).text = utf8 "%0-6d" ∧
    (formatTo Sink.recording ⟨true, true⟩ (front ++ (p.text ++ utf8 "%n"))
      [.int 1, .uint 4294967290, .int (-1), .int 42, .count 0] [] [0]).sink =
        utf8 "1|42    " ++ [0] ∧
    (formatTo Sink.recording ⟨true, true⟩ (utf8 "%d|%0-6d%n")
      [.int 1, .int 42, .count 0] [] [0]).sink = utf8 "1|42    " ++ [0] := by
  intro p d front
  have denotes : p.Denotes ⟨true, true⟩ d :=
    { flags := (Directive.flagText_iff _ _).mpr ⟨List.forall_mem_singleton.mpr (by decide), rfl⟩
      width := .star
      precision := .star
      length := .absent
      letter := .signed
      flagsMaximal := Directive.stops_cons.mpr (by decide)
      widthMaximal := Directive.stops_cons.mpr (by decide)
      precisionMaximal := Directive.stops_cons.mpr (by decide) }
  have noNul : 0 ∉ front := by decide
  have whole : Whole ⟨true, true⟩ front := by decide +kernel
  have literal : (formatTo Sink.recording ⟨true, true⟩ (utf8 "%d|%0-6d%n")
      [.int 1, .int 42, .count 0] [] [0]).sink = utf8 "1|42    " ++ [0] := by decide +kernel
  obtain ⟨-, same⟩ := stars_are_literals denotes noNul whole (utf8 "%n")
    [.int 1, .uint 4294967290, .int (-1), .int 42, .count 0] Sink.recording [] [0]
  have bytes := congrArg Run.sink same
  exact ⟨denotes, noNul, whole, by decide +kernel, bytes.trans (by decide +kernel), literal⟩

end Printf
