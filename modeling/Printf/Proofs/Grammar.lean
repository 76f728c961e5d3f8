import Mathlib.Data.List.Induction
import Mathlib.Data.List.TakeWhile
import Mathlib.Data.Nat.Digits.Defs
import Printf.Directive.Parser

/-! The grammar of directives, as texts of five parts with their meaning, and the proof that the
reader accepts exactly these texts. Nothing in the grammar depends on how a text is read: the only
ambiguity, a zero that could be a flag or a digit, is settled by the longest run of flags. -/
namespace Printf.Directive

def decimalValue (run : Bytes) : Nat := Nat.ofDigits 10 (run.reverse.map digitOf)

/-- No byte of a class stands at the front of a text, so that a run in front of it is the longest. -/
def Stops (p : UInt8 → Bool) (text : Bytes) : Prop := ∀ b ∈ text.head?, p b = false

/-- Flags by the bytes of their run, where a minus sign beats a zero and a plus sign a blank. -/
structure FlagText (run : Bytes) (flags : Flags) : Prop where
  bytes : ∀ b ∈ run, b ∈ utf8 "-+ #0"
  leftJustify : flags.leftJustify = true ↔ byte '-' ∈ run
  forceSign : flags.forceSign = true ↔ byte '+' ∈ run
  spaceSign : flags.spaceSign = true ↔ byte ' ' ∈ run ∧ byte '+' ∉ run
  altForm : flags.altForm = true ↔ byte '#' ∈ run
  zeroPad : flags.zeroPad = true ↔ byte '0' ∈ run ∧ byte '-' ∉ run

inductive WidthText : Bytes → Field → Prop where
  | absent : WidthText [] .unset
  | star : WidthText [byte '*'] .fromArg
  | digits (run : Bytes) : run ≠ [] → (∀ b ∈ run, isDigit b = true) →
      WidthText run (.fixed (min (decimalValue run) 2147483647))

inductive PrecisionText : Bytes → Field → Prop where
  | absent : PrecisionText [] .unset
  | star : PrecisionText [byte '.', byte '*'] .fromArg
  | digits (run : Bytes) : (∀ b ∈ run, isDigit b = true) →
      PrecisionText (byte '.' :: run) (.fixed (min (decimalValue run) 2147483647))

inductive LengthText (features : Features) : Bytes → Length → Prop where
  | absent : LengthText features [] .none
  | h : LengthText features [byte 'h'] .h
  | l : LengthText features [byte 'l'] .l
  | bigL : LengthText features [byte 'L'] .bigL
  | hh : features.c99 = true → LengthText features [byte 'h', byte 'h'] .hh
  | ll : features.c99 = true → LengthText features [byte 'l', byte 'l'] .ll
  | j : features.c99 = true → LengthText features [byte 'j'] .j
  | z : features.c99 = true → LengthText features [byte 'z'] .z
  | t : features.c99 = true → LengthText features [byte 't'] .t

inductive Letter (features : Features) : UInt8 → Conversion → LetterCase → Prop where
  | percent : Letter features (byte '%') .percent .none
  | char : Letter features (byte 'c') .char .none
  | str : Letter features (byte 's') .str .none
  | signed : Letter features (byte 'd') .signed .none
  | integer : Letter features (byte 'i') .signed .none
  | octal : Letter features (byte 'o') .octal .none
  | hex : Letter features (byte 'x') .hex .lower
  | upperHex : Letter features (byte 'X') .hex .upper
  | unsigned : Letter features (byte 'u') .unsigned .none
  | charsWritten : Letter features (byte 'n') .charsWritten .none
  | pointer : Letter features (byte 'p') .pointer .none
  | fixed : features.float = true → Letter features (byte 'f') .fixed .lower
  | upperFixed : features.float = true → Letter features (byte 'F') .fixed .upper
  | exponent : features.float = true → Letter features (byte 'e') .exponent .lower
  | upperExponent : features.float = true → Letter features (byte 'E') .exponent .upper
  | general : features.float = true → Letter features (byte 'g') .general .lower
  | upperGeneral : features.float = true → Letter features (byte 'G') .general .upper
  | hexFloat : features.float = true → features.c99 = true →
      Letter features (byte 'a') .hexFloat .lower
  | upperHexFloat : features.float = true → features.c99 = true →
      Letter features (byte 'A') .hexFloat .upper

structure Spelling where
  flags : Bytes
  width : Bytes
  precision : Bytes
  length : Bytes
  letter : UInt8

def Spelling.text (p : Spelling) : Bytes :=
  byte '%' :: (p.flags ++ (p.width ++ (p.precision ++ (p.length ++ [p.letter]))))

/-- The parts spell a directive, and each run is as long as it can be. -/
structure Spelling.Denotes (features : Features) (p : Spelling) (d : Directive) : Prop where
  flags : FlagText p.flags d.flags
  width : WidthText p.width d.width
  precision : PrecisionText p.precision d.precision
  length : LengthText features p.length d.length
  letter : Letter features p.letter d.conversion d.letterCase
  flagsMaximal : Stops (· ∈ utf8 "-+ #0") (p.width ++ (p.precision ++ (p.length ++ [p.letter])))
  widthMaximal : Stops isDigit (p.precision ++ (p.length ++ [p.letter]))
  precisionMaximal : Stops isDigit (p.length ++ [p.letter])

def Spelled (features : Features) (text : Bytes) (d : Directive) : Prop :=
  ∃ p : Spelling, p.text = text ∧ p.Denotes features d

theorem isFlag_iff (b : UInt8) : isFlag b = true ↔ b ∈ utf8 "-+ #0" := by
  have same : utf8 "-+ #0" = ['-', '+', ' ', '#', '0'].map byte := by decide
  rw [same]
  exact decide_eq_true_iff

theorem foldl_withFlag (run : Bytes) (flags : Flags) : run.foldl withFlag flags =
    { leftJustify := flags.leftJustify || decide (byte '-' ∈ run)
      forceSign := flags.forceSign || decide (byte '+' ∈ run)
      spaceSign := flags.spaceSign || decide (byte ' ' ∈ run)
      altForm := flags.altForm || decide (byte '#' ∈ run)
      zeroPad := flags.zeroPad || decide (byte '0' ∈ run) } := by
  induction run generalizing flags with
  | nil => simp
  | cons b run ih =>
    rw [List.foldl_cons, ih]
    simp only [List.mem_cons, withFlag, Flags.mk.injEq]
    by_cases minus : b = byte '-'
    · subst minus; simp [byte]
    by_cases plus : b = byte '+'
    · subst plus; simp [byte]
    by_cases blank : b = byte ' '
    · subst blank; simp [byte]
    by_cases hash : b = byte '#'
    · subst hash; simp [byte]
    by_cases zero : b = byte '0'
    · subst zero; simp [byte]
    · simp [minus, plus, blank, hash, zero, eq_comm]

/-- The flags of a run by the bytes in it. -/
theorem flagsOf_eq (run : Bytes) : flagsOf run =
    { leftJustify := byte '-' ∈ run
      forceSign := byte '+' ∈ run
      spaceSign := byte ' ' ∈ run ∧ byte '+' ∉ run
      altForm := byte '#' ∈ run
      zeroPad := byte '0' ∈ run ∧ byte '-' ∉ run } := by
  rw [flagsOf, foldl_withFlag, settle]
  by_cases plus : byte '+' ∈ run <;> by_cases minus : byte '-' ∈ run <;> simp [plus, minus]

theorem flagText_iff (run : Bytes) (flags : Flags) :
    FlagText run flags ↔ (∀ b ∈ run, isFlag b = true) ∧ flags = flagsOf run := by
  constructor
  · intro h
    refine ⟨fun b member => (isFlag_iff b).mpr (h.bytes b member), ?_⟩
    obtain ⟨left, force, space, alt, zero⟩ := flags
    simp only [flagsOf_eq, Flags.mk.injEq]
    refine ⟨?_, ?_, ?_, ?_, ?_⟩ <;> rw [Bool.eq_iff_iff, decide_eq_true_iff]
    · exact h.leftJustify
    · exact h.forceSign
    · exact h.spaceSign
    · exact h.altForm
    · exact h.zeroPad
  · rintro ⟨bytes, rfl⟩
    rw [flagsOf_eq]
    exact ⟨fun b member => (isFlag_iff b).mp (bytes b member), decide_eq_true_iff,
      decide_eq_true_iff, decide_eq_true_iff, decide_eq_true_iff, decide_eq_true_iff⟩

theorem value_ofDigits (b : Nat) (ds : List Nat) :
    Radix.value b ds = Nat.ofDigits b ds.reverse := by
  induction ds using List.reverseRecOn with
  | nil => rfl
  | append_singleton ds d ih =>
    rw [Radix.value_append_single, ih, List.reverse_append, List.reverse_singleton,
      List.singleton_append, Nat.ofDigits_cons, Nat.add_comm, Nat.mul_comm]

/-- Cutting down at every digit gives the same as cutting down at the end. -/
theorem limitedValue_eq (run : Bytes) : limitedValue run = min (decimalValue run) 2147483647 := by
  induction run using List.reverseRecOn with
  | nil => rfl
  | append_singleton run b ih =>
    have step : limitedValue (run ++ [b]) = min (limitedValue run * 10 + digitOf b) maxField := by
      simp only [limitedValue, List.foldl_append, List.foldl_cons, List.foldl_nil]
    have value : decimalValue (run ++ [b]) = decimalValue run * 10 + digitOf b := by
      rw [decimalValue, decimalValue, List.reverse_append, List.reverse_singleton,
        List.singleton_append, List.map_cons, Nat.ofDigits_cons, Nat.add_comm, Nat.mul_comm]
    rw [step, value, ih, maxField]
    omega

theorem letter_of_mem (features : Features) :
    ∀ e ∈ conversions features, Letter features e.1 e.2.1 e.2.2 := by
  simp only [conversions, List.forall_mem_append, List.forall_mem_cons]
  refine ⟨⟨⟨.percent, .char, .str, .signed, .integer, .octal, .hex, .upperHex, .unsigned,
    .charsWritten, .pointer, ?_⟩, ?_⟩, ?_⟩
  · exact List.forall_mem_nil _
  · split
    · next float =>
      simp only [List.forall_mem_cons]
      exact ⟨.fixed float, .upperFixed float, .exponent float, .upperExponent float,
        .general float, .upperGeneral float, List.forall_mem_nil _⟩
    · exact List.forall_mem_nil _
  · split
    · next both =>
      obtain ⟨float, c99⟩ := Bool.and_eq_true_iff.mp both
      simp only [List.forall_mem_cons]
      exact ⟨.hexFloat float c99, .upperHexFloat float c99, List.forall_mem_nil _⟩
    · exact List.forall_mem_nil _

theorem conversions_lookup (features : Features) (b : UInt8) (c : Conversion) (k : LetterCase) :
    (conversions features).lookup b = some (c, k) ↔ Letter features b c k := by
  constructor
  · intro found
    obtain ⟨before, behind, split, -⟩ := List.lookup_eq_some_iff.mp found
    refine letter_of_mem features (b, c, k) ?_
    rw [split]
    exact List.mem_append_right _ List.mem_cons_self
  · intro letter
    rcases features with ⟨_ | _, _ | _⟩ <;> cases letter <;> trivial

variable {p : UInt8 → Bool} {a b : Bytes}

theorem Stops.append (front : Stops p a) (behind : Stops p b) : Stops p (a ++ b) := by
  cases a with
  | nil => exact behind
  | cons x a => exact front

theorem Stops.left (whole : Stops p (a ++ b)) : Stops p a := by
  cases a with
  | nil => intro x member; cases member
  | cons x a => exact whole

theorem Stops.extend (front : Stops p a) (full : a ≠ []) : Stops p (a ++ b) := by
  obtain ⟨x, a, rfl⟩ := List.exists_cons_of_ne_nil full
  exact front

theorem stops_cons {x : UInt8} : Stops p (x :: a) ↔ p x = false := by simp [Stops]

theorem Stops.run (stops : Stops p b) (all : ∀ x ∈ a, p x = true) :
    (a ++ b).takeWhile p = a ∧ (a ++ b).dropWhile p = b := by
  rw [List.takeWhile_append_of_pos all, List.dropWhile_append_of_pos all]
  cases b with
  | nil => simp
  | cons x b => simp [stops_cons.mp stops]

theorem stops_dropWhile (p : UInt8 → Bool) (text : Bytes) : Stops p (text.dropWhile p) := by
  intro b member
  induction text with
  | nil => cases member
  | cons x text ih =>
    rw [List.dropWhile_cons] at member
    split at member
    · exact ih member
    · next other =>
      cases member
      exact Bool.eq_false_iff.mpr other

theorem PrecisionText.stops {text : Bytes} {field : Field} (h : PrecisionText text field)
    (point : p (byte '.') = false) : Stops p text := by
  cases h with
  | absent => intro b member; cases member
  | star => exact stops_cons.mpr point
  | digits run => exact stops_cons.mpr point

theorem LengthText.stops {features : Features} {text : Bytes} {length : Length}
    (spelled : LengthText features text length) (apart : ∀ y ∈ utf8 "hlLjzt", p y = false) :
    Stops p text := by
  cases spelled with
  | absent => intro b member; cases member
  | h | hh => exact stops_cons.mpr (apart (byte 'h') (by decide))
  | l | ll => exact stops_cons.mpr (apart (byte 'l') (by decide))
  | bigL => exact stops_cons.mpr (apart (byte 'L') (by decide))
  | j => exact stops_cons.mpr (apart (byte 'j') (by decide))
  | z => exact stops_cons.mpr (apart (byte 'z') (by decide))
  | t => exact stops_cons.mpr (apart (byte 't') (by decide))

theorem Letter.mem {features : Features} {b : UInt8} {c : Conversion} {k : LetterCase}
    (h : Letter features b c k) : b ∈ utf8 "%csdioxXunpfFeEgGaA" := by
  cases h <;> decide

def endingBytes : Bytes := utf8 "hlLjzt%csdioxXunpfFeEgGaA"

/-- A run of a class that has no such byte ends in front of a length and a letter. -/
theorem stops_ending {features : Features} {text : Bytes} {length : Length} {x : UInt8}
    {c : Conversion} {k : LetterCase} (spelled : LengthText features text length)
    (letter : Letter features x c k) (apart : endingBytes.all (!p ·) = true) (rest : Bytes) :
    Stops p (text ++ x :: rest) := by
  have letters : endingBytes = utf8 "hlLjzt" ++ utf8 "%csdioxXunpfFeEgGaA" := by decide
  simp only [letters, List.all_append, Bool.and_eq_true, List.all_eq_true, Bool.not_eq_true']
    at apart
  exact (spelled.stops apart.1).append (stops_cons.mpr (apart.2 x letter.mem))

/-- Five parts spell a directive if the width does not begin with a zero, which would be a flag. -/
theorem Spelling.denotes_of_parts {features : Features} {p : Spelling} {width precision : Field}
    {length : Length} {c : Conversion} {k : LetterCase} (flags : ∀ b ∈ p.flags, b ∈ utf8 "-+ #0")
    (widthText : WidthText p.width width) (noZero : p.width.head? ≠ some (byte '0'))
    (precisionText : PrecisionText p.precision precision)
    (lengthText : LengthText features p.length length) (letter : Letter features p.letter c k) :
    p.Denotes features ⟨flagsOf p.flags, width, precision, length, c, k⟩ where
  flags := (flagText_iff _ _).mpr ⟨fun b member => (isFlag_iff b).mpr (flags b member), rfl⟩
  width := widthText
  precision := precisionText
  length := lengthText
  letter := letter
  flagsMaximal := by
    have behind : Stops (· ∈ utf8 "-+ #0") (p.precision ++ (p.length ++ [p.letter])) :=
      (precisionText.stops (by decide)).append (stops_ending lengthText letter (by decide) [])
    refine Stops.append ?_ behind
    intro b first
    generalize p.width = run at widthText noZero first
    cases widthText with
    | absent => cases first
    | star => cases first; decide
    | digits _ _ all =>
      -- the only digit among the flags is the zero
      have digit := all b (List.mem_of_mem_head? first)
      refine decide_eq_false fun flag => ?_
      have zero : ∀ f ∈ utf8 "-+ #0", isDigit f = true → f = byte '0' := by decide +kernel
      rw [Option.mem_def.mp first, zero b flag digit] at noZero
      exact noZero rfl
  widthMaximal :=
    (precisionText.stops (by decide)).append (stops_ending lengthText letter (by decide) [])
  precisionMaximal := stops_ending lengthText letter (by decide) []

/-- Zeros in front of a width are flags of the same text. -/
theorem WidthText.without_zeros {run : Bytes} {width : Field} (spelled : WidthText run width) :
    ∃ zeros rest width', run = zeros ++ rest ∧ (∀ b ∈ zeros, b = byte '0') ∧ WidthText rest width' ∧
      rest.head? ≠ some (byte '0') ∧ width'.slots = width.slots := by
  cases spelled with
  | absent => exact ⟨[], [], _, rfl, List.forall_mem_nil _, .absent, by decide, rfl⟩
  | star => exact ⟨[], _, _, rfl, List.forall_mem_nil _, .star, by decide, rfl⟩
  | digits _ _ all =>
    have zeros : ∀ b ∈ run.takeWhile (· == byte '0'), b = byte '0' :=
      fun b member => eq_of_beq (List.mem_takeWhile_imp (p := (· == byte '0')) member)
    have noZero : (run.dropWhile (· == byte '0')).head? ≠ some (byte '0') :=
      fun zero => absurd (stops_dropWhile (· == byte '0') run _ zero) (by decide)
    have digits : ∀ b ∈ run.dropWhile (· == byte '0'), isDigit b = true :=
      fun b member => all b ((List.dropWhile_suffix _).subset member)
    have split := (List.takeWhile_append_dropWhile (p := (· == byte '0')) (l := run)).symm
    by_cases empty : run.dropWhile (· == byte '0') = []
    · refine ⟨_, _, .unset, split, zeros, ?_, noZero, rfl⟩
      rw [empty]
      exact .absent
    · exact ⟨_, _, _, split, zeros, .digits _ empty digits, noZero, rfl⟩

theorem readFlags_text {run rest : Bytes} {flags : Flags} (h : FlagText run flags)
    (stops : Stops (· ∈ utf8 "-+ #0") rest) : readFlags (run ++ rest) = (flags, rest) := by
  obtain ⟨all, rfl⟩ := (flagText_iff run flags).mp h
  have ends : Stops isFlag rest := by
    intro b member
    exact Bool.eq_false_iff.mpr fun flag =>
      of_decide_eq_false (stops b member) ((isFlag_iff b).mp flag)
  rw [readFlags, (ends.run all).1, (ends.run all).2]

theorem readWidth_text {text rest : Bytes} {field : Field} (spelled : WidthText text field)
    (digit : Stops isDigit rest) (star : Stops (· == byte '*') rest) :
    readWidth (text ++ rest) = (field, rest) := by
  cases spelled with
  | absent =>
    have noStar : rest.head? ≠ some (byte '*') := by
      intro head
      exact absurd (star _ head) (by decide)
    have noRun : rest.takeWhile isDigit = [] := (digit.run (List.forall_mem_nil _)).1
    simp [readWidth, noStar, noRun]
  | star => simp [readWidth]
  | digits _ full all =>
    have noStar : (text ++ rest).head? ≠ some (byte '*') := by
      obtain ⟨d, ds, rfl⟩ := List.exists_cons_of_ne_nil full
      intro head
      cases head
      exact absurd (all _ List.mem_cons_self) (by decide)
    rw [readWidth, if_neg noStar, (digit.run all).1, (digit.run all).2, if_neg full,
      limitedValue_eq]

theorem readPrecision_text {text rest : Bytes} {field : Field}
    (spelled : PrecisionText text field) (digit : Stops isDigit rest)
    (star : Stops (· == byte '*') rest) (point : Stops (· == byte '.') rest) :
    readPrecision (text ++ rest) = (field, rest) := by
  cases spelled with
  | absent =>
    have noPoint : rest.head? ≠ some (byte '.') := by
      intro head
      exact absurd (point _ head) (by decide)
    simp [readPrecision, noPoint]
  | star => simp [readPrecision]
  | digits run all =>
    have noStar : (run ++ rest).head? ≠ some (byte '*') := by
      intro head
      have stops : Stops (· == byte '*') (run ++ rest) := by
        refine Stops.append ?_ star
        intro d member
        have digit := all d (List.mem_of_mem_head? member)
        refine Bool.eq_false_iff.mpr fun same => ?_
        rw [eq_of_beq same] at digit
        exact absurd digit (by decide)
      exact absurd (stops _ head) (by decide)
    have point : (byte '.' :: (run ++ rest)).head? = some (byte '.') := rfl
    rw [readPrecision, List.cons_append, if_pos point, List.tail_cons, if_neg noStar,
      (digit.run all).1, (digit.run all).2, limitedValue_eq]

theorem readLength_text {features : Features} {text rest : Bytes} {length : Length} {x : UInt8}
    {c : Conversion} {k : LetterCase} (spelled : LengthText features text length)
    (letter : Letter features x c k) :
    readLength features (text ++ x :: rest) = (length, x :: rest) := by
  have disjoint : (utf8 "%csdioxXunpfFeEgGaA").all
      (fun x => ([104, 108, 76, 106, 122, 116] : Bytes).all (fun y => !(y == x))) = true := by decide
  have apart := List.all_eq_true.mp disjoint x letter.mem
  simp only [List.all_cons, List.all_nil, Bool.and_true, Bool.and_eq_true, Bool.not_eq_true']
    at apart
  obtain ⟨noH, noL, noBigL, noJ, noZ, noT⟩ := apart
  cases spelled with
  | absent | h | l | bigL =>
    cases c99 : features.c99 <;>
      simp [readLength, lengths, List.isPrefixOf, byte, c99, noH, noL, noBigL, noJ, noZ, noT]
  | hh c99 | ll c99 | j c99 | z c99 | t c99 =>
    simp [readLength, lengths, List.isPrefixOf, byte, c99]

theorem readFlags_spelled (fmt : Bytes) : ∃ run, fmt = run ++ (readFlags fmt).2 ∧
    FlagText run (readFlags fmt).1 ∧ Stops (· ∈ utf8 "-+ #0") (readFlags fmt).2 := by
  refine ⟨fmt.takeWhile isFlag, List.takeWhile_append_dropWhile.symm, ?_, ?_⟩
  · exact (flagText_iff _ _).mpr ⟨fun b member => List.mem_takeWhile_imp member, rfl⟩
  · intro b member
    have stop := stops_dropWhile isFlag fmt b member
    exact decide_eq_false fun flag => absurd ((isFlag_iff b).mpr flag) (by simp [stop])

theorem readWidth_spelled (fmt : Bytes) :
    ∃ text, fmt = text ++ (readWidth fmt).2 ∧ WidthText text (readWidth fmt).1 := by
  rw [readWidth]
  split
  · next star =>
    obtain ⟨rest, rfl⟩ := List.head?_eq_some_iff.mp star
    exact ⟨[byte '*'], rfl, .star⟩
  · split
    · exact ⟨[], rfl, .absent⟩
    · next full =>
      refine ⟨fmt.takeWhile isDigit, List.takeWhile_append_dropWhile.symm, ?_⟩
      rw [limitedValue_eq]
      exact .digits _ full fun b member => List.mem_takeWhile_imp member

theorem readPrecision_spelled (fmt : Bytes) :
    ∃ text, fmt = text ++ (readPrecision fmt).2 ∧ PrecisionText text (readPrecision fmt).1 := by
  rw [readPrecision]
  split
  · next point =>
    obtain ⟨rest, rfl⟩ := List.head?_eq_some_iff.mp point
    rw [List.tail_cons]
    split
    · next star =>
      obtain ⟨rest, rfl⟩ := List.head?_eq_some_iff.mp star
      exact ⟨[byte '.', byte '*'], rfl, .star⟩
    · refine ⟨byte '.' :: rest.takeWhile isDigit, ?_, ?_⟩
      · rw [List.cons_append, List.takeWhile_append_dropWhile]
      · rw [limitedValue_eq]
        exact .digits _ fun b member => List.mem_takeWhile_imp member
  · exact ⟨[], rfl, .absent⟩

theorem lengths_spelled (features : Features) :
    ∀ e ∈ lengths features, LengthText features e.1 e.2 := by
  simp only [lengths, List.forall_mem_append, List.forall_mem_cons]
  refine ⟨?_, .h, .l, .bigL, List.forall_mem_nil _⟩
  split
  · next c99 =>
    simp only [List.forall_mem_cons]
    exact ⟨.hh c99, .ll c99, .j c99, .z c99, .t c99, List.forall_mem_nil _⟩
  · exact List.forall_mem_nil _

theorem readLength_spelled (features : Features) (fmt : Bytes) :
    ∃ text, fmt = text ++ (readLength features fmt).2 ∧
      LengthText features text (readLength features fmt).1 := by
  rw [readLength]
  split
  · next letters length found =>
    have front := List.find?_some found
    obtain ⟨rest, rfl⟩ := List.isPrefixOf_iff_prefix.mp front
    refine ⟨letters, by simp, ?_⟩
    exact lengths_spelled features (letters, length) (List.mem_of_find?_eq_some found)
  · exact ⟨[], rfl, .absent⟩

theorem readConversion_iff (features : Features) (fmt rest : Bytes) (c : Conversion)
    (k : LetterCase) : readConversion features fmt = some ((c, k), rest) ↔
      ∃ letter, fmt = letter :: rest ∧ Letter features letter c k := by
  cases fmt with
  | nil => simp [readConversion]
  | cons b fmt =>
    simp only [readConversion, Option.map_eq_some_iff, Prod.mk.injEq, List.cons.injEq,
      ← conversions_lookup]
    constructor
    · rintro ⟨_, found, rfl, rfl⟩
      exact ⟨b, ⟨rfl, rfl⟩, found⟩
    · rintro ⟨_, ⟨rfl, rfl⟩, found⟩
      exact ⟨_, found, rfl, rfl⟩

/-- What the reader takes off a format is a text of the grammar. -/
theorem read?_spelled {features : Features} {fmt rest : Bytes} {d : Directive}
    (read : read? features fmt = some (d, rest)) :
    ∃ p : Spelling, fmt = p.text ++ rest ∧ p.Denotes features d := by
  cases fmt with
  | nil => simp [read?] at read
  | cons b fmt =>
    simp only [read?] at read
    split at read
    · next percent =>
      simp only [readBody?, Option.map_eq_some_iff, Prod.mk.injEq, Prod.exists] at read
      obtain ⟨c, k, rest, converted, rfl, rfl⟩ := read
      obtain ⟨letter, ending, isLetter⟩ := (readConversion_iff ..).mp converted
      obtain ⟨flags, flagsSplit, flagText, flagStop⟩ := readFlags_spelled fmt
      obtain ⟨width, widthSplit, widthText⟩ := readWidth_spelled (readFlags fmt).2
      obtain ⟨precision, precisionSplit, precisionText⟩ :=
        readPrecision_spelled (readWidth (readFlags fmt).2).2
      obtain ⟨length, lengthSplit, lengthText⟩ :=
        readLength_spelled features (readPrecision (readWidth (readFlags fmt).2).2).2
      have digits : Stops isDigit (length ++ [letter]) :=
        stops_ending lengthText isLetter (by decide) []
      have behind : (readFlags fmt).2 =
          (width ++ (precision ++ (length ++ [letter]))) ++ rest := by
        rw [widthSplit, precisionSplit, lengthSplit, ending]
        simp
      refine ⟨⟨flags, width, precision, length, letter⟩, ?_, flagText, widthText, precisionText,
        lengthText, isLetter, ?_, ?_, digits⟩
      · rw [percent, flagsSplit, behind]
        simp [Spelling.text]
      · rw [behind] at flagStop
        exact flagStop.left
      · exact (precisionText.stops (by decide)).append digits
    · cases read

/-- A text of the grammar is taken off any format that it starts. -/
theorem read?_text {features : Features} {p : Spelling} {d : Directive}
    (denotes : p.Denotes features d) (rest : Bytes) :
    read? features (p.text ++ rest) = some (d, rest) := by
  obtain ⟨flags, width, precision, length, letter⟩ := p
  have ending {q : UInt8 → Bool} (apart : endingBytes.all (!q ·) = true) :
      Stops q (length ++ letter :: rest) := stops_ending denotes.length denotes.letter apart rest
  have flagStop : Stops (· ∈ utf8 "-+ #0") (width ++ (precision ++ (length ++ letter :: rest))) := by
    have longer := denotes.flagsMaximal.extend (b := rest) (by simp)
    simpa using longer
  have flagsRead := readFlags_text denotes.flags flagStop
  have widthRead := readWidth_text denotes.width
    ((denotes.precision.stops (by decide)).append (ending (by decide)))
    ((denotes.precision.stops (by decide)).append (ending (by decide)))
  have precisionRead := readPrecision_text denotes.precision (ending (by decide))
    (ending (by decide)) (ending (by decide))
  have lengthRead : readLength features (length ++ letter :: rest) = (d.length, letter :: rest) :=
    readLength_text denotes.length denotes.letter
  have letterRead := (readConversion_iff features (letter :: rest) rest _ _).mpr
    ⟨letter, rfl, denotes.letter⟩
  simp only [Spelling.text, List.cons_append, List.append_assoc, List.nil_append, read?, if_true,
    readBody?, flagsRead, widthRead, precisionRead, lengthRead, letterRead, Option.map_some]

theorem Spelling.two_le_length (p : Spelling) : 2 ≤ p.text.length := by
  simp only [text, List.length_cons, List.length_append]
  omega

theorem nul_not_mem_digits {run : Bytes} (all : ∀ b ∈ run, isDigit b = true) : 0 ∉ run :=
  fun member => absurd (all 0 member) (by decide)

theorem WidthText.nul_not_mem {text : Bytes} {field : Field} (spelled : WidthText text field) :
    0 ∉ text := by
  cases spelled with
  | absent | star => decide
  | digits _ _ all => exact nul_not_mem_digits all

theorem PrecisionText.nul_not_mem {text : Bytes} {field : Field}
    (spelled : PrecisionText text field) : 0 ∉ text := by
  cases spelled with
  | absent | star => decide
  | digits run all =>
    rintro (_ | ⟨_, member⟩)
    exact nul_not_mem_digits all member

theorem LengthText.nul_not_mem {features : Features} {text : Bytes} {length : Length}
    (spelled : LengthText features text length) : 0 ∉ text := by
  cases spelled <;> decide

theorem Spelling.Denotes.nul_not_mem {features : Features} {p : Spelling} {d : Directive}
    (denotes : p.Denotes features d) : 0 ∉ p.text := by
  have flags : 0 ∉ p.flags := fun member => absurd (denotes.flags.bytes 0 member) (by decide)
  have letter : 0 ≠ p.letter := by
    intro nul
    exact absurd denotes.letter.mem (by rw [← nul]; decide)
  have percent : (0 : UInt8) ≠ byte '%' := by decide
  simp [Spelling.text, percent, flags, denotes.width.nul_not_mem, denotes.precision.nul_not_mem,
    denotes.length.nul_not_mem, letter]

theorem parse?_iff (features : Features) (fmt : Bytes) (d : Directive) (n : Nat) :
    parse? features fmt = some (d, n) ↔ n ≤ fmt.length ∧ Spelled features (fmt.take n) d := by
  simp only [parse?, Option.map_eq_some_iff, Prod.mk.injEq, Prod.exists]
  constructor
  · rintro ⟨d, rest, read, rfl, rfl⟩
    obtain ⟨p, rfl, denotes⟩ := read?_spelled read
    exact ⟨Nat.sub_le _ _, p, by simp, denotes⟩
  · rintro ⟨bound, p, text, denotes⟩
    have read := read?_text denotes (fmt.drop n)
    rw [text, List.take_append_drop] at read
    refine ⟨d, fmt.drop n, read, rfl, ?_⟩
    rw [List.length_drop]
    omega

/-- The parser accepts exactly its grammar, in each feature set and for every byte string, and returns
the directive that the text denotes with the length of the text. It takes at least two bytes and no
NUL, and the bytes behind a directive have no influence. -/
theorem parse?_accepts_grammar (features : Features) (fmt : Bytes) :
    (∀ d n, parse? features fmt = some (d, n) ↔
      n ≤ fmt.length ∧ Spelled features (fmt.take n) d) ∧
    (parse? features fmt = none ↔ ∀ d n, n ≤ fmt.length → ¬ Spelled features (fmt.take n) d) ∧
    ∀ d n, parse? features fmt = some (d, n) →
      2 ≤ n ∧ n ≤ fmt.length ∧ 0 ∉ fmt.take n ∧
      ∀ rest, parse? features (fmt.take n ++ rest) = some (d, n) := by
  refine ⟨parse?_iff features fmt, ?_, ?_⟩
  · rw [Option.eq_none_iff_forall_ne_some, Prod.forall]
    constructor
    · intro never d n bound spelled
      exact never d n ((parse?_iff features fmt d n).mpr ⟨bound, spelled⟩)
    · intro never d n parsed
      obtain ⟨bound, spelled⟩ := (parse?_iff features fmt d n).mp parsed
      exact never d n bound spelled
  · intro d n parsed
    obtain ⟨bound, p, text, denotes⟩ := (parse?_iff features fmt d n).mp parsed
    have size : p.text.length = n := by
      rw [text, List.length_take]
      omega
    refine ⟨size ▸ p.two_le_length, bound, text ▸ denotes.nul_not_mem, ?_⟩
    intro rest
    refine (parse?_iff features _ d n).mpr ⟨?_, p, ?_, denotes⟩
    · rw [← text, List.length_append]
      omega
    · rw [← text, ← size, List.take_left]

/-- In `%0+-012.5hhd%s` both zeros in front of the width are flags, and the minus sign beats them. -/
theorem parse?_accepts_long_directive :
    parse? ⟨true, true⟩ (utf8 "%0+-012.5hhd%s") =
      some (⟨⟨true, true, false, false, false⟩, .fixed 12, .fixed 5, .hh, .signed, .none⟩, 12) ∧
    ∀ rest, parse? ⟨true, true⟩ (utf8 "%0+-012.5hhd" ++ rest) =
      some (⟨⟨true, true, false, false, false⟩, .fixed 12, .fixed 5, .hh, .signed, .none⟩, 12) := by
  have parsed : parse? ⟨true, true⟩ (utf8 "%0+-012.5hhd%s") =
      some (⟨⟨true, true, false, false, false⟩, .fixed 12, .fixed 5, .hh, .signed, .none⟩, 12) := by
    decide
  exact ⟨parsed, ((parse?_accepts_grammar ⟨true, true⟩ (utf8 "%0+-012.5hhd%s")).2.2 _ _ parsed).2.2.2⟩

end Printf.Directive
