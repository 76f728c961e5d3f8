import Printf.Directive
import Printf.Radix

/-! Reading one directive: flags, width, precision, length and conversion, each stage taking the
longest text it can. A stage returns what it read and the bytes it left, so that the end of the
format and a NUL need no case of their own: neither continues any stage. -/
namespace Printf.Directive

def isFlag (b : UInt8) : Bool := b ∈ ['-', '+', ' ', '#', '0'].map byte

def withFlag (flags : Flags) (b : UInt8) : Flags :=
  if b = byte '-' then { flags with leftJustify := true }
  else if b = byte '+' then { flags with forceSign := true }
  else if b = byte ' ' then { flags with spaceSign := true }
  else if b = byte '#' then { flags with altForm := true }
  else if b = byte '0' then { flags with zeroPad := true }
  else flags

/-- A plus sign beats a blank and a minus sign beats a zero, whatever order they came in. -/
def settle (flags : Flags) : Flags :=
  let flags := if flags.forceSign then { flags with spaceSign := false } else flags
  if flags.leftJustify then { flags with zeroPad := false } else flags

def flagsOf (run : Bytes) : Flags := settle (run.foldl withFlag {})

/-- The number that a run of decimal digits spells, cut down to the largest field at every digit. -/
def limitedValue (run : Bytes) : Nat := run.foldl (fun n b => min (n * 10 + digitOf b) maxField) 0

def readFlags (fmt : Bytes) : Flags × Bytes :=
  (flagsOf (fmt.takeWhile isFlag), fmt.dropWhile isFlag)

def readWidth (fmt : Bytes) : Field × Bytes :=
  if fmt.head? = some (byte '*') then (.fromArg, fmt.tail)
  else if fmt.takeWhile isDigit = [] then (.unset, fmt)
  else (.fixed (limitedValue (fmt.takeWhile isDigit)), fmt.dropWhile isDigit)

/-- A point with no digit after it asks for precision zero. -/
def readPrecision (fmt : Bytes) : Field × Bytes :=
  if fmt.head? = some (byte '.') then
    if fmt.tail.head? = some (byte '*') then (.fromArg, fmt.tail.tail)
    else (.fixed (limitedValue (fmt.tail.takeWhile isDigit)), fmt.tail.dropWhile isDigit)
  else (.unset, fmt)

/-- The length modifiers of two letters come first, so that they are not read as two of one. -/
def lengths (features : Features) : List (Bytes × Length) :=
  (if features.c99 then
    [([byte 'h', byte 'h'], .hh), ([byte 'l', byte 'l'], .ll),
     ([byte 'j'], .j), ([byte 'z'], .z), ([byte 't'], .t)] else []) ++
  [([byte 'h'], .h), ([byte 'l'], .l), ([byte 'L'], .bigL)]

def readLength (features : Features) (fmt : Bytes) : Length × Bytes :=
  match (lengths features).find? (fun entry => entry.1.isPrefixOf fmt) with
  | some (letters, length) => (length, fmt.drop letters.length)
  | none => (.none, fmt)

def conversions (features : Features) : List (UInt8 × Conversion × LetterCase) :=
  [(byte '%', .percent, .none), (byte 'c', .char, .none), (byte 's', .str, .none),
   (byte 'd', .signed, .none), (byte 'i', .signed, .none), (byte 'o', .octal, .none),
   (byte 'x', .hex, .lower), (byte 'X', .hex, .upper), (byte 'u', .unsigned, .none),
   (byte 'n', .charsWritten, .none), (byte 'p', .pointer, .none)] ++
  (if features.float then
    [(byte 'f', .fixed, .lower), (byte 'F', .fixed, .upper),
     (byte 'e', .exponent, .lower), (byte 'E', .exponent, .upper),
     (byte 'g', .general, .lower), (byte 'G', .general, .upper)] else []) ++
  (if features.float && features.c99 then
    [(byte 'a', .hexFloat, .lower), (byte 'A', .hexFloat, .upper)] else [])

def readConversion (features : Features) : Bytes → Option ((Conversion × LetterCase) × Bytes)
  | [] => none
  | b :: rest => ((conversions features).lookup b).map (·, rest)

def readBody? (features : Features) (fmt : Bytes) : Option (Directive × Bytes) :=
  let (flags, fmt) := readFlags fmt
  let (width, fmt) := readWidth fmt
  let (precision, fmt) := readPrecision fmt
  let (length, fmt) := readLength features fmt
  (readConversion features fmt).map fun ((conversion, letterCase), rest) =>
    ({ flags, width, precision, length, conversion, letterCase }, rest)

def read? (features : Features) : Bytes → Option (Directive × Bytes)
  | [] => none
  | b :: fmt => if b = byte '%' then readBody? features fmt else none

/-- Reads a directive and returns it with the number of bytes it takes. -/
def parse? (features : Features) (fmt : Bytes) : Option (Directive × Nat) :=
  (read? features fmt).map fun (directive, rest) => (directive, fmt.length - rest.length)

theorem length_dropWhile_le (p : UInt8 → Bool) (bs : Bytes) :
    (bs.dropWhile p).length ≤ bs.length := (List.dropWhile_suffix p).length_le

theorem readWidth_length (fmt : Bytes) : (readWidth fmt).2.length ≤ fmt.length := by
  unfold readWidth
  split
  · simp
  · split
    · exact Nat.le_refl _
    · exact length_dropWhile_le _ _

theorem readPrecision_length (fmt : Bytes) : (readPrecision fmt).2.length ≤ fmt.length := by
  unfold readPrecision
  split
  · split
    · simp only [List.length_tail]; omega
    · have := length_dropWhile_le isDigit fmt.tail
      simp only [List.length_tail] at this
      simp only []
      omega
  · exact Nat.le_refl _

theorem readLength_length (features : Features) (fmt : Bytes) :
    (readLength features fmt).2.length ≤ fmt.length := by
  unfold readLength
  split
  · simp
  · exact Nat.le_refl _

theorem readConversion_length {features : Features} {fmt rest : Bytes} {what}
    (h : readConversion features fmt = some (what, rest)) : rest.length < fmt.length := by
  cases fmt with
  | nil => simp [readConversion] at h
  | cons b fmt =>
    simp only [readConversion, Option.map_eq_some_iff, Prod.mk.injEq] at h
    obtain ⟨_, _, _, rfl⟩ := h
    simp

/-- A directive takes at least two bytes, so that scanning a format always advances. -/
theorem read?_length {features : Features} {fmt rest : Bytes} {directive : Directive}
    (h : read? features fmt = some (directive, rest)) : rest.length + 2 ≤ fmt.length := by
  cases fmt with
  | nil => simp [read?] at h
  | cons b fmt =>
    simp only [read?] at h
    split at h
    · simp only [readBody?, Option.map_eq_some_iff] at h
      obtain ⟨⟨what, left⟩, read, eq⟩ := h
      simp only [Prod.mk.injEq] at eq
      obtain ⟨-, rfl⟩ := eq
      have := readConversion_length read
      have := readLength_length features (readPrecision (readWidth (readFlags fmt).2).2).2
      have := readPrecision_length (readWidth (readFlags fmt).2).2
      have := readWidth_length (readFlags fmt).2
      have := length_dropWhile_le isFlag fmt
      simp only [readFlags] at *
      simp only [List.length_cons]
      omega
    · simp at h

end Printf.Directive
