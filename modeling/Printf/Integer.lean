import Printf.Layout
import Printf.Radix

/-! Integer, character, text and pointer conversions. A precision is a least number of digits, and
zero under precision zero has none. -/
namespace Printf.Spec

def base (s : Spec) : Nat :=
  match s.conversion with
  | .octal => 8
  | .hex => 16
  | _ => 10

/-- The digits of a magnitude; zero has one unless its precision is zero. -/
def digits (s : Spec) (magnitude : Nat) : Bytes :=
  (if magnitude = 0 ∧ s.precision = some 0 then [] else Radix.numeral s.base magnitude).map
    (Radix.digitByte (s.conversion = .hex && s.isUpper))

def precisionZeros (s : Spec) (magnitude : Nat) : Nat :=
  s.precision.getD 1 - (s.digits magnitude).length

/-- The mark of the alternative form. An octal number needs it only if no zero leads it already. -/
def radixMark (s : Spec) (magnitude : Nat) : Bytes :=
  if !s.flags.altForm then [] else
    match s.conversion with
    | .octal =>
      if s.precisionZeros magnitude = 0 ∧ (s.digits magnitude).head? ≠ some (byte '0')
      then [byte '0'] else []
    | .hex =>
      if magnitude = 0 then [] else [byte '0', if s.isUpper then byte 'X' else byte 'x']
    | _ => []

def integerImage (s : Spec) (sign : Bytes) (magnitude : Nat) : Image where
  lead := sign ++ s.radixMark magnitude
  body := [.fill (s.precisionZeros magnitude) (byte '0'), .text (s.digits magnitude)]
  zeroable := s.precision.isNone

def signedImage (s : Spec) (v : Int) : Image :=
  s.integerImage (signBytes (v < 0) s.flags) v.natAbs

def unsignedImage (s : Spec) (v : Nat) : Image := s.integerImage [] v

def charImage (c : UInt8) : Image where
  body := [.text [c]]

/-- A text ends at its first NUL, and a precision limits its bytes. -/
def strImage (s : Spec) (text : Bytes) : Image where
  body := [.text (match s.precision with
    | some limit => (untilNul text).take limit
    | none => untilNul text)]

def pointerImage (address : Nat) : Image where
  body := [.text (if address = 0 then utf8 "(nil)" else utf8 "0x" ++ Radix.text 16 false address)]

end Printf.Spec
