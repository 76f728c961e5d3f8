import Printf.Float.Decimal
import Printf.Float.Reshape
import Printf.Float.Hex
import Printf.Layout

/-! Floating-point conversions. A style is settled first, from the conversion and, for the general
one, from the decimal exponent that the number has after rounding. -/
namespace Printf

inductive FloatStyle where
  | fixed (places : Nat) (strip point : Bool)
  | scientific (places : Nat) (strip point upper : Bool)
  | hex (precision : Option Nat) (point upper : Bool)
  deriving DecidableEq, Repr

/-- No double has more decimal places than this, so further digits are zeros. -/
def exactPlaces : Nat := 1100

def defaultPrecision : Nat := 6

namespace FloatStyle

/-- The general conversion for `p` significant digits: scientific if the rounded number is below
`10 ^ -4` or has more than `p` digits before the point. -/
def general (r : Ratio) (p : Nat) (alt upper : Bool) : FloatStyle :=
  let x := (Decimal.scientific r (min (p - 1) exactPlaces)).exponent
  if x < -4 ∨ x ≥ p then .scientific (p - 1) (!alt) alt upper
  else .fixed ((p : Int) - 1 - x).toNat (!alt) alt

def ofSpec (r : Ratio) (s : Spec) : FloatStyle :=
  match s.conversion with
  | .exponent => .scientific (s.precision.getD defaultPrecision) false s.flags.altForm s.isUpper
  | .general => general r (max (s.precision.getD defaultPrecision) 1) s.flags.altForm s.isUpper
  | .hexFloat => .hex s.precision s.flags.altForm s.isUpper
  | _ => .fixed (s.precision.getD defaultPrecision) false s.flags.altForm

/-- Zeros appended to the digits of an exact expansion. -/
def tail (places : Nat) (strip : Bool) : Nat := if strip then 0 else places - exactPlaces

/-- The radix mark, which zero padding goes after. -/
def radixMark : FloatStyle → Bytes
  | .hex _ _ upper => [byte '0', if upper then byte 'X' else byte 'x']
  | _ => []

def body (x : Binary64) : FloatStyle → Output
  | .fixed places strip point =>
    Reshape.reshape ⟨strip, point, none, tail places strip⟩
      (Decimal.fixedText x.magnitude (min places exactPlaces))
  | .scientific places strip point upper =>
    Reshape.reshape ⟨strip, point, some (if upper then byte 'E' else byte 'e'), tail places strip⟩
      (Decimal.scientificText x.magnitude (min places exactPlaces))
  | .hex precision point upper => Hex.body x precision point upper

end FloatStyle

def nonFiniteText (x : Binary64) (upper : Bool) : Bytes :=
  match x.isNaN, upper with
  | true, false => utf8 "nan"
  | true, true => utf8 "NAN"
  | false, false => utf8 "inf"
  | false, true => utf8 "INF"

/-- The image of a number; only a finite one can take zeros for padding. -/
def Spec.floatImage (s : Spec) (x : Binary64) : Image :=
  let sign := signBytes x.negative s.flags
  if x.isFinite then
    let style := FloatStyle.ofSpec x.magnitude s
    { lead := sign ++ style.radixMark, body := style.body x, zeroable := true }
  else { lead := sign, body := [.text (nonFiniteText x s.isUpper)] }

end Printf
