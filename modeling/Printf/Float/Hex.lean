import Printf.Binary64
import Printf.Output

/-! Hexadecimal texts of finite doubles. The leading digit is the hidden bit, so that it is 0 for
zero and subnormal numbers; a rounding carry can make it 2. -/
namespace Printf.Hex

/-- A leading digit and a fraction of `nibbles` hexadecimal digits. -/
structure Digits where
  lead : Nat
  fraction : Nat
  nibbles : Nat
  deriving DecidableEq, Repr

def fullNibbles : Nat := 13

def trim (lead : Nat) : Nat → Nat → Digits
  | 0, fraction => ⟨lead, fraction, 0⟩
  | nibbles + 1, fraction =>
    if fraction % 16 = 0 then trim lead nibbles (fraction / 16) else ⟨lead, fraction, nibbles + 1⟩

/-- The significand with all its digits dropped that are zero, or rounded to a precision, ties to
even. Digits past the last one of a double are not part of this. -/
def digits (x : Binary64) : Option Nat → Digits
  | none => trim (x.significand / Binary64.leadingBit) fullNibbles x.fractionField
  | some p =>
    if p < fullNibbles then
      let n := ((Ratio.ofNat x.significand).timesPow 16 (p - fullNibbles)).round
      ⟨n / Nat.pow 16 p, n % Nat.pow 16 p, p⟩
    else ⟨x.significand / Binary64.leadingBit, x.fractionField, fullNibbles⟩

/-- The power of two after the letter p: that of the leading digit, and 0 for zero. -/
def exponent (x : Binary64) : Int := if x.isZero then 0 else x.scale + 52

def body (x : Binary64) (precision : Option Nat) (point upper : Bool) : Output :=
  let d := digits x precision
  let extra := precision.getD 0 - fullNibbles
  [.text (Radix.digitByte upper d.lead ::
      (if 0 < d.nibbles ∨ 0 < extra ∨ point then [byte '.'] else []) ++
      (Radix.lastDigits 16 d.nibbles d.fraction).map (Radix.digitByte upper)),
   .fill extra (byte '0'),
   .text ([if upper then byte 'P' else byte 'p', if exponent x < 0 then byte '-' else byte '+'] ++
      Radix.decimal (exponent x).natAbs)]

end Printf.Hex
