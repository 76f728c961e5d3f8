import Printf.Rounding

/-! Double-precision numbers as bit patterns. A finite one is a significand times a power of two;
`ofRatio` is the correctly rounded way back. No machine arithmetic is used. -/
namespace Printf

structure Binary64 where
  bits : UInt64
  deriving DecidableEq, Repr

namespace Binary64

def signBit : Nat := 0x8000000000000000

/-- The weight of the leading bit of a significand, `2 ^ 52`, and of one in the exponent field. -/
def leadingBit : Nat := 0x10000000000000

/-- The sign and the other 63 bits as one number, which grows with the magnitude. -/
def ofCode (negative : Bool) (code : Nat) : Binary64 :=
  ⟨((if negative then signBit else 0) + code).toUInt64⟩

def negative (x : Binary64) : Bool := x.bits.toNat / signBit == 1

def exponentField (x : Binary64) : Nat := x.bits.toNat / leadingBit % 2048

def fractionField (x : Binary64) : Nat := x.bits.toNat % leadingBit

def isFinite (x : Binary64) : Bool := x.exponentField != 2047

def isNaN (x : Binary64) : Bool := x.exponentField == 2047 && x.fractionField != 0

def isZero (x : Binary64) : Bool := x.exponentField == 0 && x.fractionField == 0

/-- The significand of a finite number; a subnormal one lacks the leading bit. -/
def significand (x : Binary64) : Nat :=
  if x.exponentField = 0 then x.fractionField else leadingBit + x.fractionField

/-- The power of two that the significand is scaled by. -/
def scale (x : Binary64) : Int := (max x.exponentField 1 : Nat) - 1075

def magnitude (x : Binary64) : Ratio := (Ratio.ofNat x.significand).timesPow 2 x.scale

def zero (negative : Bool) : Binary64 := ofCode negative 0
def infinity (negative : Bool) : Binary64 := ofCode negative (2047 * leadingBit)
def nan (negative : Bool) : Binary64 := ofCode negative (2047 * leadingBit + leadingBit / 2)

/-- The number nearest to a fraction, ties to an even significand; infinity past the largest one.
A carry out of the significand moves into the exponent field by itself. -/
def ofRatio (negative : Bool) (r : Ratio) : Binary64 :=
  if r.num = 0 then zero negative else
    let unit : Int := max (r.floorLog 2 - 52) (-1074)
    let code := (unit + 1074).toNat * leadingBit + (r.timesPow 2 (-unit)).round
    if code < 2047 * leadingBit then ofCode negative code else infinity negative

def ofNat (n : Nat) : Binary64 := ofRatio false (.ofNat n)

def ofInt : Int → Binary64
  | .ofNat n => ofNat n
  | .negSucc n => ofRatio true (.ofNat (n + 1))

def neg (x : Binary64) : Binary64 := ⟨x.bits ^^^ 0x8000000000000000⟩

/-- A single-precision pattern widened exactly. A signalling NaN becomes quiet. -/
def ofBinary32 (single : UInt32) : Binary64 :=
  let sign := single.toNat / 0x80000000 == 1
  let exponent : Nat := single.toNat / 0x800000 % 256
  let fraction : Nat := single.toNat % 0x800000
  if exponent = 255 then
    if fraction = 0 then infinity sign
    else ofCode sign (2047 * leadingBit + leadingBit / 2 + fraction % 0x400000 * 0x20000000)
  else if exponent = 0 then ofRatio sign ((Ratio.ofNat fraction).timesPow 2 (-149))
  else ofRatio sign ((Ratio.ofNat (0x800000 + fraction)).timesPow 2 ((exponent : Int) - 150))

end Binary64
end Printf
