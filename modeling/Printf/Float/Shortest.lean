import Printf.Binary64
import Printf.Float.Decimal

/-! The fewest decimal digits that read back as the same double. For one digit, two digits and so
on, the two decimals next to the number are tried, the nearer first. -/
namespace Printf.Shortest

def readsBack (x : Binary64) (digits : Nat) (exponent : Int) : Bool :=
  Binary64.ofRatio x.negative ((Ratio.ofNat digits).timesPow 10 exponent) == x

/-- The decimal with `places + 1` digits next to the magnitude that reads back, the nearer one if
both do, with the exponent of its last digit. -/
def withPlaces? (x : Binary64) (places : Nat) : Option (Nat × Int) :=
  let exponent := x.magnitude.floorLog 10 - places
  let scaled := x.magnitude.timesPow 10 (-exponent)
  let near := scaled.round
  let far := 2 * (scaled.num / scaled.den) + 1 - near
  if readsBack x near exponent then some (near, exponent)
  else if readsBack x far exponent then some (far, exponent)
  else none

/-- The shortest decimal of a finite double that is not zero. Seventeen digits are always enough. -/
def decimal (x : Binary64) : Nat × Int :=
  ((List.range 17).findSome? (withPlaces? x)).getD (x.significand, x.scale)

/-- The digits without zeros at the end, and the exponent of the first one. -/
def digits (x : Binary64) : List Nat × Int :=
  if x.isZero then ([0], 0) else
    let (n, exponent) := decimal x
    let ds := Radix.significant 10 n
    ((ds.reverse.dropWhile (· == 0)).reverse, exponent + ds.length - 1)

/-- Positional texts are written for first-digit exponents from this one … -/
def leastPositional : Int := -5

/-- … to this one. -/
def greatestPositional : Int := 15

/-- The text of a finite double: positional with at least one decimal, or with an exponent. -/
def text (x : Binary64) : List Char :=
  let (ds, exponent) := digits x
  let chars := ds.map Radix.digitChar
  (if x.negative then ['-'] else []) ++
  if leastPositional ≤ exponent ∧ exponent ≤ greatestPositional then
    if exponent < 0 then
      "0.".toList ++ List.replicate (-exponent - 1).toNat '0' ++ chars
    else
      let whole := exponent.toNat + 1
      if chars.length ≤ whole then
        chars ++ List.replicate (whole - chars.length) '0' ++ ".0".toList
      else chars.take whole ++ '.' :: chars.drop whole
  else
    chars.take 1 ++ (if chars.length ≤ 1 then [] else '.' :: chars.drop 1) ++
      ['e', if exponent < 0 then '-' else '+'] ++
      (Radix.numeral 10 exponent.natAbs).map Radix.digitChar

end Printf.Shortest
