import Printf.Binary64
import Printf.Text.Digits

/-! Decimal texts read as the nearest double. Words for infinity and for a NaN are read in any
case; a text needs at least one digit, before or behind the point. -/
namespace Printf.Reading

open Text (spanDigits)

/-- The sign in front of a text; `true` stands for minus. -/
def splitSign : List Char → Bool × List Char
  | '-' :: cs => (true, cs)
  | '+' :: cs => (false, cs)
  | cs => (false, cs)

def splitFraction : List Char → List Nat × List Char
  | '.' :: cs => spanDigits cs
  | cs => ([], cs)

/-- The exponent that a text consists of; none is zero. -/
def exponent? : List Char → Option Int
  | [] => some 0
  | mark :: cs =>
    if mark = 'e' ∨ mark = 'E' then
      let (negative, cs) := splitSign cs
      match spanDigits cs with
      | (d :: ds, []) =>
        let magnitude : Int := Radix.value 10 (d :: ds)
        some (if negative then -magnitude else magnitude)
      | _ => none
    else none

/-- The double nearest to `digits · 10 ^ exponent`. Exponents that are out of all bounds are
settled first, so that no huge power is formed. -/
def nearest (negative : Bool) (digits : List Nat) (exponent : Int) : Binary64 :=
  let n := Radix.value 10 digits
  let size : Int := Radix.size 10 n
  if n = 0 ∨ size + exponent < -330 then .zero negative
  else if 330 < size + exponent then .infinity negative
  else .ofRatio negative ((Ratio.ofNat n).timesPow 10 exponent)

def number? (negative : Bool) (cs : List Char) : Option Binary64 :=
  let (whole, cs) := spanDigits cs
  let (fraction, cs) := splitFraction cs
  if whole = [] ∧ fraction = [] then none
  else (exponent? cs).map fun e => nearest negative (whole ++ fraction) (e - fraction.length)

def read? (cs : List Char) : Option Binary64 :=
  let (negative, cs) := splitSign cs
  let word := cs.map Char.toLower
  if word = "inf".toList ∨ word = "infinity".toList then some (.infinity negative)
  else if word = "nan".toList then some (.nan negative)
  else number? negative cs

end Printf.Reading
