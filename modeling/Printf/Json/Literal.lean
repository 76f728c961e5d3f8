import Printf.Json.Value

/-! Number literals and the numbers they stand for. A literal without fraction and exponent that
fits 64 bits is exact. Any other one is read from the leading digits that fit 64 bits, by one
rounded multiplication or division with a power of ten, so that its last bit can be off. -/
namespace Printf.Json

structure Literal where
  negative : Bool
  whole : List Nat
  fraction : List Nat := []
  exponent : Option Int := none
  deriving DecidableEq, Repr

/-- Appends digits to a number as long as it stays below `2 ^ 64`, and returns those left over. -/
def appendFitting : Nat → List Nat → Nat × List Nat
  | s, [] => (s, [])
  | s, d :: ds => if s * 10 + d < UInt64.size then appendFitting (s * 10 + d) ds else (s, d :: ds)

def greatestPower : Nat := 308

def powerOfTen (k : Nat) : Binary64 := .ofNat (Nat.pow 10 k)

/-- Divides by `10 ^ e`, in several steps if that power is no double. -/
def lowered (x : Binary64) (e : Nat) : Binary64 :=
  let quotient (k : Nat) := Binary64.ofRatio false (x.magnitude.div (powerOfTen k).magnitude)
  if _h : greatestPower < e then
    if x.isZero then x else lowered (quotient greatestPower) (e - greatestPower)
  else quotient e
termination_by e
decreasing_by simp only [greatestPower] at *; omega

def raised? (x : Binary64) (e : Nat) : Option Binary64 :=
  if x.isZero then some x
  else if greatestPower < e then none
  else
    let product := Binary64.ofRatio false (x.magnitude.mul (powerOfTen e).magnitude)
    if product.isFinite then some product else none

def scaled? (s : Nat) : Int → Option Binary64
  | .ofNat e => raised? (.ofNat s) e
  | .negSucc e => some (lowered (.ofNat s) (e + 1))

namespace Literal

/-- An integer of 64 bits; there is no negative zero among them. -/
def integer? (negative : Bool) (s : Nat) : Option Int :=
  if negative then
    if 0 < s ∧ Int64.minValue.toInt ≤ -(s : Int) then some (-(s : Int)) else none
  else some s

def number? (l : Literal) : Option Number :=
  let (s, dropped) := appendFitting 0 l.whole
  let integral? := if dropped = [] ∧ l.fraction = [] ∧ l.exponent = none
    then integer? l.negative s else none
  match integral? with
  | some v => some (.int v)
  | none =>
    let (s, unused) := appendFitting s l.fraction
    let places := l.fraction.length - unused.length
    let magnitude? := scaled? s ((dropped.length : Int) - places + l.exponent.getD 0)
    magnitude?.map fun x => .float (if l.negative then x.neg else x)

end Literal
end Printf.Json
