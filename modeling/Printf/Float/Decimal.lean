import Printf.Rounding

/-! Decimal texts of a non-negative fraction, correctly rounded: `I[.D]` with a number of places,
and `d[.ddd]e[-]K` with one significant digit in front of the point. -/
namespace Printf.Decimal

/-- A number with one digit in front of the point: `digits` has `places` further ones. -/
structure Scientific where
  digits : Nat
  exponent : Int
  deriving DecidableEq, Repr

/-- Rounds to `places + 1` significant digits. Rounding up to a power of ten has one digit too
many and raises the exponent instead. -/
def scientific (r : Ratio) (places : Nat) : Scientific :=
  if r.num = 0 then ⟨0, 0⟩ else
    let exponent := r.floorLog 10
    let digits := (r.timesPow 10 (places - exponent)).round
    if digits < Nat.pow 10 (places + 1) then ⟨digits, exponent⟩
    else ⟨Nat.pow 10 places, exponent + 1⟩

def pointed (n places : Nat) : Bytes :=
  Radix.decimal (n / Nat.pow 10 places) ++
    if places = 0 then []
    else byte '.' :: (Radix.lastDigits 10 places n).map (Radix.digitByte false)

def fixedText (r : Ratio) (places : Nat) : Bytes := pointed (r.timesPow 10 places).round places

def scientificText (r : Ratio) (places : Nat) : Bytes :=
  let s := scientific r places
  pointed s.digits places ++ byte 'e' :: (if s.exponent < 0 then [byte '-'] else []) ++
    Radix.decimal s.exponent.natAbs

end Printf.Decimal
