/-! Runs of decimal digits in front of a text. -/
namespace Printf.Text

def isDecimal (c : Char) : Bool := '0' ≤ c && c ≤ '9'

def decimalValue (c : Char) : Nat := c.toNat - 48

def spanDigits (cs : List Char) : List Nat × List Char :=
  ((cs.takeWhile isDecimal).map decimalValue, cs.dropWhile isDecimal)

end Printf.Text
