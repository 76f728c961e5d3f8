import Printf.Output
import Printf.Radix

/-! A plain decimal text `I[.D][e[-]K]` brought into the layout of a conversion, one byte at a
time. Fraction zeros that may turn out to be trailing, and the point before them, are held back
until a digit follows them. The exponent is collected and written at the end. -/
namespace Printf.Reshape

structure Options where
  /-- Drop trailing zeros of the fraction, and the point if nothing follows it. -/
  strip : Bool
  /-- Keep a point even with no fraction. -/
  point : Bool
  /-- The letter that introduces the exponent, if one is written. -/
  marker : Option UInt8
  /-- Further zeros of the fraction. -/
  tail : Nat
  deriving DecidableEq, Repr

structure State where
  seenPoint : Bool := false
  heldPoint : Bool := false
  heldZeros : Nat := 0
  inExponent : Bool := false
  exponentNegative : Bool := false
  exponent : Nat := 0
  deriving DecidableEq, Repr

/-- What was held back, once a digit shows that it counts. -/
def State.held (s : State) : Output :=
  [.text (if s.heldPoint then [byte '.'] else []), .fill s.heldZeros (byte '0')]

/-- The end of the mantissa: held zeros are dropped, the forced point and the tail are written. -/
def endMantissa (o : Options) (s : State) : Output :=
  [.text (if o.point && !s.seenPoint then [byte '.'] else []), .fill o.tail (byte '0')]

def feed (o : Options) (s : State) (b : UInt8) : Output × State :=
  if s.inExponent then
    if b = byte '-' then ([], { s with exponentNegative := true })
    else if isDigit b then ([], { s with exponent := s.exponent * 10 + digitOf b })
    else ([], s)
  else if b = byte 'e' ∨ b = byte 'E' then
    (endMantissa o s, { s with inExponent := true, heldPoint := false, heldZeros := 0 })
  else if b = byte '.' then
    if o.strip then ([], { s with seenPoint := true, heldPoint := true })
    else ([.text [b]], { s with seenPoint := true })
  else if b = byte '0' ∧ o.strip ∧ s.seenPoint then ([], { s with heldZeros := s.heldZeros + 1 })
  else (s.held ++ [.text [b]], { s with heldPoint := false, heldZeros := 0 })

def feedAll (o : Options) : State → Bytes → Output × State
  | s, [] => ([], s)
  | s, b :: bs =>
    let (now, s) := feed o s b
    let (later, s) := feedAll o s bs
    (now ++ later, s)

/-- Closes the text. An exponent has a sign and at least two digits. -/
def finish (o : Options) (s : State) : Output :=
  (if s.inExponent then [] else endMantissa o s) ++
    match o.marker with
    | none => []
    | some marker =>
      [.text ([marker, if s.exponentNegative then byte '-' else byte '+'] ++
        (if s.exponent < 10 then [byte '0'] else []) ++ Radix.decimal s.exponent)]

def reshape (o : Options) (plain : Bytes) : Output :=
  let (out, s) := feedAll o {} plain
  out ++ finish o s

/-- A text may arrive in pieces. -/
theorem feedAll_append (o : Options) (s : State) (a b : Bytes) :
    feedAll o s (a ++ b) =
      ((feedAll o s a).1 ++ (feedAll o (feedAll o s a).2 b).1,
        (feedAll o (feedAll o s a).2 b).2) := by
  induction a generalizing s with
  | nil => simp [feedAll]
  | cons x a ih => simp [feedAll, ih]

end Printf.Reshape
