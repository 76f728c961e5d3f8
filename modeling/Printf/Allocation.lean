/-! Memory asked for at run time. A size that no object can have ends the program. Memory of any other
size is there: a machine that runs out of it is not a part of this. -/
namespace Printf

inductive Panic where
  | capacityOverflow
  deriving DecidableEq, Repr

def Panic.message : Panic → String
  | capacityOverflow => "capacity overflow"

/-- The largest size of an object where sizes are words of 64 bits: half of them are kept free for the
distances between addresses. -/
def largestSize : Nat := Nat.pow 2 63 - 1

def zeroedMemory (size : Nat) : Except Panic (Array UInt8) :=
  if size ≤ largestSize then .ok (Array.replicate size 0) else .error .capacityOverflow

end Printf
