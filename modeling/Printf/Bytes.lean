/-! Byte strings as lists. A NUL byte ends a format and a text argument before the list does;
no other byte is special here. -/
namespace Printf

abbrev Bytes := List UInt8

def byte (c : Char) : UInt8 := c.toNat.toUInt8

def utf8 (s : String) : Bytes := s.toList.flatMap String.utf8EncodeChar

/-- The bytes in front of the first NUL, or all of them. -/
def untilNul (bs : Bytes) : Bytes := bs.takeWhile (· != 0)

def isDigit (b : UInt8) : Bool := byte '0' ≤ b && b ≤ byte '9'

def digitOf (b : UInt8) : Nat := b.toNat - 48

theorem untilNul_of_not_mem {bs : Bytes} (h : 0 ∉ bs) : untilNul bs = bs := by
  induction bs with
  | nil => rfl
  | cons b bs ih =>
    simp only [List.mem_cons, not_or] at h
    have hb : b ≠ 0 := fun e => h.1 e.symm
    simp only [untilNul, List.takeWhile_cons, bne_iff_ne, ne_eq, hb, not_false_eq_true, ↓reduceIte]
    exact congrArg _ (ih h.2)

end Printf
