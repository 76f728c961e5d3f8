import Printf.Radix

/-! Non-negative fractions and their rounding to a natural number. Ties go to the even neighbour;
every decimal and binary rounding in the library is this one on a scaled fraction. -/
namespace Printf

structure Ratio where
  num : Nat
  den : Nat
  den_pos : 0 < den

namespace Ratio

def ofNat (n : Nat) : Ratio := ⟨n, 1, by decide⟩

class Base (b : Nat) : Prop where
  pos : 0 < b

instance baseTwo : Base 2 := ⟨by decide⟩
instance baseTen : Base 10 := ⟨by decide⟩
instance baseSixteen : Base 16 := ⟨by decide⟩

/-- The fraction times `b ^ k`, for any integer `k`. -/
def timesPow (r : Ratio) (b : Nat) [Base b] : Int → Ratio
  | .ofNat k => ⟨r.num * b.pow k, r.den, r.den_pos⟩
  | .negSucc k => ⟨r.num, r.den * b.pow (k + 1),
      Nat.mul_pos r.den_pos (Nat.pow_pos Base.pos)⟩

def mul (r s : Ratio) : Ratio := ⟨r.num * s.num, r.den * s.den, Nat.mul_pos r.den_pos s.den_pos⟩

/-- The quotient; a zero divisor is left out. -/
def div (r s : Ratio) : Ratio :=
  if h : 0 < s.num then ⟨r.num * s.den, r.den * s.num, Nat.mul_pos r.den_pos h⟩ else r

/-- The nearest natural number; a tie goes to the even one. -/
def round (r : Ratio) : Nat :=
  let whole := r.num / r.den
  let twice := 2 * (r.num % r.den)
  if r.den < twice ∨ (twice = r.den ∧ whole % 2 = 1) then whole + 1 else whole

/-- The integer `k` with `b ^ k ≤ r < b ^ (k + 1)`, for a positive fraction. -/
def floorLog (r : Ratio) (b : Nat) : Int :=
  if r.den ≤ r.num then (Radix.size b (r.num / r.den) : Int) - 1
  else -(Radix.size b ((r.den + r.num - 1) / r.num - 1) : Int)

theorem round_le (r : Ratio) : r.round ≤ r.num / r.den + 1 := by
  unfold round; dsimp only; split <;> omega

end Ratio
end Printf
