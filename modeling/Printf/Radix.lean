import Printf.Bytes

/-! Numbers in a base, as digits with the highest first. `significant` has no leading zero, so that
zero has no digit at all; `value` reads any digits back. -/
namespace Printf.Radix

/-- The digits of `n` in base `b` without leading zeros. -/
def significant (b n : Nat) : List Nat :=
  if _h : 2 ≤ b ∧ 0 < n then significant b (n / b) ++ [n % b] else []
termination_by n
decreasing_by exact Nat.div_lt_self _h.2 _h.1

def size (b n : Nat) : Nat :=
  if _h : 2 ≤ b ∧ 0 < n then size b (n / b) + 1 else 0
termination_by n
decreasing_by exact Nat.div_lt_self _h.2 _h.1

def value (b : Nat) (ds : List Nat) : Nat := ds.foldl (fun v d => v * b + d) 0

@[simp] theorem significant_zero (b : Nat) : significant b 0 = [] := by
  rw [significant]; simp

theorem length_significant (b n : Nat) : (significant b n).length = size b n := by
  induction n using Nat.strongRecOn with
  | ind n ih =>
    rw [significant, size]
    split
    · next h => simp [ih _ (Nat.div_lt_self h.2 h.1)]
    · rfl

@[simp] theorem value_append_single (b : Nat) (ds : List Nat) (d : Nat) :
    value b (ds ++ [d]) = value b ds * b + d := by simp [value]

/-- Reading the digits back loses nothing. -/
theorem value_significant (b n : Nat) (base : 2 ≤ b) : value b (significant b n) = n := by
  induction n using Nat.strongRecOn with
  | ind n ih =>
    rw [significant]
    split
    · next h =>
      rw [value_append_single, ih _ (Nat.div_lt_self h.2 h.1)]
      exact Nat.div_add_mod' n b
    · next h =>
      have : n = 0 := by omega
      simp [this, value]

theorem significant_lt (b n : Nat) : ∀ d ∈ significant b n, d < b := by
  induction n using Nat.strongRecOn with
  | ind n ih =>
    rw [significant]
    split
    · next h =>
      intro d member
      rcases List.mem_append.mp member with member | member
      · exact ih _ (Nat.div_lt_self h.2 h.1) d member
      · simp only [List.mem_singleton] at member
        exact member ▸ Nat.mod_lt _ (by omega)
    · simp

def digitByte (upper : Bool) (d : Nat) : UInt8 :=
  if d < 10 then (48 + d).toUInt8 else ((if upper then 55 else 87) + d).toUInt8

/-- The digits of `n`; zero is the one digit 0. -/
def numeral (b n : Nat) : List Nat := if n = 0 then [0] else significant b n

def text (b : Nat) (upper : Bool) (n : Nat) : Bytes := (numeral b n).map (digitByte upper)

def decimal (n : Nat) : Bytes := text 10 false n

/-- The last `width` digits of a number in base `b`, zeros in front. -/
def lastDigits (b : Nat) : Nat → Nat → List Nat
  | 0, _ => []
  | width + 1, n => lastDigits b width (n / b) ++ [n % b]

@[simp] theorem length_lastDigits (b width n : Nat) : (lastDigits b width n).length = width := by
  induction width generalizing n with
  | zero => rfl
  | succ width ih => simp [lastDigits, ih]

theorem value_lastDigits (b width n : Nat) : value b (lastDigits b width n) = n % b.pow width := by
  induction width generalizing n with
  | zero => simp [lastDigits, value, Nat.mod_one]
  | succ width ih =>
    rw [lastDigits, value_append_single, ih, Nat.pow_eq, Nat.pow_eq, Nat.pow_succ,
      Nat.mul_comm (b ^ width) b, Nat.mod_mul, Nat.mul_comm b, Nat.add_comm]

def digitChar (d : Nat) : Char := Char.ofNat (if d < 10 then 48 + d else 87 + d)

def decimalText (n : Nat) : String := String.ofList ((numeral 10 n).map digitChar)

def paddedText (width n : Nat) : String :=
  String.ofList ((List.replicate (width - (numeral 10 n).length) 0 ++ numeral 10 n).map digitChar)

def integerText : Int → String
  | .ofNat n => decimalText n
  | .negSucc n => "-" ++ decimalText (n + 1)

end Printf.Radix
