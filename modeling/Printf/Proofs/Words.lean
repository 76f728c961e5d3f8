import Printf.Proofs.Digits

/-! Arithmetic in machine words. Every operation is checked, so that one that would wrap, shift by a
whole word or leave its buffer is a fault in place of a result. A renderer written with these
operations gives a text only if none of them goes wrong. -/
namespace Printf.Machine

inductive Fault where
  /-- A result that its word cannot hold. -/
  | overflow
  /-- A shift by as many bits as the word has, or more. -/
  | shift
  /-- A place outside of a buffer. -/
  | bounds
  deriving DecidableEq, Repr

abbrev Checked := Except Fault

def fit (bits n : Nat) : Checked Nat := if n < 2 ^ bits then .ok n else .error .overflow

def add (bits a b : Nat) : Checked Nat := fit bits (a + b)

def mul (bits a b : Nat) : Checked Nat := fit bits (a * b)

def sub (a b : Nat) : Checked Nat := if b ≤ a then .ok (a - b) else .error .overflow

/-- The bits that leave the word are lost, which is no fault. -/
def shiftLeft (bits n k : Nat) : Checked Nat :=
  if k < bits then .ok ((n <<< k) % 2 ^ bits) else .error .shift

def shiftRight (bits n k : Nat) : Checked Nat := if k < bits then .ok (n >>> k) else .error .shift

def sum (bits : Nat) : List Nat → Checked Nat
  | [] => .ok 0
  | n :: ns => ns.foldlM (add bits) n

def fitSigned (bits : Nat) (z : Int) : Checked Int :=
  if -2 ^ (bits - 1) ≤ z ∧ z < 2 ^ (bits - 1) then .ok z else .error .overflow

def fitUnsigned (bits : Nat) (z : Int) : Checked Nat :=
  if 0 ≤ z then fit bits z.toNat else .error .overflow

def fitByte (n : Nat) : Checked UInt8 := if n < 256 then .ok n.toUInt8 else .error .overflow

def store (buffer : Bytes) (i : Nat) (b : UInt8) : Checked Bytes :=
  if i < buffer.length then .ok (buffer.set i b) else .error .bounds

def behind (buffer : Bytes) (i : Nat) : Checked Bytes :=
  if i ≤ buffer.length then .ok (buffer.drop i) else .error .bounds

def inFrontOf (buffer : Bytes) (i : Nat) : Checked Bytes :=
  if i ≤ buffer.length then .ok (buffer.take i) else .error .bounds

@[simp] theorem ok_bind (a : α) (f : α → Checked β) : (Except.ok a >>= f) = f a := rfl

theorem fit_ok {bits n : Nat} (small : n < 2 ^ bits) : fit bits n = .ok n := if_pos small

theorem add_ok {bits a b : Nat} (small : a + b < 2 ^ bits) : add bits a b = .ok (a + b) :=
  fit_ok small

theorem mul_ok {bits a b : Nat} (small : a * b < 2 ^ bits) : mul bits a b = .ok (a * b) :=
  fit_ok small

theorem sub_ok {a b : Nat} (le : b ≤ a) : sub a b = .ok (a - b) := if_pos le

theorem fitByte_ok {n : Nat} (small : n < 256) : fitByte n = .ok n.toUInt8 := if_pos small

theorem behind_ok {buffer : Bytes} {i : Nat} (inside : i ≤ buffer.length) :
    behind buffer i = .ok (buffer.drop i) := if_pos inside

theorem inFrontOf_ok {buffer : Bytes} {i : Nat} (inside : i ≤ buffer.length) :
    inFrontOf buffer i = .ok (buffer.take i) := if_pos inside

theorem store_ok {buffer : Bytes} {i : Nat} (b : UInt8) (inside : i < buffer.length) :
    store buffer i b = .ok (buffer.set i b) := if_pos inside

/-- A shift to the right divides. -/
theorem shiftRight_ok {bits k : Nat} (inside : k < bits) (n : Nat) :
    shiftRight bits n k = .ok (n / 2 ^ k) := by
  rw [shiftRight, if_pos inside, Nat.shiftRight_eq_div_pow]

/-- A single bit stays in its word. -/
theorem shiftLeft_one {bits k : Nat} (inside : k < bits) : shiftLeft bits 1 k = .ok (2 ^ k) := by
  have stays : 2 ^ k < 2 ^ bits := Nat.pow_lt_pow_right (by decide) inside
  rw [shiftLeft, if_pos inside, Nat.one_shiftLeft, Nat.mod_eq_of_lt stays]

theorem fitSigned_ok {bits : Nat} {z : Int} (low : -2 ^ (bits - 1) ≤ z)
    (high : z < 2 ^ (bits - 1)) : fitSigned bits z = .ok z := if_pos ⟨low, high⟩

theorem fitUnsigned_ok {bits : Nat} {z : Int} (positive : 0 ≤ z) (small : z.toNat < 2 ^ bits) :
    fitUnsigned bits z = .ok z.toNat := (if_pos positive).trans (fit_ok small)

theorem foldlM_add_ok {bits : Nat} {ns : List Nat} {n : Nat} (small : n + ns.sum < 2 ^ bits) :
    ns.foldlM (add bits) n = .ok (n + ns.sum) := by
  induction ns generalizing n with
  | nil => rfl
  | cons m ns ih =>
    rw [List.sum_cons, ← Nat.add_assoc] at small ⊢
    rw [List.foldlM_cons, add_ok (by omega), ok_bind, ih small]

/-- A sum that fits its word is computed without a fault, as all sums on the way to it fit. -/
theorem sum_ok {bits : Nat} {ns : List Nat} (small : ns.sum < 2 ^ bits) :
    sum bits ns = .ok ns.sum := by
  cases ns with
  | nil => rfl
  | cons n ns => exact foldlM_add_ok small

end Printf.Machine
