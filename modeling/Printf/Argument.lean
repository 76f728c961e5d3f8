import Printf.Bytes
import Printf.Binary64
import Printf.Directive

/-! Typed arguments and the cursor that hands them out. A look at the next argument takes its slot
whether or not its kind is the wanted one; an exhausted cursor stays where it is. -/
namespace Printf

/-- A count argument names its cell by number, so that several may share one. -/
inductive Arg where
  | int (v : Int64)
  | uint (v : UInt64)
  | char (c : UInt8)
  | float (x : Binary64)
  | str (text : Bytes)
  | ptr (address : UInt64)
  | count (cell : Nat)
  deriving DecidableEq, Repr

namespace Arg

def ofBool (b : Bool) : Arg := .int (if b then 1 else 0)

/-- Only the low byte of a code point is kept. -/
def ofChar (c : Char) : Arg := .char c.toNat.toUInt8

def ofSingle (bits : UInt32) : Arg := .float (.ofBinary32 bits)

/-- A text that ends at its first NUL. -/
def ofTerminated (text : Bytes) : Arg := .str (untilNul text)

def bits? : Arg → Option UInt64
  | .int v => some v.toUInt64
  | .uint v => some v
  | .char c => some c.toUInt64
  | .ptr a => some a
  | .float _ | .str _ | .count _ => none

/-- The signed integer in the low bits that a length selects. -/
def signed? (length : Length) (a : Arg) : Option Int :=
  a.bits?.map fun raw => (raw.toNat : Int).bmod (Nat.pow 2 length.bits)

def unsigned? (length : Length) (a : Arg) : Option Nat :=
  a.bits?.map fun raw => raw.toNat % Nat.pow 2 length.bits

def pointer? (a : Arg) : Option Nat := a.bits?.map UInt64.toNat

/-- A float, or the nearest double of a signed or unsigned integer. -/
def float? : Arg → Option Binary64
  | .float x => some x
  | .int v => some (.ofInt v.toInt)
  | .uint v => some (.ofNat v.toNat)
  | .char _ | .str _ | .ptr _ | .count _ => none

def str? : Arg → Option Bytes
  | .str text => some text
  | _ => none

def cell? : Arg → Option Nat
  | .count cell => some cell
  | _ => none

end Arg

/-- The arguments still to come and the number of those already taken. -/
structure Cursor where
  rest : List Arg
  position : Nat := 0
  deriving DecidableEq, Repr

namespace Cursor

def ofList (args : List Arg) : Cursor := ⟨args, 0⟩

def remaining (c : Cursor) : Nat := c.rest.length

def next (c : Cursor) : Option Arg × Cursor :=
  match c.rest with
  | [] => (none, c)
  | a :: rest => (some a, ⟨rest, c.position + 1⟩)

/-- Looks at the next argument in one way; its slot is taken also when the look fails. -/
def take (look : Arg → Option α) (c : Cursor) : Option α × Cursor :=
  (c.next.1.bind look, c.next.2)

/-- The cursor `n` slots further on, or at the end. -/
def skip (c : Cursor) (n : Nat) : Cursor := ⟨c.rest.drop n, c.position + min n c.rest.length⟩

theorem next_snd (c : Cursor) : c.next.2 = c.skip 1 := by
  obtain ⟨rest, position⟩ := c
  cases rest with
  | nil => simp [next, skip]
  | cons a rest =>
    have one : min 1 (rest.length + 1) = 1 := by omega
    show Cursor.mk rest (position + 1) = ⟨rest, position + min 1 (rest.length + 1)⟩
    rw [one]

theorem next_fst (c : Cursor) : c.next.1 = c.rest[0]? := by
  obtain ⟨rest, position⟩ := c
  cases rest <;> rfl

@[simp] theorem skip_rest (c : Cursor) (n : Nat) : (c.skip n).rest = c.rest.drop n := rfl

@[simp] theorem skip_zero (c : Cursor) : c.skip 0 = c := by simp [skip]

theorem skip_skip (c : Cursor) (m n : Nat) : (c.skip m).skip n = c.skip (m + n) := by
  simp only [skip, List.drop_drop, List.length_drop, Cursor.mk.injEq, true_and]
  omega

theorem ofList_skip (args : List Arg) (n : Nat) :
    (ofList args).skip n = ⟨args.drop n, min n args.length⟩ := by simp [ofList, skip]

/-- Which slots are taken does not depend on what the look accepts. -/
@[simp] theorem take_snd (look : Arg → Option α) (c : Cursor) : (c.take look).2 = c.skip 1 :=
  next_snd c

end Cursor
end Printf
