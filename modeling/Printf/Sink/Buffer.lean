import Printf.Sink
import Printf.Text.Utf8

/-! Sinks over memory. A bounded buffer refuses bytes once it is full; a truncating one drops them
and goes on counting; a counter stores nothing. -/
namespace Printf

structure Buffer where
  memory : Array UInt8
  used : Nat
  used_le : used ≤ memory.size

namespace Buffer

def ofMemory (memory : Array UInt8) : Buffer := ⟨memory, 0, Nat.zero_le _⟩

def zeroed (capacity : Nat) : Buffer := ofMemory (Array.replicate capacity 0)

def capacity (b : Buffer) : Nat := b.memory.size
def remaining (b : Buffer) : Nat := b.memory.size - b.used
def isEmpty (b : Buffer) : Bool := b.used == 0

def bytes (b : Buffer) : Bytes := b.memory.toList.take b.used

def text (b : Buffer) : Bytes := untilNul b.bytes

/-- The text as characters, empty if it is no UTF-8. -/
def string (b : Buffer) : String := (Utf8.text? b.text).getD ""

/-- Forgets the accepted bytes; the memory keeps them. -/
def clear (b : Buffer) : Buffer := { b with used := 0, used_le := Nat.zero_le _ }

def put (b : Buffer) (x : UInt8) : Bool × Buffer :=
  match b with
  | ⟨memory, used, _⟩ =>
    if h : used < memory.size then
      (true, ⟨memory.set used x, used + 1, by simp only [Array.size_set]; omega⟩)
    else (false, ⟨memory, used, by assumption⟩)

end Buffer

/-- A buffer refuses a byte, and does not change, once its memory is used up. -/
def Sink.bounded : Sink Buffer where
  put := Buffer.put

/-- Memory that keeps what fits, and the number of bytes offered, which like all sizes is taken to stay
within a word of 64 bits. -/
structure TruncatingBuffer where
  memory : Array UInt8
  cursor : Nat
  total : Nat
  cursor_eq : cursor = min total memory.size
  deriving DecidableEq, Repr

namespace TruncatingBuffer

def ofMemory (memory : Array UInt8) : TruncatingBuffer := ⟨memory, 0, 0, (Nat.zero_min _).symm⟩

def truncated (b : TruncatingBuffer) : Bool := b.memory.size < b.total

def put (b : TruncatingBuffer) (x : UInt8) : TruncatingBuffer :=
  match b with
  | ⟨memory, cursor, total, _⟩ =>
    if h : cursor < memory.size then
      ⟨memory.set cursor x, cursor + 1, total + 1, by simp only [Array.size_set]; omega⟩
    else ⟨memory, cursor, total + 1, by omega⟩

/-- Writes a byte into up to `n` places from `i` on, as far as there is memory. -/
def paint (x : UInt8) : Nat → Array UInt8 → Nat → Array UInt8
  | 0, memory, _ => memory
  | n + 1, memory, i =>
    if i < memory.size then paint x n (memory.setIfInBounds i x) (i + 1) else memory

theorem size_paint (x : UInt8) (n : Nat) (memory : Array UInt8) (i : Nat) :
    (paint x n memory i).size = memory.size := by
  induction n generalizing memory i with
  | zero => rfl
  | succ n ih =>
    rw [paint]
    split
    · rw [ih, Array.size_setIfInBounds]
    · rfl

def fill (b : TruncatingBuffer) (n : Nat) (x : UInt8) : TruncatingBuffer :=
  match b with
  | ⟨memory, cursor, total, _⟩ =>
    ⟨paint x n memory cursor, cursor + min n (memory.size - cursor), total + n, by
      rw [size_paint]; omega⟩

/-- Ends a truncated text with a NUL in the last place. -/
def finish (b : TruncatingBuffer) : Array UInt8 :=
  if b.truncated then b.memory.setIfInBounds (b.memory.size - 1) 0 else b.memory

theorem paint_of_size_le (x : UInt8) (n : Nat) (memory : Array UInt8) (i : Nat)
    (full : memory.size ≤ i) : paint x n memory i = memory := by
  cases n with
  | zero => rfl
  | succ n => simp [paint, Nat.not_lt.mpr full]

/-- A buffer is its memory and its total. -/
theorem ext {b b' : TruncatingBuffer} (memory : b.memory = b'.memory) (total : b.total = b'.total) :
    b = b' := by
  obtain ⟨_, _, _, rfl⟩ := b
  obtain ⟨_, _, _, rfl⟩ := b'
  cases memory
  cases total
  rfl

theorem put_total (b : TruncatingBuffer) (x : UInt8) : (b.put x).total = b.total + 1 := by
  obtain ⟨memory, cursor, total, _⟩ := b
  rw [put]
  split <;> rfl

/-- A byte goes to the place of its number, if there is one. -/
theorem put_memory (b : TruncatingBuffer) (x : UInt8) :
    (b.put x).memory = b.memory.setIfInBounds b.total x := by
  obtain ⟨memory, cursor, total, place⟩ := b
  rw [put]
  split
  · next inside =>
    obtain rfl : cursor = total := by omega
    simp only [Array.setIfInBounds, inside, dite_true]
  · next outside =>
    have full : memory.size ≤ total := by omega
    exact (Array.setIfInBounds_eq_of_size_le full).symm

theorem fill_memory (b : TruncatingBuffer) (n : Nat) (x : UInt8) :
    (b.fill n x).memory = paint x n b.memory b.total := by
  obtain ⟨memory, cursor, total, place⟩ := b
  by_cases inside : total < memory.size
  · obtain rfl : cursor = total := by omega
    rfl
  · rw [paint_of_size_le _ _ _ _ (Nat.not_lt.mp inside)]
    exact paint_of_size_le _ _ _ _ (by omega)

theorem offerMany_put (x : UInt8) (n k : Nat) (b : TruncatingBuffer) :
    offerMany (fun b x => (true, put b x)) x n k b = (k + n, fill b n x) := by
  induction n generalizing k b with
  | zero => exact congrArg _ (ext rfl rfl)
  | succ n ih =>
    rw [offerMany]
    dsimp only
    rw [ih, Nat.add_right_comm, Nat.add_assoc]
    refine congrArg _ (ext ?_ ?_)
    · rw [fill_memory, fill_memory, put_total, put_memory, paint]
      split
      · rfl
      · next outside =>
        have full := Nat.not_lt.mp outside
        rw [Array.setIfInBounds_eq_of_size_le full, paint_of_size_le _ _ _ _ (by omega)]
    · have counted : (b.put x).total + n = b.total + (n + 1) := by rw [put_total]; omega
      exact counted

end TruncatingBuffer

def Sink.truncating : Sink TruncatingBuffer where
  put b x := (true, b.put x)
  fill b n x := (n, b.fill n x)
  fill_eq b n x := by simp [TruncatingBuffer.offerMany_put]

theorem offerMany_count (x : UInt8) (n k count : Nat) :
    offerMany (fun (c : Nat) (_ : UInt8) => (true, c + 1)) x n k count = (k + n, count + n) := by
  induction n generalizing k count with
  | zero => rfl
  | succ n ih => simp only [offerMany, ih, Prod.mk.injEq]; omega

/-- A sink that only counts, in a word of 64 bits that is taken to be wide enough. -/
def Sink.counter : Sink Nat where
  put count _ := (true, count + 1)
  fill count n _ := (n, count + n)
  fill_eq count n x := by simp [offerMany_count]

end Printf
