import Printf.Bytes

/-! Output as chunks, so that padding of any width has a small description. `toList` is the byte
string a chunk stands for. -/
namespace Printf

inductive Chunk where
  | text (bytes : Bytes)
  | fill (count : Nat) (b : UInt8)
  deriving DecidableEq, Repr

namespace Chunk

def toList : Chunk → Bytes
  | text bytes => bytes
  | fill count b => List.replicate count b

def size : Chunk → Nat
  | text bytes => bytes.length
  | fill count _ => count

@[simp] theorem length_toList (c : Chunk) : c.toList.length = c.size := by
  cases c <;> simp [toList, size]

end Chunk

abbrev Output := List Chunk

namespace Output

def toList (out : Output) : Bytes := out.flatMap Chunk.toList

def size : Output → Nat
  | [] => 0
  | c :: out => c.size + size out

@[simp] theorem toList_nil : toList [] = [] := rfl

@[simp] theorem toList_cons (c : Chunk) (out : Output) :
    toList (c :: out) = c.toList ++ toList out := by simp [toList]

@[simp] theorem toList_append (a b : Output) : toList (a ++ b) = toList a ++ toList b := by
  simp [toList]

@[simp] theorem length_toList (out : Output) : (toList out).length = size out := by
  induction out with
  | nil => rfl
  | cons c out ih => simp [size, ih]

end Output
end Printf
