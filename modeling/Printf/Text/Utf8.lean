import Printf.Bytes

/-! UTF-8 read from bytes. Where no character can be read, the longest piece that could have begun
one is a broken piece, and reading goes on behind it. -/
namespace Printf.Utf8

/-- What a leading byte promises: the bits it carries, the number of continuation bytes, and the
bounds of the first of them. -/
structure Lead where
  bits : Nat
  following : Nat
  low : UInt8 := 0x80
  high : UInt8 := 0xBF

def lead? (b : UInt8) : Option Lead :=
  if b ≤ 0x7F then some { bits := b.toNat, following := 0 }
  else if b < 0xC2 then none
  else if b ≤ 0xDF then some { bits := b.toNat - 0xC0, following := 1 }
  else if b = 0xE0 then some { bits := 0, following := 2, low := 0xA0 }
  else if b = 0xED then some { bits := 0xD, following := 2, high := 0x9F }
  else if b ≤ 0xEF then some { bits := b.toNat - 0xE0, following := 2 }
  else if b = 0xF0 then some { bits := 0, following := 3, low := 0x90 }
  else if b ≤ 0xF3 then some { bits := b.toNat - 0xF0, following := 3 }
  else if b = 0xF4 then some { bits := 4, following := 3, high := 0x8F }
  else none

def continuation : Nat → Nat → UInt8 → UInt8 → Bytes → Option Nat × Bytes
  | 0, bits, _, _, bs => (some bits, bs)
  | _ + 1, _, _, _, [] => (none, [])
  | n + 1, bits, low, high, b :: bs =>
    if low ≤ b && b ≤ high then continuation n (bits * 64 + (b.toNat - 0x80)) 0x80 0xBF bs
    else (none, b :: bs)

theorem continuation_length (n bits : Nat) (low high : UInt8) (bs : Bytes) :
    (continuation n bits low high bs).2.length ≤ bs.length := by
  induction n generalizing bits low high bs with
  | zero => simp [continuation]
  | succ n ih =>
    cases bs with
    | nil => simp [continuation]
    | cons b bs =>
      rw [continuation]
      split
      · have := ih (bits * 64 + (b.toNat - 0x80)) 0x80 0xBF bs
        simp only [List.length_cons]; omega
      · simp

def character (b : UInt8) (bs : Bytes) : Option Char × Bytes :=
  match lead? b with
  | none => (none, bs)
  | some lead =>
    let (code, rest) := continuation lead.following lead.bits lead.low lead.high bs
    (code.map Char.ofNat, rest)

theorem character_length (b : UInt8) (bs : Bytes) : (character b bs).2.length ≤ bs.length := by
  unfold character
  split
  · simp
  · exact continuation_length _ _ _ _ _

/-- The characters of a byte string, with `none` for each broken piece. -/
def decode (bs : Bytes) : List (Option Char) :=
  match bs with
  | [] => []
  | b :: bs => (character b bs).1 :: decode (character b bs).2
termination_by bs.length
decreasing_by have := character_length b bs; simp only [List.length_cons]; omega

def text? (bs : Bytes) : Option String := ((decode bs).mapM id).map String.ofList

def replacement : Char := '\uFFFD'

def lossyText (bs : Bytes) : String :=
  String.ofList ((decode bs).map (·.getD replacement))

end Printf.Utf8
