import Printf.Radix

/-! The SHA-256 digest. A message is padded to whole blocks of 64 bytes, which are absorbed into a
state of eight words one after another. -/
namespace Printf.Sha256

/-- The fractions of the cube roots of the first 64 primes. -/
def constants : Vector UInt32 64 :=
  ⟨#[0x428a2f98, 0x71374491, 0xb5c0fbcf, 0xe9b5dba5, 0x3956c25b, 0x59f111f1, 0x923f82a4,
     0xab1c5ed5, 0xd807aa98, 0x12835b01, 0x243185be, 0x550c7dc3, 0x72be5d74, 0x80deb1fe,
     0x9bdc06a7, 0xc19bf174, 0xe49b69c1, 0xefbe4786, 0x0fc19dc6, 0x240ca1cc, 0x2de92c6f,
     0x4a7484aa, 0x5cb0a9dc, 0x76f988da, 0x983e5152, 0xa831c66d, 0xb00327c8, 0xbf597fc7,
     0xc6e00bf3, 0xd5a79147, 0x06ca6351, 0x14292967, 0x27b70a85, 0x2e1b2138, 0x4d2c6dfc,
     0x53380d13, 0x650a7354, 0x766a0abb, 0x81c2c92e, 0x92722c85, 0xa2bfe8a1, 0xa81a664b,
     0xc24b8b70, 0xc76c51a3, 0xd192e819, 0xd6990624, 0xf40e3585, 0x106aa070, 0x19a4c116,
     0x1e376c08, 0x2748774c, 0x34b0bcb5, 0x391c0cb3, 0x4ed8aa4a, 0x5b9cca4f, 0x682e6ff3,
     0x748f82ee, 0x78a5636f, 0x84c87814, 0x8cc70208, 0x90befffa, 0xa4506ceb, 0xbef9a3f7,
     0xc67178f2],
    rfl⟩

structure State where
  a : UInt32
  b : UInt32
  c : UInt32
  d : UInt32
  e : UInt32
  f : UInt32
  g : UInt32
  h : UInt32

/-- The fractions of the square roots of the first eight primes. -/
def initial : State :=
  ⟨0x6a09e667, 0xbb67ae85, 0x3c6ef372, 0xa54ff53a, 0x510e527f, 0x9b05688c, 0x1f83d9ab, 0x5be0cd19⟩

def State.add (s t : State) : State :=
  ⟨s.a + t.a, s.b + t.b, s.c + t.c, s.d + t.d, s.e + t.e, s.f + t.f, s.g + t.g, s.h + t.h⟩

def State.words (s : State) : List UInt32 := [s.a, s.b, s.c, s.d, s.e, s.f, s.g, s.h]

def rotate (x : UInt32) (n : UInt32) : UInt32 := x >>> n ||| x <<< (32 - n)

def bigEndian : Nat → Nat → Bytes
  | 0, _ => []
  | size + 1, n => bigEndian size (n / 256) ++ [n.toUInt8]

/-- The zeros between the end mark and the length, so that the last block is whole. -/
def paddingZeros (size : Nat) : Nat := (119 - size % 64) % 64

def pad (message : Bytes) : Bytes :=
  message ++ 0x80 :: List.replicate (paddingZeros message.length) 0 ++
    bigEndian 8 (message.length * 8)

def words : Bytes → List UInt32
  | a :: b :: c :: d :: rest =>
    (a.toUInt32 <<< 24 ||| b.toUInt32 <<< 16 ||| c.toUInt32 <<< 8 ||| d.toUInt32) :: words rest
  | _ => []

/-- The first words of the schedule of a block: its own 16, then mixtures of earlier ones. -/
def schedule (block : Vector UInt32 16) : (count : Nat) → Vector UInt32 count
  | 0 => #v[]
  | i + 1 =>
    let w := schedule block i
    w.push <|
      if h : i < 16 then block[i]
      else
        let x := w[i - 15]
        let y := w[i - 2]
        w[i - 16] + (rotate x 7 ^^^ rotate x 18 ^^^ x >>> 3) + w[i - 7] +
          (rotate y 17 ^^^ rotate y 19 ^^^ y >>> 10)

def round (s : State) (k w : UInt32) : State :=
  let t₁ := s.h + (rotate s.e 6 ^^^ rotate s.e 11 ^^^ rotate s.e 25) +
    (s.e &&& s.f ^^^ ~~~s.e &&& s.g) + k + w
  let t₂ := (rotate s.a 2 ^^^ rotate s.a 13 ^^^ rotate s.a 22) +
    (s.a &&& s.b ^^^ s.a &&& s.c ^^^ s.b &&& s.c)
  ⟨t₁ + t₂, s.a, s.b, s.c, s.d + t₁, s.e, s.f, s.g⟩

def absorb (s : State) (block : Vector UInt32 16) : State :=
  let w := schedule block 64
  s.add ((List.finRange 64).foldl (fun s i => round s constants[i] w[i]) s)

def absorbAll (s : State) (ws : List UInt32) : State :=
  if _h : 16 ≤ ws.length then
    absorbAll (absorb s (Vector.ofFn fun i => ws.get ⟨i.val, by omega⟩)) (ws.drop 16)
  else s
termination_by ws.length
decreasing_by simp only [List.length_drop]; omega

def digest (message : Bytes) : Bytes :=
  (absorbAll initial (words (pad message))).words.flatMap fun w => bigEndian 4 w.toNat

def hexDigits (bs : Bytes) : String :=
  String.ofList (bs.flatMap fun b => (Radix.lastDigits 16 2 b.toNat).map Radix.digitChar)

end Printf.Sha256
