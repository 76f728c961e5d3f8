import Printf.Script

/-! Destinations that take one byte at a time and may refuse it. A run plays a script on a sink,
counts the bytes accepted and stops at the first one refused; a refusal may still change the
sink. -/
namespace Printf

/-- Offers a byte `n` times or until it is refused; returns how often it was accepted, on top of
`k`. -/
def offerMany (put : σ → UInt8 → Bool × σ) (b : UInt8) : Nat → Nat → σ → Nat × σ
  | 0, k, s => (k, s)
  | n + 1, k, s =>
    match put s b with
    | (true, s) => offerMany put b n (k + 1) s
    | (false, s) => (k, s)

/-- A destination over states `σ`. The answer to `put` and `terminate` is whether they succeed. -/
structure Sink (σ : Type) where
  put : σ → UInt8 → Bool × σ
  /-- Called once behind a complete output. -/
  terminate : σ → Bool × σ := fun s => put s 0
  /-- The same byte many times. -/
  fill : σ → Nat → UInt8 → Nat × σ := fun s n b => offerMany put b n 0 s
  fill_eq : ∀ s n b, fill s n b = offerMany put b n 0 s := by intros; rfl

/-- A sink whose terminator is not written. It still counts. -/
def Sink.unterminated (S : Sink σ) : Sink σ := { S with terminate := fun s => (true, s) }

/-- A sink in use: the bytes it has accepted in this run and the cells for recorded counts. Counts are
natural numbers, for words of 64 bits that no output is long enough to exceed. -/
structure Run (σ : Type) where
  sink : σ
  written : Nat
  cells : List Nat

namespace Run

/-- Offers bytes in order. The first component tells whether all were accepted. -/
def putAll (S : Sink σ) : Bytes → Run σ → Bool × Run σ
  | [], r => (true, r)
  | b :: bs, r =>
    match S.put r.sink b with
    | (true, s) => putAll S bs { r with sink := s, written := r.written + 1 }
    | (false, s) => (false, { r with sink := s })

def putMany (S : Sink σ) (n : Nat) (b : UInt8) (r : Run σ) : Bool × Run σ :=
  let (k, s) := S.fill r.sink n b
  (k == n, { r with sink := s, written := r.written + k })

def perform (S : Sink σ) (r : Run σ) : Step → Bool × Run σ
  | .emit (.text bytes) => r.putAll S bytes
  | .emit (.fill n b) => r.putMany S n b
  | .record cell => (true, { r with cells := r.cells.set cell r.written })

def play (S : Sink σ) : List Step → Run σ → Bool × Run σ
  | [], r => (true, r)
  | step :: steps, r =>
    match r.perform S step with
    | (true, r) => play S steps r
    | (false, r) => (false, r)

/-- Ends a complete output; the terminator counts if it is accepted. -/
def close (S : Sink σ) (r : Run σ) : Run σ :=
  match S.terminate r.sink with
  | (true, s) => { r with sink := s, written := r.written + 1 }
  | (false, s) => { r with sink := s }

end Run

/-- Formats into a sink. The count of the result includes the terminator. -/
def formatTo (S : Sink σ) (features : Features) (fmt : Bytes) (args : List Arg) (sink : σ)
    (cells : List Nat) : Run σ :=
  match Run.play S (script features fmt args) ⟨sink, 0, cells⟩ with
  | (true, r) => r.close S
  | (false, r) => r

end Printf
