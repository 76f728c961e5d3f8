import Printf.Sink

/-! Sinks over a function. A character function answers the character it was given, or an
end-of-file value that no character has. -/
namespace Printf

/-- The answer of a character function that takes no more. -/
def endOfFile : Int := -1

namespace Sink

def ofFunction (put : σ → UInt8 → Bool × σ) : Sink σ where
  put := put

def ofCharacterFunction (putc : Int → σ → Int × σ) : Sink σ where
  put s b := ((putc b.toNat s).1 != endOfFile, (putc b.toNat s).2)

end Sink
end Printf
