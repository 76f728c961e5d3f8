import Printf.Sink.Buffer

/-! Formatting into memory. The result counts the complete output with its NUL, also where the
memory is too small for it. -/
namespace Printf

structure Written where
  returned : Nat
  memory : Array UInt8
  cells : List Nat
  deriving DecidableEq, Repr

/-- Formats into memory. Output that does not fit is cut off, with a NUL in the last place. -/
def formatToBuffer (features : Features) (memory : Array UInt8) (fmt : Bytes) (args : List Arg)
    (cells : List Nat) : Written :=
  let run := formatTo .truncating features fmt args (.ofMemory memory) cells
  { returned := run.sink.total, memory := run.sink.finish, cells := run.cells }

def formattedSize (features : Features) (fmt : Bytes) (args : List Arg) (cells : List Nat) : Nat :=
  (formatTo .counter features fmt args 0 cells).written

end Printf
