import Printf.Fixture.Argument
import Printf.Float.Reading
import Printf.Text.Blank

/-! Arguments as a command line spells them: a kind of one letter, a colon and a value, or the
letter n alone. Integers may be hexadecimal and may hold underscores. -/
namespace Printf.Spelling

open Text (isDecimal decimalValue)

def digit? (base : Nat) (c : Char) : Option Nat :=
  let n :=
    if isDecimal c then decimalValue c
    else if 'a' ≤ c ∧ c ≤ 'f' then c.toNat - 87
    else if 'A' ≤ c ∧ c ≤ 'F' then c.toNat - 55
    else base
  if n < base then some n else none

/-- The number of a text of digits, which may have a plus sign in front. -/
def natural? (base : Nat) (cs : List Char) : Option Nat :=
  let cs := match cs with
    | '+' :: cs => cs
    | cs => cs
  if cs = [] then none else (cs.mapM (digit? base)).map (Radix.value base)

/-- The number that blanks around it and underscores in it do not change, below `2 ^ 64`. -/
def unsigned? (cs : List Char) : Option Nat :=
  let n? := match (Text.trim cs).filter (· != '_') with
    | '0' :: 'x' :: cs => natural? 16 cs
    | '0' :: 'X' :: cs => natural? 16 cs
    | cs => natural? 10 cs
  n?.filter (· < UInt64.size)

/-- An integer of 64 bits; blanks may also stand behind the minus sign. -/
def signed? (cs : List Char) : Option Int :=
  match Text.trim cs with
  | '-' :: rest => ((unsigned? rest).map fun n => -(n : Int)).filter (Int64.minValue.toInt ≤ ·)
  | _ => ((unsigned? cs).map Int.ofNat).filter (· ≤ Int64.maxValue.toInt)

def value? (kind : List Char) (cs : List Char) : Option FixtureArg :=
  match kind with
  | ['i'] => (signed? cs).map fun v => .int (.ofInt v)
  | ['u'] => (unsigned? cs).map fun n => .uint n.toUInt64
  | ['c'] => (cs.flatMap String.utf8EncodeChar).head?.map .char
  | ['f'] => (Reading.read? cs).map .float
  | ['s'] => some (.str (.ofList cs))
  | ['p'] => (unsigned? cs).map fun n => .ptr n.toUInt64
  | _ => none

end Printf.Spelling

namespace Printf

def FixtureArg.ofText? (raw : String) : Option FixtureArg :=
  let cs := raw.toList
  if cs = ['n'] then some .count
  else match cs.dropWhile (· != ':') with
    | ':' :: value => Spelling.value? (cs.takeWhile (· != ':')) value
    | _ => none

end Printf
