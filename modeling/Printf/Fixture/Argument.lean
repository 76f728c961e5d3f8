import Printf.Argument
import Printf.Json.Reader

/-! Arguments of test cases, as documents spell them. A float that no document can spell is given
by its bits. -/
namespace Printf

inductive FixtureArg where
  | int (v : Int64)
  | uint (v : UInt64)
  | char (c : UInt8)
  | float (x : Binary64)
  | floatBits (bits : UInt64)
  | str (s : String)
  | ptr (address : UInt64)
  /-- A cell for a count; the count is shown behind the output. -/
  | count
  deriving DecidableEq, Repr

namespace FixtureArg

/-- The argument for the formatter; a count is stored in the given cell. -/
def toArg (cell : Nat) : FixtureArg → Arg
  | int v => .int v
  | uint v => .uint v
  | char c => .char c
  | float x => .float x
  | floatBits bits => .float ⟨bits⟩
  | str s => .str (utf8 s)
  | ptr address => .ptr address
  | count => .count cell

def toJson : FixtureArg → Json.Value
  | int v => .object [("int", .int v.toInt)]
  | uint v => .object [("uint", .nat v.toNat)]
  | char c => .object [("char", .nat c.toNat)]
  | float x => .object [("float", .number (.float x))]
  | floatBits bits => .object [("float_bits", .nat bits.toNat)]
  | str s => .object [("str", .string s)]
  | ptr address => .object [("ptr", .nat address.toNat)]
  | count => .string "count"

def kinds : List String := ["int", "uint", "char", "float", "float_bits", "str", "ptr", "count"]

open Json (Reader Result)

def readContent (kind : String) (content : Reader.Content) : Result FixtureArg :=
  match kind with
  | "int" => return .int (← Reader.content .int64 content)
  | "uint" => return .uint (← Reader.content .uint64 content)
  | "char" => return .char (← Reader.content .uint8 content)
  | "float" => return .float (← Reader.content .float content)
  | "float_bits" => return .floatBits (← Reader.content .uint64 content)
  | "str" => return .str (← Reader.content .string content)
  | "ptr" => return .ptr (← Reader.content .address content)
  | _ => do Reader.noContent content; return .count

def read : Reader FixtureArg := Reader.choice kinds readContent

end FixtureArg
end Printf
