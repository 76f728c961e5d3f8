import Printf.Radix
import Printf.Text.Shape

/-! Quoted texts for messages. A quoted text can be told apart from any other: quotes, backslashes
and characters without a shape are escaped. -/
namespace Printf.Text

/-- How a character is written between quotes; `mark` is escaped besides the double quote. -/
def escape (mark : Option Char) (c : Char) : List Char :=
  if c = '\x00' then ['\\', '0']
  else if c = '\t' then ['\\', 't']
  else if c = '\r' then ['\\', 'r']
  else if c = '\n' then ['\\', 'n']
  else if c = '"' ∨ c = '\\' ∨ some c = mark then ['\\', c]
  else if hasShape c then [c]
  else ['\\', 'u', '\x7b'] ++ (Radix.numeral 16 c.toNat).map Radix.digitChar ++ ['\x7d']

def quoted (s : String) : String :=
  String.ofList ('"' :: s.toList.flatMap (escape none) ++ ['"'])

/-- A path in double quotes, where an apostrophe is escaped too. -/
def quotedPath (s : String) : String :=
  String.ofList ('"' :: s.toList.flatMap (escape (some '\x27')) ++ ['"'])

end Printf.Text
