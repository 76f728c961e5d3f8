import Printf.Json.Value

/-! JSON texts of values: a compact one on a single line, and one with two blanks of indentation
for each level. -/
namespace Printf.Json

def escape (c : Char) : List Char :=
  if c = '"' then ['\\', '"']
  else if c = '\\' then ['\\', '\\']
  else if c = '\x08' then ['\\', 'b']
  else if c = '\x0c' then ['\\', 'f']
  else if c = '\n' then ['\\', 'n']
  else if c = '\r' then ['\\', 'r']
  else if c = '\t' then ['\\', 't']
  else if c.toNat < 32 then '\\' :: 'u' :: (Radix.lastDigits 16 4 c.toNat).map Radix.digitChar
  else [c]

def quoted (s : String) : List Char := '"' :: s.toList.flatMap escape ++ ['"']

def Number.text : Number → List Char
  | .int v => (Radix.integerText v).toList
  | .float x => Shortest.text x

namespace Value

def newline (level : Nat) : List Char := '\n' :: List.replicate (2 * level) ' '

mutual

def compactChars : Value → List Char
  | null => "null".toList
  | bool b => (if b then "true" else "false").toList
  | number n => n.text
  | string s => quoted s
  | array items => '[' :: compactItems items
  | object fields => '{' :: compactFields fields

def compactItems : List Value → List Char
  | [] => [']']
  | [v] => compactChars v ++ [']']
  | v :: w :: rest => compactChars v ++ ',' :: compactItems (w :: rest)

def compactFields : List (String × Value) → List Char
  | [] => ['}']
  | [(k, v)] => quoted k ++ ':' :: compactChars v ++ ['}']
  | (k, v) :: next :: rest =>
    quoted k ++ ':' :: compactChars v ++ ',' :: compactFields (next :: rest)

end

mutual

/-- The indented text; an empty array or object stays on its line. -/
def prettyChars (level : Nat) : Value → List Char
  | null => "null".toList
  | bool b => (if b then "true" else "false").toList
  | number n => n.text
  | string s => quoted s
  | array [] => ['[', ']']
  | array (v :: rest) => '[' :: prettyItems (level + 1) (v :: rest)
  | object [] => ['{', '}']
  | object (f :: rest) => '{' :: prettyFields (level + 1) (f :: rest)

def prettyItems (level : Nat) : List Value → List Char
  | [] => [']']
  | [v] => newline level ++ prettyChars level v ++ newline (level - 1) ++ [']']
  | v :: w :: rest => newline level ++ prettyChars level v ++ ',' :: prettyItems level (w :: rest)

def prettyFields (level : Nat) : List (String × Value) → List Char
  | [] => ['}']
  | [(k, v)] =>
    newline level ++ quoted k ++ ": ".toList ++ prettyChars level v ++ newline (level - 1) ++ ['}']
  | (k, v) :: next :: rest =>
    newline level ++ quoted k ++ ": ".toList ++ prettyChars level v ++
      ',' :: prettyFields level (next :: rest)

end

def compact (v : Value) : String := String.ofList v.compactChars

def pretty (v : Value) : String := String.ofList (v.prettyChars 0)

end Value
end Printf.Json
