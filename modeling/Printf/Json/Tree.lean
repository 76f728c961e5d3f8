import Printf.Json.Value

/-! Documents as far as they can be read. A tree keeps the flaws of its text at the places where a
reader from left to right meets them, so that a reader may stop earlier for a reason of its own. -/
namespace Printf.Json

/-- What can be wrong with a text: it ends too early, or it is no JSON. -/
inductive Flaw where
  | ended
  | malformed
  deriving DecidableEq, Repr

/-- The text behind something that was read, or the flaw that keeps it from ending. -/
abbrev Rest := Except Flaw (List Char)

def Rest.left (rest : Rest) : List Char := rest.toOption.getD []

/-- A scalar token. Some flaws of its content do not matter to a reader that skips it. -/
structure Scan (α : Type) where
  content : Except Flaw α
  rest : Rest
  deriving Repr

def Scan.sound (a : α) : Scan α := ⟨.ok a, .ok []⟩

/-- A value in a text. A container is kept with the text that it starts and the one behind its
closing bracket; a flaw may stand in place of the bracket. -/
inductive Tree where
  /-- No value starts here. -/
  | absent (flaw : Flaw)
  /-- Null, or a truth value. -/
  | word (w : Scan (Option Bool))
  | number (n : Scan Number)
  | string (s : Scan String)
  | array (start : List Char) (items : List Tree) (rest : Rest)
  | object (start : List Char) (entries : List (Tree × Tree)) (rest : Rest)
  deriving Repr, Inhabited

namespace Tree

def rest : Tree → Rest
  | absent flaw => .error flaw
  | word s => s.rest
  | number s => s.rest
  | string s => s.rest
  | array _ _ rest => rest
  | object _ _ rest => rest

mutual

def ofValue : Value → Tree
  | .null => word (.sound none)
  | .bool b => word (.sound (some b))
  | .number n => number (.sound n)
  | .string s => string (.sound s)
  | .array items => array [] (ofItems items) (.ok [])
  | .object fields => object [] (ofFields fields) (.ok [])

def ofItems : List Value → List Tree
  | [] => []
  | v :: vs => ofValue v :: ofItems vs

def ofFields : List (String × Value) → List (Tree × Tree)
  | [] => []
  | (k, v) :: fields => (string (.sound k), ofValue v) :: ofFields fields

end

def key : Tree → Except Flaw String
  | string s => s.content
  | absent flaw => .error flaw
  | _ => .error .malformed

def skipKey : Tree → Except Flaw Unit
  | string s => discard s.rest
  | absent flaw => .error flaw
  | _ => .error .malformed

mutual

/-- Passes over a value and reports the first flaw that matters even so. -/
def skip : Tree → Except Flaw Unit
  | absent flaw => .error flaw
  | word w => discard w.rest
  | number n => discard n.rest
  | string s => discard s.rest
  | array _ items rest => do skipItems items; discard rest
  | object _ entries rest => do skipEntries entries; discard rest

def skipItems : List Tree → Except Flaw Unit
  | [] => .ok ()
  | t :: ts => do skip t; skipItems ts

def skipEntries : List (Tree × Tree) → Except Flaw Unit
  | [] => .ok ()
  | (k, t) :: entries => do skipKey k; skip t; skipEntries entries

end

/-- How deep arrays and objects may be nested in a document of unknown shape. -/
def maxDepth : Nat := 127

mutual

/-- The value of a tree without flaws, if it is nested at most `depth` levels deep. -/
def value (depth : Nat) : Tree → Except Flaw Value
  | absent flaw => .error flaw
  | word w => w.content.map fun
    | none => .null
    | some b => .bool b
  | number n => n.content.map .number
  | string s => s.content.map .string
  | array _ items rest => do
    if depth = 0 then throw .malformed
    let vs ← valueItems (depth - 1) items
    discard rest
    return .array vs
  | object _ entries rest => do
    if depth = 0 then throw .malformed
    let fields ← valueEntries (depth - 1) entries
    discard rest
    return .ofFields fields

def valueItems (depth : Nat) : List Tree → Except Flaw (List Value)
  | [] => .ok []
  | t :: ts => do return (← value depth t) :: (← valueItems depth ts)

def valueEntries (depth : Nat) : List (Tree × Tree) → Except Flaw (List (String × Value))
  | [] => .ok []
  | (k, t) :: entries => do
    return (← key k, ← value depth t) :: (← valueEntries depth entries)

end

end Tree
end Printf.Json
