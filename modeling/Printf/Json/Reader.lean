import Printf.Json.Fault
import Printf.Json.Parser

/-! Typed readers of documents. Of several faults the one that stands first in the text counts; a
missing field is noticed at the end of its object. -/
namespace Printf.Json

/-- What is read from a tree. The place of a mismatch is the text that is left where it is
noticed. -/
abbrev Result (α : Type) := Except (Fault (List Char)) α

abbrev Reader (α : Type) := Tree → Result α

def sound (a : Except Flaw α) : Result α := a.mapError .flaw

def mismatch (m : Mismatch) (left : List Char) : Result α := .error (.mismatch m left)

/-- The fault of a value that is of no wanted kind. A scalar has to be sound before its kind is
looked at; a container is not looked into. -/
def Tree.unexpected (t : Tree) (wanted : String) : Result α :=
  match t with
  | absent flaw => .error (.flaw flaw)
  | word w => do
    match ← sound w.content with
    | none => mismatch (.kind .null wanted) w.rest.left
    | some b => mismatch (.kind (.bool b) wanted) w.rest.left
  | number n => do mismatch (.kind (.number (← sound n.content)) wanted) n.rest.left
  | string s => do mismatch (.kind (.string (← sound s.content)) wanted) s.rest.left
  | array start _ _ => mismatch (.kind .sequence wanted) start
  | object start _ _ => mismatch (.kind .map wanted) start

namespace Reader

def string : Reader String
  | .string s => sound s.content
  | t => t.unexpected "a string"

def bool : Reader Bool
  | .word ⟨.ok (some b), _⟩ => .ok b
  | t => t.unexpected "a boolean"

/-- Null, as the content of a choice that has none. -/
def unit : Reader Unit
  | .word ⟨.ok none, _⟩ => .ok ()
  | t => t.unexpected "unit"

def integer (low high : Int) (wanted : String) : Reader Int
  | .number ⟨.ok (.int v), rest⟩ =>
    if low ≤ v ∧ v ≤ high then .ok v else mismatch (.value (.number (.int v)) wanted) rest.left
  | t => t.unexpected wanted

def int64 : Reader Int64 := fun t =>
  (integer Int64.minValue.toInt Int64.maxValue.toInt "i64" t).map Int64.ofInt

def uint64Named (wanted : String) : Reader UInt64 := fun t =>
  (integer 0 (UInt64.size - 1) wanted t).map fun v => v.toNat.toUInt64

def uint64 : Reader UInt64 := uint64Named "u64"

/-- A machine address, or a size as wide as one. -/
def address : Reader UInt64 := uint64Named "usize"

def size : Reader Nat := fun t => (address t).map UInt64.toNat

def uint8 : Reader UInt8 := fun t => (integer 0 255 "u8" t).map fun v => v.toNat.toUInt8

/-- A double; an integer is rounded to the nearest one. -/
def float : Reader Binary64
  | .number ⟨.ok (.float x), _⟩ => .ok x
  | .number ⟨.ok (.int v), _⟩ => .ok (.ofInt v)
  | t => t.unexpected "f64"

def option (read : Reader α) : Reader (Option α)
  | .word ⟨.ok none, _⟩ => .ok none
  | t => (read t).map some

def list (read : Reader α) : Reader (List α)
  | .array _ items rest => do
    let as ← items.mapM read
    sound (discard rest)
    return as
  | t => t.unexpected "a sequence"

def value : Reader Value := fun t => sound (t.value Tree.maxDepth)

inductive Content where
  | given (t : Tree)
  /-- Nothing; the text behind the name is left. -/
  | nothing (left : List Char)

/-- The text that is left when the list around an item is read on. -/
def behindItem (left : List Char) : List Char :=
  match skipBlanks left with
  | ',' :: cs => skipBlanks cs
  | ']' :: cs => cs
  | cs => cs

/-- The content of a choice that has one. That it is missing is noticed behind the item. -/
def content (read : Reader α) : Content → Result α
  | .given t => read t
  | .nothing left => mismatch (.kind .unitVariant "newtype variant") (behindItem left)

/-- The content of a choice that has none: it may be left out. -/
def noContent : Content → Result Unit
  | .given t => unit t
  | .nothing _ => .ok ()

def known (names : List String) (name : String) (left : List Char) : Result String :=
  if name ∈ names then .ok name else mismatch (.variant name names) left

/-- One of several named choices, as an item of a list: its name, or an object with one entry of
name and content. -/
def choice (names : List String) (read : String → Content → Result α) : Reader α
  | .string s => do
    let name ← known names (← sound s.content) s.rest.left
    read name (.nothing s.rest.left)
  | .object _ entries rest =>
    match entries with
    | [] => do sound (discard rest); throw (.flaw .malformed)
    | (k, t) :: more => do
      let name ← known names (← sound k.key) k.rest.left
      let a ← read name (.given t)
      if more = [] then sound (discard rest) else throw (.flaw .malformed)
      return a
  | .absent flaw => .error (.flaw flaw)
  | _ => .error (.flaw .malformed)

end Reader

/-- A result, or a fault and the turn at which it is noticed. -/
def Timed (α : Type) := Except (Nat × Fault (List Char)) α

namespace Timed

def fault (turn : Nat) (f : Fault (List Char)) : Timed α := Except.error (turn, f)

def ofResult (turn : Nat) (a : Result α) : Timed α := a.mapError fun f => (turn, f)

/-- Of two faults the one at the earlier turn counts. -/
def apply (f : Timed (α → β)) (x : Timed α) : Timed β :=
  match f, x with
  | .ok f, .ok a => .ok (f a)
  | .ok _, .error e => .error e
  | .error e, .ok _ => .error e
  | .error e, .error e' => .error (if e'.1 < e.1 then e' else e)

instance : Applicative Timed where
  pure a := Except.ok a
  seq f x := apply f (x ())

end Timed

structure Schema where
  name : String
  fields : List String

namespace Schema

def title (s : Schema) : String := "struct " ++ s.name

def titleWithSize (s : Schema) : String :=
  s.title ++ " with " ++ Radix.decimalText s.fields.length ++ " elements"

def position (s : Schema) (field : String) : Nat := s.fields.idxOf field

end Schema

/-- A record in a document: an object of its fields, or an array of them in order. -/
inductive Record where
  | named (schema : Schema) (entries : List (Tree × Tree)) (rest : Rest)
  | positional (schema : Schema) (items : List Tree) (rest : Rest)

namespace Record

def isNamed (name : String) (entry : Tree × Tree) : Bool :=
  match entry.1.key with
  | .ok k => k == name
  | .error _ => false

/-- Reads a field. The two defaults are for an object that lacks it and for an array that is too
short; without one the absence is a fault. -/
def fieldOr (unnamed short : Option α) (field : String) (read : Reader α) : Record → Timed α
  | named schema entries rest =>
    match entries.findIdx? (isNamed field), entries.find? (isNamed field) with
    | some i, some (_, t) => .ofResult i (read t)
    | _, _ =>
      match unnamed with
      | some a => pure a
      | none =>
        .fault (entries.length + 1 + schema.position field) (.mismatch (.missing field) rest.left)
  | positional schema items rest =>
    let i := schema.position field
    match items[i]?, rest, short with
    | some t, _, _ => .ofResult i (read t)
    | none, .error flaw, _ => .fault i (.flaw flaw)
    | none, .ok _, some a => pure a
    | none, .ok left, none => .fault i (.mismatch (.length i schema.titleWithSize) left)

def field (name : String) (read : Reader α) (r : Record) : Timed α :=
  r.fieldOr none none name read

def defaulted (name : String) (default : α) (read : Reader α) (r : Record) : Timed α :=
  r.fieldOr (some default) (some default) name read

/-- A field for null or a value, which an object may lack. -/
def optional (name : String) (read : Reader α) (r : Record) : Timed (Option α) :=
  r.fieldOr (some none) none name (.option read)

/-- The faults of an entry that is not the first one of a known field. A second one is noticed in
front of its colon. -/
def checkEntry (s : Schema) (before : List (Tree × Tree)) (entry : Tree × Tree) :
    Result Unit := do
  let name ← sound entry.1.key
  if name ∈ s.fields then
    if before.any (isNamed name) then
      mismatch (.duplicate name) (skipBlanks entry.1.rest.left)
  else sound entry.2.skip

/-- The faults of a list of entries, at turns from `before.length` on. -/
def checkEntries (s : Schema) (before : List (Tree × Tree)) :
    List (Tree × Tree) → Timed Unit
  | [] => pure ()
  | entry :: rest =>
    match checkEntry s before entry with
    | .error f => .fault before.length f
    | .ok () => checkEntries s (before ++ [entry]) rest

/-- The faults outside the fields: doubled and unknown entries, too many items, a bad end. -/
def check : Record → Timed Unit
  | named s entries rest =>
    match checkEntries s [] entries with
    | .error e => .error e
    | .ok () => .ofResult entries.length (sound (discard rest))
  | positional s items rest =>
    if s.fields.length < items.length then .fault s.fields.length (.flaw .malformed)
    else .ofResult items.length (sound (discard rest))

end Record

def Reader.record (s : Schema) (fields : Record → Timed α) : Reader α
  | .object _ entries rest => settle (.named s entries rest)
  | .array _ items rest => settle (.positional s items rest)
  | t => t.unexpected s.title
where
  settle (r : Record) : Result α :=
    (Timed.apply ((fun a _ => a) <$> fields r) r.check).mapError Prod.snd

def Reader.document (read : Reader α) (text : String) : Except (Fault Position) α :=
  let (tree, close) := Tree.ofText text
  let result := do
    let a ← read tree
    sound close
    return a
  result.mapError (Fault.map (Position.before text.toList))

end Printf.Json
