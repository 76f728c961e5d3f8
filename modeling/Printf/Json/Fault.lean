import Printf.Json.Printer
import Printf.Json.Tree
import Printf.Text.Quoted

/-! What is wrong with a document that cannot be read: a flaw of its text, or a mismatch between
the text and the wanted shape. A mismatch comes with the place where it is noticed. -/
namespace Printf.Json

inductive Found where
  | null
  | bool (b : Bool)
  | number (n : Number)
  | string (s : String)
  | sequence
  | map
  /-- A choice that comes without content. -/
  | unitVariant
  deriving DecidableEq, Repr

inductive Mismatch where
  | missing (field : String)
  | duplicate (field : String)
  | kind (found : Found) (wanted : String)
  | value (found : Found) (wanted : String)
  | variant (name : String) (known : List String)
  | length (size : Nat) (wanted : String)
  deriving DecidableEq, Repr

inductive Fault (Place : Type) where
  | flaw (f : Flaw)
  | mismatch (m : Mismatch) (place : Place)
  deriving DecidableEq, Repr

def Fault.map (f : α → β) : Fault α → Fault β
  | flaw w => flaw w
  | mismatch m place => mismatch m (f place)

/-- A place between two characters of a text. Lines are counted from one, columns are the bytes of
the line in front. -/
structure Position where
  line : Nat
  column : Nat
  deriving DecidableEq, Repr

def Position.behind (front : List Char) : Position where
  line := front.count '\n' + 1
  column := (String.ofList (front.reverse.takeWhile (· != '\n'))).utf8ByteSize

def Position.before (text left : List Char) : Position :=
  .behind (text.take (text.length - left.length))

def Found.text : Found → String
  | null => "null"
  | bool b => "boolean `" ++ (if b then "true" else "false") ++ "`"
  | number (.int v) => "integer `" ++ Radix.integerText v ++ "`"
  | number (.float x) => "floating point `" ++ String.ofList (Shortest.text x) ++ "`"
  | string s => "string " ++ Text.quoted s
  | sequence => "sequence"
  | map => "map"
  | unitVariant => "unit variant"

def oneOf (names : List String) : String :=
  "one of " ++ ", ".intercalate (names.map fun name => "`" ++ name ++ "`")

def Mismatch.message : Mismatch → String
  | missing field => "missing field `" ++ field ++ "`"
  | duplicate field => "duplicate field `" ++ field ++ "`"
  | kind found wanted => "invalid type: " ++ found.text ++ ", expected " ++ wanted
  | value found wanted => "invalid value: " ++ found.text ++ ", expected " ++ wanted
  | variant name known => "unknown variant `" ++ name ++ "`, expected " ++ oneOf known
  | length size wanted => "invalid length " ++ Radix.decimalText size ++ ", expected " ++ wanted

def Flaw.message : Flaw → String
  | ended => "unexpected end of the document"
  | malformed => "malformed document"

end Printf.Json
