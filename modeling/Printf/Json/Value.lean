import Printf.Float.Shortest

/-! JSON documents as values. An object that was read has its keys in order and no key twice; one
that is about to be written keeps the order it was given. -/
namespace Printf.Json

inductive Number where
  | int (v : Int)
  | float (x : Binary64)
  deriving DecidableEq, Repr

inductive Value where
  | null
  | bool (b : Bool)
  | number (n : Number)
  | string (s : String)
  | array (items : List Value)
  | object (fields : List (String × Value))
  deriving Repr, Inhabited

namespace Value

def int (v : Int) : Value := .number (.int v)

def nat (v : Nat) : Value := int v

/-- Puts a field at its place in an ordered object; an equal key is replaced. -/
def insertField (key : String) (v : Value) : List (String × Value) → List (String × Value)
  | [] => [(key, v)]
  | (k, w) :: fields =>
    if key < k then (key, v) :: (k, w) :: fields
    else if key = k then (key, v) :: fields
    else (k, w) :: insertField key v fields

/-- The object of some fields in key order; of equal keys the last one counts. -/
def ofFields (fields : List (String × Value)) : Value :=
  .object (fields.foldl (fun acc (k, v) => insertField k v acc) [])

def get? (v : Value) (key : String) : Option Value :=
  match v with
  | object fields => fields.lookup key
  | _ => none

def string? : Value → Option String
  | string s => some s
  | _ => none

end Value
end Printf.Json
