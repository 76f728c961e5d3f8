import Printf.Command

/-! Commands read from the words of a command line. Options may stand anywhere behind the name of
the command, with their value in the next word or behind an equals sign; a double dash ends them. -/
namespace Printf.Command

structure Words where
  positional : List String := []
  options : List (String × String) := []
  switches : List String := []

def splitOption (word : String) : String × Option String :=
  let cs := word.toList
  match cs.dropWhile (· != '=') with
  | _ :: value => (String.ofList (cs.takeWhile (· != '=')), some (String.ofList value))
  | [] => (word, none)

def isOption (word : String) : Bool :=
  match word.toList with
  | ['-'] => false
  | '-' :: _ => true
  | _ => false

/-- Sorts words by the options that take a value and those that do not. -/
def sortWords (valued switches : List String) (w : Words) : List String → Option Words
  | [] => some w
  | "--" :: rest => some { w with positional := w.positional ++ rest }
  | word :: rest =>
    if !isOption word then
      sortWords valued switches { w with positional := w.positional ++ [word] } rest
    else
      match splitOption word, rest with
      | (name, some value), rest =>
        if name ∈ valued ∧ name ∉ w.options.map Prod.fst then
          sortWords valued switches { w with options := w.options ++ [(name, value)] } rest
        else none
      | (name, none), rest =>
        if name ∈ switches ∧ name ∉ w.switches then
          sortWords valued switches { w with switches := w.switches ++ [name] } rest
        else match rest with
          | value :: rest =>
            if name ∈ valued ∧ name ∉ w.options.map Prod.fst ∧ !isOption value then
              sortWords valued switches { w with options := w.options ++ [(name, value)] } rest
            else none
          | [] => none

def ofWords? : List String → Option Command
  | "verify" :: rest => do
    let w ← sortWords ["--fixture", "--report", "--log"] ["--json"] {} rest
    let fixture ← w.options.lookup "--fixture"
    if w.positional = [] ∧ w.options.all (·.2 != "") then
      return .verify fixture (w.options.lookup "--report") (w.switches.contains "--json")
        (w.options.lookup "--log")
    else none
  | "render" :: rest => do
    let w ← sortWords ["--capacity"] [] {} rest
    let format :: args := w.positional | none
    match w.options.lookup "--capacity" with
    | none => return .render format args none
    | some digits => do
      let capacity ← (Spelling.natural? 10 digits.toList).filter (· < UInt64.size)
      return .render format args (some capacity)
  | "parse" :: rest => do
    let w ← sortWords [] [] {} rest
    match w.positional with
    | [directive] => return .parse directive
    | _ => none
  | _ => none

end Printf.Command
