import Printf.Files.Path
import Printf.Radix
import Printf.Text.Utf8

/-! A file tree below the current directory. A path is followed component by component; everything
on the way has to be a directory. -/
namespace Printf

inductive FileError where
  | notFound
  | alreadyExists
  | notADirectory
  | isADirectory
  /-- A file that was read as text is no UTF-8. -/
  | invalidText
  deriving DecidableEq, Repr

namespace FileError

def code? : FileError → Option Nat
  | notFound => some 2
  | alreadyExists => some 17
  | notADirectory => some 20
  | isADirectory => some 21
  | invalidText => none

def kind : FileError → String
  | notFound => "NotFound"
  | alreadyExists => "AlreadyExists"
  | notADirectory => "NotADirectory"
  | isADirectory => "IsADirectory"
  | invalidText => "InvalidData"

def description : FileError → String
  | notFound => "No such file or directory"
  | alreadyExists => "File exists"
  | notADirectory => "Not a directory"
  | isADirectory => "Is a directory"
  | invalidText => "stream did not contain valid UTF-8"

def message (e : FileError) : String :=
  match e.code? with
  | some code => e.description ++ " (os error " ++ Radix.decimalText code ++ ")"
  | none => e.description

def detail (e : FileError) : String :=
  match e.code? with
  | some code =>
    "Os \x7b code: " ++ Radix.decimalText code ++ ", kind: " ++ e.kind ++ ", message: \"" ++
      e.description ++ "\" \x7d"
  | none => "Error \x7b kind: " ++ e.kind ++ ", message: \"" ++ e.description ++ "\" \x7d"

end FileError

inductive Node where
  | file (content : Bytes)
  | directory
  deriving DecidableEq, Repr

abbrev Location := List String

structure Files where
  nodes : List (Location × Node) := []
  deriving DecidableEq, Repr

namespace Files

def root : Location := ["/"]

/-- Whether a location is a directory in every tree: the current one, those above it, the root. -/
def isFixed (l : Location) : Bool := l == root || l.all (· == "..")

def node? (files : Files) (l : Location) : Option Node :=
  if isFixed l then some .directory else files.nodes.lookup l

def set (files : Files) (l : Location) (n : Node) : Files :=
  ⟨files.nodes.filter (fun entry => entry.1 != l) ++ [(l, n)]⟩

def step (l : Location) (component : String) : Location :=
  if component = "" ∨ component = "." then l
  else if component = ".." then
    if l = root then l else if l.all (· == "..") then l ++ [".."] else l.dropLast
  else l ++ [component]

/-- Where components lead. All locations but the last one have to be directories. -/
def walk (files : Files) (l : Location) : List String → Except FileError Location
  | [] => .ok l
  | c :: cs =>
    match files.node? l with
    | none => .error .notFound
    | some (.file _) => .error .notADirectory
    | some .directory => walk files (step l c) cs

def start (path : String) : Location := if Path.isAbsolute path then root else []

def find (files : Files) (path : String) : Except FileError (Location × Node) := do
  if path = "" then throw .notFound
  let l ← files.walk (start path) (Path.components path)
  match files.node? l with
  | some n => return (l, n)
  | none => throw .notFound

def read (files : Files) (path : String) : Except FileError Bytes := do
  match ← files.find path with
  | (_, .file content) => return content
  | (_, .directory) => throw .isADirectory

def readText (files : Files) (path : String) : Except FileError String := do
  match Utf8.text? (← files.read path) with
  | some text => return text
  | none => throw .invalidText

def names (files : Files) (path : String) : Except FileError (List String) := do
  match ← files.find path with
  | (_, .file _) => throw .notADirectory
  | (l, .directory) =>
    let inside := files.nodes.filterMap fun (k, _) =>
      if k.dropLast = l then k.getLast? else none
    return inside.mergeSort fun a b => decide (a ≤ b)

/-- Writes a file; one that is there is replaced. A path that can only mean a directory is
refused. -/
def write (files : Files) (path : String) (content : Bytes) : Except FileError Files := do
  if path = "" then throw .notFound
  let cs := Path.components path
  let named := (cs.reverse.dropWhile (· == "")).reverse
  let l ← files.walk (start path) (named.dropLast ++ [""])
  let name := named.getLast?.getD ""
  if cs != named ∨ name = "" ∨ name = "." ∨ name = ".." then throw .isADirectory
  match files.node? (l ++ [name]) with
  | some .directory => throw .isADirectory
  | _ => return files.set (l ++ [name]) (.file content)

def makeAlong (files : Files) (l : Location) : List String → Except FileError Files
  | [] => .ok files
  | c :: cs =>
    match files.node? l with
    | some .directory =>
      let next := step l c
      match files.node? next, cs with
      | none, cs => makeAlong (files.set next .directory) next cs
      | some (.file _), [] => .error .alreadyExists
      | some (.file _), _ :: _ => .error .notADirectory
      | some .directory, cs => makeAlong files next cs
    | some (.file _) => .error .notADirectory
    | none => .error .notFound

def makeDirectories (files : Files) (path : String) : Except FileError Files :=
  files.makeAlong (start path) ((Path.components path).filter (· != ""))

/-- The tree of some files. A path that ends with a slash is an empty directory. -/
def ofList (contents : List (String × Bytes)) : Files :=
  contents.foldl
    (fun files (path, content) =>
      let directory := if path.toList.getLast? = some '/' then path
        else (Path.parent? path).getD ""
      let files := (files.makeDirectories directory).toOption.getD files
      (files.write path content).toOption.getD files)
    {}

end Files
end Printf
