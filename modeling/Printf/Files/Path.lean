import Printf.Text.Split

/-! Paths as texts. Slashes separate components; empty components and single points mean nothing
inside a path. -/
namespace Printf.Path

def components (path : String) : List String :=
  (Text.split '/' path.toList).map String.ofList

def isAbsolute (path : String) : Bool := path.toList.head? == some '/'

/-- A path without the slashes and single points at its end. -/
def trimEnd (path : String) : String :=
  String.ofList (strip path.toList.reverse).reverse
where
  /-- Works on the reversed path. -/
  strip : List Char → List Char
    | '.' :: '/' :: cs => strip ('/' :: cs)
    | '/' :: c :: cs => strip (c :: cs)
    | cs => cs

/-- The directory part of a path, the empty path for a bare name; none for a path that has no last
component. -/
def parent? (path : String) : Option String :=
  let cs := (trimEnd path).toList
  if cs = [] ∨ cs = ['/'] then none
  else
    let front := (cs.reverse.dropWhile (· != '/')).reverse
    if front = ['/'] then some "/" else some (trimEnd (String.ofList front.dropLast))

def fileName? (path : String) : Option String :=
  let name := ((trimEnd path).toList.reverse.takeWhile (· != '/')).reverse
  if name = [] ∨ name = ['.'] ∨ name = ['.', '.'] then none else some (String.ofList name)

/-- A file name split at its last point; a point in front belongs to the name. -/
def splitName (name : List Char) : List Char × Option (List Char) :=
  let after := (name.reverse.takeWhile (· != '.')).reverse
  let before := (name.reverse.dropWhile (· != '.')).reverse.dropLast
  if before = [] then (name, none) else (before, some after)

def extension? (name : String) : Option String := (splitName name.toList).2.map String.ofList

def withExtension (path extension : String) : String :=
  match fileName? path with
  | none => path
  | some name =>
    let cs := (trimEnd path).toList
    let front := cs.take (cs.length - name.toList.length)
    String.ofList (front ++ (splitName name.toList).1) ++ "." ++ extension

def join (directory name : String) : String :=
  if directory = "" ∨ directory.toList.getLast? = some '/' then directory ++ name
  else directory ++ "/" ++ name

end Printf.Path
