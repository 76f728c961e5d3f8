import Printf.Log.Entry
import Printf.Text.Blank
import Printf.Text.Split

/-! Validation of logs. A line has to be an object with the required fields, known names, a trace
id of three parts, and a case for every outcome; only then is it read as an entry. -/
namespace Printf

inductive LogFault where
  | invalidJson
  | notAnObject
  | missingField (name : String)
  | unknownName (field value : String)
  | badTraceId (value : String)
  | outcomeWithoutCase
  | unreadable (fault : Json.Fault Unit)
  deriving DecidableEq, Repr

structure LogViolation where
  line : Nat
  fault : LogFault
  deriving DecidableEq, Repr

namespace LogFault

/-- The field that is at fault, or a word in angle brackets for the whole line. -/
def field : LogFault → String
  | invalidJson => "<json>"
  | notAnObject => "<root>"
  | missingField name => name
  | unknownName field _ => field
  | badTraceId _ => "trace_id"
  | outcomeWithoutCase => "case_name"
  | unreadable _ => "<deserialization>"

def message : LogFault → String
  | invalidJson => "invalid JSON"
  | notAnObject => "expected JSON object"
  | missingField _ => "required field missing"
  | unknownName field value => "invalid " ++ field ++ ": '" ++ value ++ "'"
  | badTraceId value =>
    "trace_id should follow <campaign>::<run_id>::<seq> format, got: '" ++ value ++ "'"
  | outcomeWithoutCase => "outcome events must name their case"
  | unreadable (.mismatch m _) => "failed to deserialize: " ++ m.message
  | unreadable (.flaw _) => "failed to deserialize"

end LogFault

def LogViolation.text (v : LogViolation) : String :=
  "line " ++ Radix.decimalText v.line ++ ": field '" ++ v.fault.field ++ "': " ++ v.fault.message

namespace LogValidation

open Json (Value)

def traceParts : List Char → List (List Char)
  | [] => [[]]
  | ':' :: ':' :: cs => [] :: traceParts cs
  | c :: cs =>
    match traceParts cs with
    | [] => [[c]]
    | part :: parts => (c :: part) :: parts

def requiredFields : List String := ["timestamp", "trace_id", "level", "event"]

def namedFields : List (String × List String) :=
  [("level", LogLevel.all.map LogLevel.name), ("outcome", LogOutcome.all.map LogOutcome.name),
    ("stream", LogStream.all.map LogStream.name)]

def text? (v : Value) (field : String) : Option String := (v.get? field).bind Value.string?

/-- The faults of an object that can be seen without reading it as an entry. -/
def faults (v : Value) : List LogFault :=
  (requiredFields.filter fun field => (v.get? field).isNone).map .missingField ++
  (namedFields.filterMap fun (field, names) =>
    match text? v field with
    | some s => if s ∈ names then none else some (.unknownName field s)
    | none => none) ++
  (match text? v "trace_id" with
    | some s => if (traceParts s.toList).length = 3 then [] else [.badTraceId s]
    | none => []) ++
  if (v.get? "outcome").isSome && (v.get? "case_name").isNone then [.outcomeWithoutCase] else []

def entry (line : String) : Except (List LogFault) LogEntry :=
  match Value.ofText? line with
  | none => .error [.invalidJson]
  | some (.object fields) =>
    let v := Value.object fields
    if (faults v).isEmpty then (LogEntry.ofJson v).mapError fun f => [.unreadable f]
    else .error (faults v)
  | some _ => .error [.notAnObject]

def violations (number : Nat) (line : String) : List LogViolation :=
  match entry line with
  | .ok _ => []
  | .error fs => fs.map (LogViolation.mk number)

/-- How many lines of a log are not blank, and all their violations. Blank lines are numbered like
the others. -/
def validate (content : String) : Nat × List LogViolation :=
  let numbered := (Text.lines content.toList).zipIdx 1
  let trimmed := numbered.map fun (line, number) => (Text.trim line, number)
  let kept := trimmed.filter fun (line, _) => !line.isEmpty
  (kept.length, kept.flatMap fun (line, number) => violations number (.ofList line))

end LogValidation
end Printf
