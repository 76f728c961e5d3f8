import Printf.Fixture

/-! Log entries and their documents. Absent fields are left out of a document; names of levels,
outcomes and streams are written in small letters. -/
namespace Printf

inductive LogLevel where
  | trace | debug | info | warn | error
  deriving DecidableEq, Repr

inductive LogOutcome where
  | pass | fail | skip | error
  deriving DecidableEq, Repr

inductive LogStream where
  | unit | conformance | differential | perf
  deriving DecidableEq, Repr

def LogLevel.name : LogLevel → String
  | trace => "trace"
  | debug => "debug"
  | info => "info"
  | warn => "warn"
  | error => "error"

def LogLevel.all : List LogLevel := [.trace, .debug, .info, .warn, .error]

def LogOutcome.name : LogOutcome → String
  | pass => "pass"
  | fail => "fail"
  | skip => "skip"
  | error => "error"

def LogOutcome.all : List LogOutcome := [.pass, .fail, .skip, .error]

def LogStream.name : LogStream → String
  | unit => "unit"
  | conformance => "conformance"
  | differential => "differential"
  | perf => "perf"

def LogStream.all : List LogStream := [.unit, .conformance, .differential, .perf]

structure LogEntry where
  timestamp : String
  traceId : String
  level : LogLevel
  event : String
  campaign : Option String := none
  stream : Option LogStream := none
  /-- The family of the fixtures. -/
  family : Option String := none
  caseName : Option String := none
  /-- The format under test. -/
  format : Option String := none
  outcome : Option LogOutcome := none
  expected : Option String := none
  actual : Option String := none
  returned : Option Nat := none
  durationMs : Option Nat := none
  artifactRefs : Option (List String) := none
  details : Option Json.Value := none
  deriving Repr

open Json (Reader Result Schema Value Tree Fault)

/-- Reads one of several values by name, in a document that is already a value: a string, or an
object of that name and null. -/
def Json.Reader.named (values : List α) (name : α → String) : Reader α := fun t =>
  let find (s : String) (left : List Char) : Result α :=
    match values.find? fun a => name a = s with
    | some a => .ok a
    | none => Json.mismatch (.variant s (values.map name)) left
  match t with
  | .string s => do find (← Json.sound s.content) s.rest.left
  | .object _ [(k, content)] _ => do
    let a ← find (← Json.sound k.key) k.rest.left
    Reader.unit content
    return a
  | .object start _ _ => Json.mismatch (.value .map "map with a single key") start
  | t => t.unexpected "string or map"

namespace LogEntry

def schema : Schema :=
  ⟨"LogEntry", ["timestamp", "trace_id", "level", "event", "campaign", "stream", "family",
    "case_name", "format", "outcome", "expected", "actual", "returned", "duration_ms",
    "artifact_refs", "details"]⟩

def toJson (e : LogEntry) : Value :=
  let text (name : String) (v : Option String) := Json.optionalField name (v.map .string)
  let number (name : String) (v : Option Nat) := Json.optionalField name (v.map .nat)
  .object <|
    [("timestamp", .string e.timestamp), ("trace_id", .string e.traceId),
      ("level", .string e.level.name), ("event", .string e.event)] ++
    text "campaign" e.campaign ++ text "stream" (e.stream.map LogStream.name) ++
    text "family" e.family ++ text "case_name" e.caseName ++ text "format" e.format ++
    text "outcome" (e.outcome.map LogOutcome.name) ++ text "expected" e.expected ++
    text "actual" e.actual ++ number "returned" e.returned ++
    number "duration_ms" e.durationMs ++
    Json.optionalField "artifact_refs" (e.artifactRefs.map Json.strings) ++
    Json.optionalField "details" e.details

def line (e : LogEntry) : String := e.toJson.compact

def read : Reader LogEntry :=
  Reader.record schema fun r => LogEntry.mk
    <$> r.field "timestamp" .string
    <*> r.field "trace_id" .string
    <*> r.field "level" (.named LogLevel.all LogLevel.name)
    <*> r.field "event" .string
    <*> r.optional "campaign" .string
    <*> r.optional "stream" (.named LogStream.all LogStream.name)
    <*> r.optional "family" .string
    <*> r.optional "case_name" .string
    <*> r.optional "format" .string
    <*> r.optional "outcome" (.named LogOutcome.all LogOutcome.name)
    <*> r.optional "expected" .string
    <*> r.optional "actual" .string
    <*> r.optional "returned" .size
    <*> r.optional "duration_ms" (fun t => (Reader.uint64 t).map UInt64.toNat)
    <*> r.optional "artifact_refs" (.list .string)
    <*> r.optional "details" .value

/-- The entry that a value stands for. A value has no places. -/
def ofJson (v : Value) : Except (Fault Unit) LogEntry :=
  (read (.ofValue v)).mapError (Fault.map fun _ => ())

end LogEntry
end Printf
