import Printf.Calendar
import Printf.Log.Entry

/-! A log in progress. Trace ids are numbered from one; a number is used up also when its line is
refused, so that no number is given twice. -/
namespace Printf

structure LogEmitter where
  campaign : String
  runId : String
  /-- How many trace ids have been given. -/
  issued : Nat := 0
  /-- Whether the destination refuses lines. -/
  refusing : Bool := false
  /-- What the destination has been given. -/
  text : String := ""
  deriving Repr

namespace LogEmitter

def traceId (m : LogEmitter) (number : Nat) : String :=
  m.campaign ++ "::" ++ m.runId ++ "::" ++ Radix.paddedText 3 number

/-- Writes an entry. The answer is whether it was accepted. -/
def write (m : LogEmitter) (e : LogEntry) : Bool × LogEmitter :=
  if m.refusing then (false, m) else (true, { m with text := m.text ++ e.line ++ "\n" })

/-- Gives an entry the next trace id, if it has none, and the campaign of the log, if it has
none. -/
def complete (m : LogEmitter) (e : LogEntry) : LogEntry × LogEmitter :=
  let (e, m) :=
    if e.traceId = "" then
      ({ e with traceId := m.traceId (m.issued + 1) }, { m with issued := m.issued + 1 })
    else (e, m)
  ({ e with campaign := some (e.campaign.getD m.campaign) }, m)

def emitEntry (m : LogEmitter) (e : LogEntry) : Bool × LogEmitter :=
  let (e, m) := m.complete e
  m.write e

/-- Writes an event of the present moment with the next trace id, and returns its entry unless it
is refused. -/
def emit (m : LogEmitter) (now : Instant) (level : LogLevel) (event : String) :
    Option LogEntry × LogEmitter :=
  let number := m.issued + 1
  let e : LogEntry :=
    { timestamp := now.text, traceId := m.traceId number, level, event, campaign := m.campaign }
  let (accepted, m) := { m with issued := number }.write e
  (if accepted then some e else none, m)

/-- Writes entries to a destination that refuses none. -/
def emitAll (m : LogEmitter) (entries : List LogEntry) : LogEmitter :=
  entries.foldl (fun m e => (m.emitEntry e).2) m

end LogEmitter
end Printf
