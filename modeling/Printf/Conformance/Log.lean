import Printf.Conformance
import Printf.Log.Emitter

/-! The log of a conformance run: for each set the skipped cases, then the results, and one entry
for the run as a whole. -/
namespace Printf.Conformance

def skippedEntry (now : Instant) (s : FixtureSet) (c : FixtureCase) : LogEntry :=
  { timestamp := now.text, traceId := "", level := .info, event := "case_skipped"
    stream := some .conformance, family := some s.family
    caseName := some c.name, format := some c.format, outcome := some .skip
    details := some (.object [("requires", Json.strings c.requires)]) }

def resultEntry (now : Instant) (l : Loaded) (c : FixtureCase) (r : VerificationResult) :
    LogEntry :=
  { timestamp := now.text, traceId := "", level := if r.passed then .info else .error
    event := "case_result"
    stream := some .conformance, family := some l.set.family
    caseName := some r.caseName, format := some c.format
    outcome := some (if r.passed then .pass else .fail)
    expected := some r.expected, actual := some r.actual, returned := some r.actualReturn
    artifactRefs := some [l.path] }

def skippedEntries (features : Features) (now : Instant) (l : Loaded) : List LogEntry :=
  (l.set.skipped features).map (skippedEntry now l.set)

/-- The entries of results, each with the case that stands in its place among those that can be run. -/
def resultEntries (features : Features) (now : Instant) (l : Loaded)
    (results : List VerificationResult) : List LogEntry :=
  (results.zip (l.set.supported features)).map fun (r, c) => resultEntry now l c r

/-- A duration that does not fit its word is shown as the largest one. -/
def completeEntry (now : Instant) (elapsedMs : Nat) (s : VerificationSummary) : LogEntry :=
  { timestamp := now.text, traceId := "", level := .info, event := "run_complete"
    stream := some .conformance, durationMs := some (min elapsedMs (UInt64.size - 1))
    details := some (.ofFields [("total", .nat s.total), ("passed", .nat s.passed),
      ("failed", .nat s.failed), ("skipped", .nat s.skipped)]) }

/-- A log over a file. Its lines are kept back until it is flushed; nothing looks at the file before,
unless it is also a file of cases. -/
structure LogFile where
  path : String
  emitter : LogEmitter

def LogFile.emitAll (log : LogFile) (entries : List LogEntry) : LogFile :=
  { log with emitter := log.emitter.emitAll entries }

def LogFile.flush (log : LogFile) (files : Files) : Except FileError Files :=
  files.write log.path (utf8 log.emitter.text)

end Printf.Conformance
