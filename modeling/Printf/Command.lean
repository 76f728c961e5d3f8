import Printf.Conformance.Run
import Printf.Directive.Dump
import Printf.Directive.Parser
import Printf.Fixture.Spelling

/-! The command line: reading one directive, formatting once, and conformance runs over a directory
of cases. A command works on a file tree and leaves behind two texts, an exit code and a tree. -/
namespace Printf

inductive Command where
  /-- Runs the cases of a directory. -/
  | verify (fixture : String) (report : Option String) (json : Bool) (log : Option String)
  /-- Formats once and prints the output. -/
  | render (format : String) (args : List String) (capacity : Option Nat)
  /-- Reads one directive and prints its parts. -/
  | parse (directive : String)
  deriving DecidableEq, Repr

structure Surroundings where
  features : Features
  now : Instant
  processId : Nat
  /-- How long the cases take to run, in milliseconds. -/
  elapsedMs : Nat

structure Console where
  files : Files
  stdout : String := ""
  stderr : String := ""

inductive CommandError where
  | run (f : RunFailure)
  | file (e : FileError)
  | message (text : String)
  deriving DecidableEq, Repr

def CommandError.detail : CommandError → String
  | run (.file e) => "Io(" ++ e.detail ++ ")"
  | run (.fixture path (.mismatch m place)) =>
    "Fixture \x7b path: " ++ Text.quotedPath path ++ ", source: Error(" ++
      Text.quoted m.message ++ ", line: " ++ Radix.decimalText place.line ++ ", column: " ++
      Radix.decimalText place.column ++ ") \x7d"
  | run (.fixture path (.flaw f)) =>
    "Fixture \x7b path: " ++ Text.quotedPath path ++ ", source: Error(" ++
      Text.quoted f.message ++ ") \x7d"
  | run (.noFixtures directory) => "NoFixtures(" ++ Text.quotedPath directory ++ ")"
  | run (.invalidArgument raw) => "InvalidArg(" ++ Text.quoted raw ++ ")"
  | run (.casesFailed failed total) =>
    "VerificationFailed \x7b failed: " ++ Radix.decimalText failed ++ ", total: " ++
      Radix.decimalText total ++ " \x7d"
  | run (.panicked p) => p.message
  | file e => e.detail
  | message text => Text.quoted text

namespace Command

open Conformance (LogFile Progress completeEntry)

/-- Steps of a command. What was printed before an error stays printed. -/
abbrev Action := ExceptT CommandError (StateM Console)

def printLine (s : String) : Action Unit :=
  modify fun c => { c with stdout := c.stdout ++ s ++ "\n" }

def warnLine (s : String) : Action Unit :=
  modify fun c => { c with stderr := c.stderr ++ s ++ "\n" }

def orFail (wrap : ε → CommandError) : Except ε α → Action α
  | .ok a => pure a
  | .error e => throw (wrap e)

def changeFiles (change : Files → Except FileError Files) : Action Unit := do
  let files ← orFail .file (change (← get).files)
  modify fun c => { c with files }

def parseDirective (features : Features) (directive : String) : Action Unit := do
  match Directive.parse? features (utf8 directive) with
  | some (d, consumed) =>
    modify fun c => { c with stdout := c.stdout ++ d.dump }
    warnLine ("consumed=" ++ Radix.decimalText consumed)
  | none => throw (.message ("'" ++ directive ++ "' is not a valid directive"))

/-- The argument a text spells, or the failure that names the text. -/
def readArgument (raw : String) : Except RunFailure FixtureArg :=
  match FixtureArg.ofText? raw with
  | some a => .ok a
  | none => .error (.invalidArgument raw)

def renderOnce (features : Features) (format : String) (args : List String)
    (capacity : Option Nat) : Action Unit := do
  let args ← orFail .run (args.mapM readArgument)
  let case : FixtureCase := { name := "cli", format, args, capacity, expectedOutput := "" }
  let run ← orFail (.run ∘ .panicked) (case.execute features)
  printLine run.output
  warnLine ("returned=" ++ Radix.decimalText run.returned)

def campaign : String := "fixture-verify"

def reportTitle : String := "nanofmt Conformance Report"

def writeReport (path : String) (r : ConformanceReport) : Action Unit := do
  warnLine ("Writing report to " ++ path)
  if let some directory := Path.parent? path then
    changeFiles fun files => files.makeDirectories directory
  changeFiles fun files => files.write path (utf8 r.markdown)
  changeFiles fun files => files.write (Path.withExtension path "json") (utf8 r.toText)

def openLog (s : Surroundings) : Option String → Action (Option LogFile)
  | none => pure none
  | some path => do
    changeFiles fun files => files.write path []
    return some ⟨path, { campaign, runId := Radix.decimalText s.processId }⟩

def flushLog : Option LogFile → Action Unit
  | none => pure ()
  | some log => changeFiles log.flush

/-- Ends a run that is cut short. On the way out its log is flushed, as far as that can be done. -/
def cutShort (log : Option LogFile) (e : RunFailure) : Action Unit := do
  if let some log := log then
    modify fun c => { c with files := (log.flush c.files).toOption.getD c.files }
  throw (.run e)

/-- Shows and writes what a run has come to, the log in front of the report. -/
def conclude (s : Surroundings) (reportPath : Option String) (json : Bool) (progress : Progress) :
    Action Unit := do
  let report := progress.report s.features s.now reportTitle
  let count := Radix.decimalText
  warnLine ("Verification complete: total=" ++ count report.summary.total ++
    ", passed=" ++ count report.summary.passed ++ ", failed=" ++ count report.summary.failed ++
    ", skipped=" ++ count report.summary.skipped)
  flushLog (progress.log.map (·.emitAll [completeEntry s.now s.elapsedMs report.summary]))
  if let some path := reportPath then writeReport path report
  if json then printLine report.toText
  for failure in report.summary.failures do
    warnLine ("FAIL " ++ failure.caseName ++ "\n" ++ failure.diff.getD "")
  orFail .run (Conformance.verdict report.summary)

def verifyAll (s : Surroundings) (fixture : String) (reportPath : Option String) (json : Bool)
    (logPath : Option String) : Action Unit := do
  warnLine ("Verifying against fixtures in " ++ fixture)
  let loaded ← orFail .run (Conformance.load (← get).files fixture)
  let log ← openLog s logPath
  match Conformance.verifySets s.features (← get).files s.now loaded { log } with
  | (.ok (), progress) => conclude s reportPath json progress
  | (.error e, progress) => cutShort progress.log e

def action (s : Surroundings) : Command → Action Unit
  | verify fixture report json log => verifyAll s fixture report json log
  | render format args capacity => renderOnce s.features format args capacity
  | parse directive => parseDirective s.features directive

structure Outcome where
  code : Nat
  stdout : String
  stderr : String
  files : Files

/-- Runs a command. An error is shown behind everything else. -/
def run (s : Surroundings) (files : Files) (command : Command) : Outcome :=
  match (command.action s).run ⟨files, "", ""⟩ with
  | (.ok (), c) => ⟨0, c.stdout, c.stderr, c.files⟩
  | (.error (.run (.panicked p)), c) => ⟨101, c.stdout, c.stderr ++ p.message ++ "\n", c.files⟩
  | (.error e, c) => ⟨1, c.stdout, c.stderr ++ "Error: " ++ e.detail ++ "\n", c.files⟩

end Command
end Printf
