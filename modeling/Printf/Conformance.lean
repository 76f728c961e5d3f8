import Printf.Calendar
import Printf.Files
import Printf.Report.Markdown
import Printf.Sha256

/-! Conformance runs: all files of cases in a directory, in the order of their names, and the verdict
on what came out. -/
namespace Printf

inductive RunFailure where
  | file (e : FileError)
  | fixture (path : String) (fault : Json.Fault Json.Position)
  | noFixtures (directory : String)
  | invalidArgument (raw : String)
  | casesFailed (failed total : Nat)
  /-- No failure that a caller could look at: the program ends here. -/
  | panicked (p : Panic)
  deriving DecidableEq, Repr

namespace RunFailure

def message : RunFailure → String
  | file e => "io: " ++ e.message
  | fixture path (.mismatch m place) =>
    path ++ ": " ++ m.message ++ " at line " ++ Radix.decimalText place.line ++ " column " ++
      Radix.decimalText place.column
  | fixture path (.flaw f) => path ++ ": " ++ f.message
  | noFixtures directory => "no fixture JSON files found in " ++ directory
  | invalidArgument raw =>
    "invalid argument '" ++ raw ++
      "': expected <kind>:<value> with kind one of i u c f s p, or n"
  | casesFailed failed total =>
    "conformance verification failed: " ++ Radix.decimalText failed ++ " of " ++
      Radix.decimalText total ++ " cases"
  | panicked p => p.message

end RunFailure

namespace Conformance

structure Loaded where
  path : String
  set : FixtureSet
  deriving DecidableEq, Repr

def loadFile (files : Files) (path : String) : Except RunFailure Loaded := do
  let text ← (files.readText path).mapError .file
  let set ← (FixtureSet.ofText text).mapError (.fixture path)
  return ⟨path, set⟩

/-- Loads all files of cases in a directory, in the order of their names. -/
def load (files : Files) (directory : String) : Except RunFailure (List Loaded) := do
  let names ← (files.names directory).mapError .file
  let names := names.filter fun name => Path.extension? name = some "json"
  if names = [] then throw (.noFixtures directory)
  names.mapM fun name => loadFile files (Path.join directory name)

def digest (files : Files) (l : Loaded) : Except FileError FixtureDigest := do
  let content ← files.read l.path
  return {
    path := l.path, family := l.set.family, version := l.set.version,
    cases := l.set.cases.length, sha256 := Sha256.hexDigits (Sha256.digest content) }

def verdict (s : VerificationSummary) : Except RunFailure Unit :=
  if s.allPassed then .ok () else .error (.casesFailed s.failed s.total)

end Conformance
end Printf
