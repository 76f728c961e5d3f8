import Printf.Fixture.Run

/-! Conformance reports: what was run, from which files, and with what results. A report has a
document and a page of text. -/
namespace Printf

structure VerificationSummary where
  total : Nat
  passed : Nat
  failed : Nat
  skipped : Nat
  results : List VerificationResult
  deriving DecidableEq, Repr

structure FixtureDigest where
  path : String
  family : String
  version : String
  cases : Nat
  sha256 : String
  deriving DecidableEq, Repr

structure ConformanceReport where
  title : String
  features : List String
  timestamp : String
  fixtures : List FixtureDigest
  summary : VerificationSummary
  deriving DecidableEq, Repr

namespace VerificationSummary

def ofResults (results : List VerificationResult) (skipped : Nat) : VerificationSummary :=
  let passed := results.countP (·.passed)
  { total := results.length, passed, failed := results.length - passed, skipped, results }

def allPassed (s : VerificationSummary) : Bool := s.failed == 0

def failures (s : VerificationSummary) : List VerificationResult :=
  s.results.filter fun r => !r.passed

end VerificationSummary

open Json (Reader Schema Value)

def Json.nullable (v : Option Value) : Value := v.getD .null

namespace VerificationResult

def schema : Schema :=
  ⟨"VerificationResult", ["case_name", "section", "passed", "expected", "actual",
    "expected_return", "actual_return", "diff"]⟩

def toJson (r : VerificationResult) : Value :=
  .object [("case_name", .string r.caseName), ("section", .string r.clause),
    ("passed", .bool r.passed), ("expected", .string r.expected), ("actual", .string r.actual),
    ("expected_return", Json.nullable (r.expectedReturn.map .nat)),
    ("actual_return", .nat r.actualReturn), ("diff", Json.nullable (r.diff.map .string))]

def read : Reader VerificationResult :=
  Reader.record schema fun r => VerificationResult.mk
    <$> r.field "case_name" .string
    <*> r.field "section" .string
    <*> r.field "passed" .bool
    <*> r.field "expected" .string
    <*> r.field "actual" .string
    <*> r.optional "expected_return" .size
    <*> r.field "actual_return" .size
    <*> r.optional "diff" .string

end VerificationResult

namespace VerificationSummary

def schema : Schema :=
  ⟨"VerificationSummary", ["total", "passed", "failed", "skipped", "results"]⟩

def toJson (s : VerificationSummary) : Value :=
  .object [("total", .nat s.total), ("passed", .nat s.passed), ("failed", .nat s.failed),
    ("skipped", .nat s.skipped), ("results", .array (s.results.map VerificationResult.toJson))]

def read : Reader VerificationSummary :=
  Reader.record schema fun r => VerificationSummary.mk
    <$> r.field "total" .size
    <*> r.field "passed" .size
    <*> r.field "failed" .size
    <*> r.field "skipped" .size
    <*> r.field "results" (.list VerificationResult.read)

end VerificationSummary

namespace FixtureDigest

def schema : Schema := ⟨"FixtureDigest", ["path", "family", "version", "cases", "sha256"]⟩

def toJson (d : FixtureDigest) : Value :=
  .object [("path", .string d.path), ("family", .string d.family), ("version", .string d.version),
    ("cases", .nat d.cases), ("sha256", .string d.sha256)]

def read : Reader FixtureDigest :=
  Reader.record schema fun r => FixtureDigest.mk
    <$> r.field "path" .string
    <*> r.field "family" .string
    <*> r.field "version" .string
    <*> r.field "cases" .size
    <*> r.field "sha256" .string

end FixtureDigest

namespace ConformanceReport

def schema : Schema :=
  ⟨"ConformanceReport", ["title", "features", "timestamp", "fixtures", "summary"]⟩

def toJson (r : ConformanceReport) : Value :=
  .object [("title", .string r.title), ("features", Json.strings r.features),
    ("timestamp", .string r.timestamp),
    ("fixtures", .array (r.fixtures.map FixtureDigest.toJson)), ("summary", r.summary.toJson)]

def read : Reader ConformanceReport :=
  Reader.record schema fun r => ConformanceReport.mk
    <$> r.field "title" .string
    <*> r.field "features" (.list .string)
    <*> r.field "timestamp" .string
    <*> r.field "fixtures" (.list FixtureDigest.read)
    <*> r.field "summary" VerificationSummary.read

def toText (r : ConformanceReport) : String := r.toJson.pretty

def ofText (text : String) : Except (Json.Fault Json.Position) ConformanceReport := Reader.document read text

end ConformanceReport
end Printf
