import Printf.Report

/-! The page of a report, in markdown. Names are written as they are, also where they hold a
character that means something to a table. -/
namespace Printf.ConformanceReport

def row (cells : List String) : String := "| " ++ " | ".intercalate cells ++ " |\n"

def item (label value : String) : String := "- " ++ label ++ ": " ++ value ++ "\n"

def headLines (r : ConformanceReport) : List String :=
  ["# " ++ r.title ++ "\n\n",
    item "Features" (", ".intercalate r.features),
    item "Timestamp" r.timestamp,
    item "Total" (Radix.decimalText r.summary.total),
    item "Passed" (Radix.decimalText r.summary.passed),
    item "Failed" (Radix.decimalText r.summary.failed),
    item "Skipped" (Radix.decimalText r.summary.skipped),
    "\n"]

def fixtureRow (d : FixtureDigest) : String :=
  row [d.path, d.family, Radix.decimalText d.cases, "`" ++ d.sha256 ++ "`"]

def fixtureLines (r : ConformanceReport) : List String :=
  ["## Fixtures\n\n", "| File | Family | Cases | SHA-256 |\n",
    "|------|--------|-------|---------|\n"] ++ r.fixtures.map fixtureRow

def resultRow (r : VerificationResult) : String :=
  row [r.caseName, r.clause, if r.passed then "PASS" else "FAIL"]

def resultLines (r : ConformanceReport) : List String :=
  ["\n## Results\n\n", "| Case | Section | Status |\n", "|------|---------|--------|\n"] ++
    r.summary.results.map resultRow

def failureText (r : VerificationResult) : String :=
  "\n### " ++ r.caseName ++ "\n\n```\n" ++ r.diff.getD "(no diff)" ++ "\n```\n"

/-- A part that is left out if nothing failed. -/
def failureLines (r : ConformanceReport) : List String :=
  if r.summary.failures.isEmpty then []
  else "\n## Failures\n" :: r.summary.failures.map failureText

def markdown (r : ConformanceReport) : String :=
  String.join (r.headLines ++ r.fixtureLines ++ r.resultLines ++ r.failureLines)

end Printf.ConformanceReport
