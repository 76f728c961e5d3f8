import Printf.Allocation
import Printf.Diff
import Printf.Fixture
import Printf.Format
import Printf.Text.Utf8

/-! Test cases run against the formatter. A case passes if the output is the expected one and the
result, where one is expected, too. A case whose destination is larger than any object ends the whole
run. -/
namespace Printf

/-- The features by the names that cases require them by. -/
def Features.names (features : Features) : List String :=
  (if features.float then ["float-specifiers"] else []) ++
    if features.c99 then ["c99-specifiers"] else []

structure CaseRun where
  output : String
  returned : Nat
  deriving DecidableEq, Repr

structure VerificationResult where
  caseName : String
  clause : String
  passed : Bool
  expected : String
  actual : String
  expectedReturn : Option Nat
  actualReturn : Nat
  diff : Option String
  deriving DecidableEq, Repr

namespace FixtureCase

/-- The arguments for the formatter. Every argument has a cell of its own number. -/
def formatArgs (c : FixtureCase) : List Arg := c.args.mapIdx fun i a => a.toArg i

def freshCells (c : FixtureCase) : List Nat := c.args.map fun _ => 0

def countTexts (c : FixtureCase) (cells : List Nat) : List String :=
  (c.args.zip cells).filterMap fun (a, n) =>
    if a = .count then some ("|n=" ++ Radix.decimalText n) else none

/-- Runs a case. Without a size for its destination the output is counted first, over the same cells. -/
def execute (features : Features) (c : FixtureCase) : Except Panic CaseRun := do
  let fmt := utf8 c.format
  let (size, cells) := match c.capacity with
    | some size => (size, c.freshCells)
    | none =>
      let counted := formatTo .counter features fmt c.formatArgs 0 c.freshCells
      (counted.written, counted.cells)
  let memory ← zeroedMemory size
  let written := formatToBuffer features memory fmt c.formatArgs cells
  return {
    output := Utf8.lossyText (untilNul written.memory.toList) ++
      String.join (c.countTexts written.cells)
    returned := written.returned }

def supported (features : Features) (c : FixtureCase) : Bool :=
  c.requires.all features.names.contains

def outputOk (c : FixtureCase) (run : CaseRun) : Bool := run.output == c.expectedOutput

def returnOk (c : FixtureCase) (run : CaseRun) : Bool := c.expectedReturn.all (· == run.returned)

/-- What a failing case has to say: the difference of the outputs, then that of the results. -/
def notes (c : FixtureCase) (run : CaseRun) : List String :=
  (if c.outputOk run then [] else [Diff.render c.expectedOutput run.output]) ++
  (match c.expectedReturn with
    | some expected =>
      if c.returnOk run then []
      else ["return value mismatch: expected=" ++ Radix.decimalText expected ++ ", actual=" ++
        Radix.decimalText run.returned]
    | none => [])

def judge (c : FixtureCase) (run : CaseRun) : VerificationResult :=
  let notes := c.notes run
  { caseName := c.name
    clause := c.clause
    passed := c.outputOk run && c.returnOk run
    expected := c.expectedOutput
    actual := run.output
    expectedReturn := c.expectedReturn
    actualReturn := run.returned
    diff := if notes.isEmpty then none else some ("\n".intercalate notes) }

def verify (features : Features) (c : FixtureCase) : Except Panic VerificationResult :=
  (c.execute features).map c.judge

end FixtureCase

namespace FixtureSet

def supported (features : Features) (s : FixtureSet) : List FixtureCase :=
  s.cases.filter (·.supported features)

def skipped (features : Features) (s : FixtureSet) : List FixtureCase :=
  s.cases.filter fun c => !c.supported features

def verify (features : Features) (s : FixtureSet) : Except Panic (List VerificationResult) :=
  (s.supported features).mapM (·.verify features)

end FixtureSet
end Printf
