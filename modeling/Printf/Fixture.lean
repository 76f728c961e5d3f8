import Printf.Fixture.Argument

/-! Sets of test cases for the formatter, and the documents that hold them. -/
namespace Printf

structure FixtureCase where
  name : String
  /-- The clause of the standard that the case is about. -/
  clause : String := ""
  format : String
  args : List FixtureArg := []
  /-- The size of the destination; large enough if absent. -/
  capacity : Option Nat := none
  expectedOutput : String
  expectedReturn : Option Nat := none
  /-- Features without which the case is skipped. -/
  requires : List String := []
  deriving DecidableEq, Repr

structure FixtureSet where
  version : String
  family : String
  capturedAt : String
  cases : List FixtureCase
  deriving DecidableEq, Repr

open Json (Reader Schema Record Value)

/-- A field that is written only if there is a value. -/
def Json.optionalField (name : String) (v : Option Value) : List (String × Value) :=
  v.toList.map fun v => (name, v)

def Json.strings (texts : List String) : Value := .array (texts.map .string)

namespace FixtureCase

def schema : Schema :=
  ⟨"FixtureCase", ["name", "section", "format", "args", "capacity", "expected_output",
    "expected_return", "requires"]⟩

def toJson (c : FixtureCase) : Value :=
  .object <|
    [("name", .string c.name), ("section", .string c.clause), ("format", .string c.format),
      ("args", .array (c.args.map FixtureArg.toJson))] ++
    Json.optionalField "capacity" (c.capacity.map .nat) ++
    [("expected_output", .string c.expectedOutput)] ++
    Json.optionalField "expected_return" (c.expectedReturn.map .nat) ++
    if c.requires = [] then [] else [("requires", Json.strings c.requires)]

def read : Reader FixtureCase :=
  Reader.record schema fun r => FixtureCase.mk
    <$> r.field "name" .string
    <*> r.defaulted "section" "" .string
    <*> r.field "format" .string
    <*> r.defaulted "args" [] (.list FixtureArg.read)
    <*> r.defaulted "capacity" none (.option .size)
    <*> r.field "expected_output" .string
    <*> r.defaulted "expected_return" none (.option .size)
    <*> r.defaulted "requires" [] (.list .string)

end FixtureCase

namespace FixtureSet

def schema : Schema := ⟨"FixtureSet", ["version", "family", "captured_at", "cases"]⟩

def toJson (s : FixtureSet) : Value :=
  .object [("version", .string s.version), ("family", .string s.family),
    ("captured_at", .string s.capturedAt), ("cases", .array (s.cases.map FixtureCase.toJson))]

def read : Reader FixtureSet :=
  Reader.record schema fun r => FixtureSet.mk
    <$> r.field "version" .string
    <*> r.field "family" .string
    <*> r.field "captured_at" .string
    <*> r.field "cases" (.list FixtureCase.read)

def toText (s : FixtureSet) : String := s.toJson.pretty

def ofText (text : String) : Except (Json.Fault Json.Position) FixtureSet := Reader.document read text

end FixtureSet
end Printf
