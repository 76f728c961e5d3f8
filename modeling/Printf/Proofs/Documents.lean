import Printf.Proofs.JsonDocuments

/-! Sets of cases and reports are read back from their documents. Each record is the object of its
columns, in which an optional field may be left out or be null; the numbers in it are those of machine
words, and only a double that is spelled in decimal is not covered. -/
namespace Printf

open Json (Recovers Value Reader FieldGives)

namespace FixtureArg

/-- The content of an argument is made of what is recovered from it. -/
theorem content_given {β : Type} {read : Reader β} {v : Value} {b : β} (recovers : Recovers read v b)
    (make : β → FixtureArg) (t : Json.Tree) (holds : t.Holds v) :
    (do return make (← Reader.content read (.given t))) = Except.ok (make b) := by
  rw [Reader.content, recovers.given holds]
  rfl

theorem recovers (a : FixtureArg) (spelled : ∀ x, a ≠ .float x) : Recovers read a.toJson a := by
  cases a with
  | float x => exact absurd rfl (spelled x)
  | int v =>
    exact .choice (by decide) (Recovers.int64 v).numbers (content_given (.int64 v) .int)
  | uint v =>
    exact .choice (by decide) (Recovers.uint64 "u64" v).numbers (content_given (.uint64 _ v) .uint)
  | char c =>
    exact .choice (by decide) (Recovers.uint8 c).numbers (content_given (.uint8 c) .char)
  | floatBits bits =>
    exact .choice (by decide) (Recovers.uint64 "u64" bits).numbers
      (content_given (.uint64 _ bits) .floatBits)
  | str s =>
    exact .choice (by decide) (Recovers.string s).numbers (content_given (.string s) .str)
  | ptr address =>
    exact .choice (by decide) (Recovers.uint64 "usize" address).numbers
      (content_given (.uint64 _ address) .ptr)
  | count =>
    refine ⟨.string "count", ?_⟩
    intro t holds
    cases holds
    rfl

end FixtureArg

namespace FixtureCase

/-- Arguments other than decimal doubles, and sizes that fit a machine word. -/
structure Storable (c : FixtureCase) : Prop where
  args : ∀ a ∈ c.args, ∀ x, a ≠ .float x
  capacity : ∀ n ∈ c.capacity, n < UInt64.size
  expectedReturn : ∀ n ∈ c.expectedReturn, n < UInt64.size

def columns (c : FixtureCase) : List (String × Option Value) :=
  [("name", some (.string c.name)), ("section", some (.string c.clause)),
    ("format", some (.string c.format)), ("args", some (.array (c.args.map FixtureArg.toJson))),
    ("capacity", c.capacity.map .nat), ("expected_output", some (.string c.expectedOutput)),
    ("expected_return", c.expectedReturn.map .nat),
    ("requires", if c.requires = [] then none else some (Json.strings c.requires))]

theorem toJson_columns (c : FixtureCase) : c.toJson = .object (Json.written c.columns) := by
  rw [toJson]
  split
  · next none => simp [columns, Json.written, Json.optionalField, none]
  · next some => simp [columns, Json.written, Json.optionalField, some]

end FixtureCase

theorem FixtureCase.recovers {c : FixtureCase} (storable : c.Storable) :
    Recovers read c.toJson c := by
  have args : FieldGives (some []) (.list FixtureArg.read) c.args
      (some (.array (c.args.map FixtureArg.toJson))) :=
    Recovers.list fun a member => a.recovers (storable.args a member)
  have capacity : FieldGives (some none) (.option .size) c.capacity (c.capacity.map .nat) :=
    .optional fun n member => ⟨.size (storable.capacity n member), nofun⟩
  have expectedReturn : FieldGives (some none) (.option .size) c.expectedReturn
      (c.expectedReturn.map .nat) :=
    .optional fun n member => ⟨.size (storable.expectedReturn n member), nofun⟩
  have requires : FieldGives (some []) (.list .string) c.requires
      (if c.requires = [] then none else some (Json.strings c.requires)) := by
    split
    · next none => exact congrArg some none.symm
    · exact Recovers.strings c.requires
  rw [toJson_columns]
  refine Recovers.record c.columns schema rfl (by decide) ?_ fun r field => ?_
  · simp only [columns, List.forall_mem_cons]
    exact ⟨(FieldGives.text none c.name).numbers, (FieldGives.text none c.clause).numbers,
      (FieldGives.text none c.format).numbers, args.numbers, capacity.numbers,
      (FieldGives.text none c.expectedOutput).numbers, expectedReturn.numbers, requires.numbers,
      List.forall_mem_nil _⟩
  · simp only [Json.Record.field, Json.Record.defaulted,
      field "name" rfl (.text none c.name), field "section" rfl (.text (some "") c.clause),
      field "format" rfl (.text none c.format), field "args" rfl args,
      field "capacity" rfl capacity, field "expected_output" rfl (.text none c.expectedOutput),
      field "expected_return" rfl expectedReturn, field "requires" rfl requires]
    rfl

namespace FixtureSet

def columns (s : FixtureSet) : List (String × Option Value) :=
  [("version", some (.string s.version)), ("family", some (.string s.family)),
    ("captured_at", some (.string s.capturedAt)),
    ("cases", some (.array (s.cases.map FixtureCase.toJson)))]

theorem recovers {s : FixtureSet} (storable : ∀ c ∈ s.cases, c.Storable) :
    Recovers read s.toJson s := by
  have cases : FieldGives none (.list FixtureCase.read) s.cases
      (some (.array (s.cases.map FixtureCase.toJson))) :=
    Recovers.list fun c member => FixtureCase.recovers (storable c member)
  refine Recovers.record s.columns schema rfl (by decide) ?_ fun r field => ?_
  · simp only [columns, List.forall_mem_cons]
    exact ⟨(FieldGives.text none s.version).numbers, (FieldGives.text none s.family).numbers,
      (FieldGives.text none s.capturedAt).numbers, cases.numbers, List.forall_mem_nil _⟩
  · simp only [Json.Record.field, field "version" rfl (.text none s.version),
      field "family" rfl (.text none s.family), field "captured_at" rfl (.text none s.capturedAt),
      field "cases" rfl cases]
    rfl

end FixtureSet

namespace VerificationResult

structure Storable (r : VerificationResult) : Prop where
  expectedReturn : ∀ n ∈ r.expectedReturn, n < UInt64.size
  actualReturn : r.actualReturn < UInt64.size

def columns (r : VerificationResult) : List (String × Option Value) :=
  [("case_name", some (.string r.caseName)), ("section", some (.string r.clause)),
    ("passed", some (.bool r.passed)), ("expected", some (.string r.expected)),
    ("actual", some (.string r.actual)),
    ("expected_return", some (Json.nullable (r.expectedReturn.map .nat))),
    ("actual_return", some (.nat r.actualReturn)),
    ("diff", some (Json.nullable (r.diff.map .string)))]

theorem recovers {x : VerificationResult} (storable : x.Storable) : Recovers read x.toJson x := by
  have passed : FieldGives none .bool x.passed (some (.bool x.passed)) := Recovers.bool x.passed
  have expectedReturn : FieldGives (some none) (.option .size) x.expectedReturn
      (some (Json.nullable (x.expectedReturn.map .nat))) :=
    Recovers.nullable fun n member => ⟨.size (storable.expectedReturn n member), nofun⟩
  have diff : FieldGives (some none) (.option .string) x.diff
      (some (Json.nullable (x.diff.map .string))) :=
    Recovers.nullable fun s _ => ⟨.string s, nofun⟩
  refine Recovers.record x.columns schema rfl (by decide) ?_ fun r field => ?_
  · simp only [columns, List.forall_mem_cons]
    exact ⟨(FieldGives.text none x.caseName).numbers, (FieldGives.text none x.clause).numbers,
      passed.numbers, (FieldGives.text none x.expected).numbers,
      (FieldGives.text none x.actual).numbers, expectedReturn.numbers,
      (FieldGives.size storable.actualReturn).numbers, diff.numbers, List.forall_mem_nil _⟩
  · simp only [Json.Record.field, Json.Record.optional,
      field "case_name" rfl (.text none x.caseName), field "section" rfl (.text none x.clause),
      field "passed" rfl passed, field "expected" rfl (.text none x.expected),
      field "actual" rfl (.text none x.actual), field "expected_return" rfl expectedReturn,
      field "actual_return" rfl (.size storable.actualReturn), field "diff" rfl diff]
    rfl

end VerificationResult

namespace VerificationSummary

structure Storable (s : VerificationSummary) : Prop where
  total : s.total < UInt64.size
  passed : s.passed < UInt64.size
  failed : s.failed < UInt64.size
  skipped : s.skipped < UInt64.size
  results : ∀ r ∈ s.results, r.Storable

def columns (s : VerificationSummary) : List (String × Option Value) :=
  [("total", some (.nat s.total)), ("passed", some (.nat s.passed)),
    ("failed", some (.nat s.failed)), ("skipped", some (.nat s.skipped)),
    ("results", some (.array (s.results.map VerificationResult.toJson)))]

theorem recovers {s : VerificationSummary} (storable : s.Storable) : Recovers read s.toJson s := by
  have results : FieldGives none (.list VerificationResult.read) s.results
      (some (.array (s.results.map VerificationResult.toJson))) :=
    Recovers.list fun r member => VerificationResult.recovers (storable.results r member)
  refine Recovers.record s.columns schema rfl (by decide) ?_ fun r field => ?_
  · simp only [columns, List.forall_mem_cons]
    exact ⟨(FieldGives.size storable.total).numbers, (FieldGives.size storable.passed).numbers,
      (FieldGives.size storable.failed).numbers, (FieldGives.size storable.skipped).numbers,
      results.numbers, List.forall_mem_nil _⟩
  · simp only [Json.Record.field, field "total" rfl (.size storable.total),
      field "passed" rfl (.size storable.passed), field "failed" rfl (.size storable.failed),
      field "skipped" rfl (.size storable.skipped), field "results" rfl results]
    rfl

end VerificationSummary

namespace FixtureDigest

def columns (d : FixtureDigest) : List (String × Option Value) :=
  [("path", some (.string d.path)), ("family", some (.string d.family)),
    ("version", some (.string d.version)), ("cases", some (.nat d.cases)),
    ("sha256", some (.string d.sha256))]

theorem recovers {d : FixtureDigest} (small : d.cases < UInt64.size) : Recovers read d.toJson d := by
  refine Recovers.record d.columns schema rfl (by decide) ?_ fun r field => ?_
  · simp only [columns, List.forall_mem_cons]
    exact ⟨(FieldGives.text none d.path).numbers, (FieldGives.text none d.family).numbers,
      (FieldGives.text none d.version).numbers, (FieldGives.size small).numbers,
      (FieldGives.text none d.sha256).numbers, List.forall_mem_nil _⟩
  · simp only [Json.Record.field, field "path" rfl (.text none d.path),
      field "family" rfl (.text none d.family), field "version" rfl (.text none d.version),
      field "cases" rfl (.size small), field "sha256" rfl (.text none d.sha256)]
    rfl

end FixtureDigest

namespace ConformanceReport

structure Storable (r : ConformanceReport) : Prop where
  fixtures : ∀ d ∈ r.fixtures, d.cases < UInt64.size
  summary : r.summary.Storable

def columns (r : ConformanceReport) : List (String × Option Value) :=
  [("title", some (.string r.title)), ("features", some (Json.strings r.features)),
    ("timestamp", some (.string r.timestamp)),
    ("fixtures", some (.array (r.fixtures.map FixtureDigest.toJson))),
    ("summary", some r.summary.toJson)]

theorem recovers {x : ConformanceReport} (storable : x.Storable) : Recovers read x.toJson x := by
  have features : FieldGives none (.list .string) x.features (some (Json.strings x.features)) :=
    Recovers.strings x.features
  have fixtures : FieldGives none (.list FixtureDigest.read) x.fixtures
      (some (.array (x.fixtures.map FixtureDigest.toJson))) :=
    Recovers.list fun d member => FixtureDigest.recovers (storable.fixtures d member)
  have summary : FieldGives none VerificationSummary.read x.summary (some x.summary.toJson) :=
    VerificationSummary.recovers storable.summary
  refine Recovers.record x.columns schema rfl (by decide) ?_ fun r field => ?_
  · simp only [columns, List.forall_mem_cons]
    exact ⟨(FieldGives.text none x.title).numbers, features.numbers,
      (FieldGives.text none x.timestamp).numbers, fixtures.numbers, summary.numbers,
      List.forall_mem_nil _⟩
  · simp only [Json.Record.field, field "title" rfl (.text none x.title),
      field "features" rfl features, field "timestamp" rfl (.text none x.timestamp),
      field "fixtures" rfl fixtures, field "summary" rfl summary]
    rfl

end ConformanceReport

/-- What is written is read back: sets of cases with any texts and integers, doubles by their bits, and
optional fields that are given, empty or left out; and whole reports, in which an optional field is
null or given. Sizes and counts are those of a machine word. -/
theorem documents_read_back (s : FixtureSet) (r : ConformanceReport)
    (storable : ∀ c ∈ s.cases, c.Storable) (counted : r.Storable) :
    FixtureSet.ofText s.toText = .ok s ∧ ConformanceReport.ofText r.toText = .ok r :=
  ⟨(FixtureSet.recovers storable).document, (ConformanceReport.recovers counted).document⟩

/-- Integers at the ends of their ranges, a NaN, a text that has to be escaped, and fields that are
empty, null and left out. -/
theorem documents_read_back_extremes :
    let c : FixtureCase := {
      name := "\"\u0001\n", format := "%n"
      args := [.int (-0x8000000000000000), .uint 0xffffffffffffffff, .floatBits 0x7ff8000000000000,
        .str "\\", .count]
      capacity := some 0xffffffffffffffff, expectedOutput := "" }
    let s : FixtureSet := ⟨"1", "", "", [c]⟩
    let result : VerificationResult := ⟨"", "", false, "a", "\t", none, 0xffffffffffffffff, some ""⟩
    let r : ConformanceReport := ⟨"", [], "", [⟨"a.json", "", "", 0, ""⟩], ⟨1, 0, 1, 0, [result]⟩⟩
    (∀ c ∈ s.cases, c.Storable) ∧ r.Storable ∧
    FixtureSet.ofText s.toText = .ok s ∧ ConformanceReport.ofText r.toText = .ok r := by
  intro c s result r
  have storable : c.Storable :=
    { args := by simp [c]
      capacity := by rintro n ⟨⟩; decide
      expectedReturn := nofun }
  have counted : result.Storable := ⟨nofun, by decide⟩
  have stored : ∀ c ∈ s.cases, c.Storable := List.forall_mem_singleton.mpr storable
  have reported : r.Storable :=
    { fixtures := List.forall_mem_singleton.mpr (by decide)
      summary := ⟨by decide, by decide, by decide, by decide, List.forall_mem_singleton.mpr counted⟩ }
  exact ⟨stored, reported, documents_read_back s r stored reported⟩

end Printf
