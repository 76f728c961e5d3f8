import Printf.Log.Validation
import Printf.Proofs.JsonReading
import Printf.Proofs.JsonRecords
import Printf.Proofs.JsonSpelling

/-! Log entries as the fields of their documents. -/
namespace Printf

open Json (Value Reader Record Tree Result)

namespace Json.Reader

variable {α : Type} {P : Value → Prop}

def unit? : Value → Option Unit
  | .null => some ()
  | _ => none

theorem reads_unit : Reads P Reader.unit unit? := by
  intro t v holds _
  cases holds <;> rfl

def named? (values : List α) (name : α → String) : Value → Option α
  | .string s => values.find? fun a => name a = s
  | .object [(k, v)] => do
    let a ← values.find? fun a => name a = k
    unit? v
    return a
  | _ => none

theorem toOption_find (found : Option α) (m : Json.Mismatch) (left : List Char) :
    (match found with
      | some a => .ok a
      | none => Json.mismatch m left : Result α).toOption = found := by
  cases found <;> rfl

theorem reads_named (values : List α) (name : α → String) :
    Reads P (Reader.named values name) (named? values name) := by
  intro t v holds _
  cases holds with
  | string s rest => exact toOption_find _ _ _
  | object start rest entries =>
    cases entries with
    | nil => rfl
    | @cons content v _ _ k left field more =>
      cases more with
      | cons => rfl
      | nil =>
        have unit : (Reader.unit content).toOption = unit? v :=
          reads_unit (P := fun _ => True) field trivial
        show ((match values.find? fun a => name a = k with
            | some a => .ok a
            | none => Json.mismatch (.variant k (values.map name)) left : Result α) >>= fun a => do
          Reader.unit content
          return a).toOption = _
        rw [toOption_bind, toOption_find]
        simp only [named?, toOption_bind, unit]
        rfl
  | _ => rfl

end Json.Reader

namespace LogValidation

/-- What the rules for objects say. -/
theorem faults_eq_nil_iff {v : Value} : faults v = [] ↔
    (∀ field ∈ requiredFields, (v.get? field).isSome) ∧
    (∀ named ∈ namedFields, ∀ s ∈ text? v named.1, s ∈ named.2) ∧
    (∀ s ∈ text? v "trace_id", (traceParts s.toList).length = 3) ∧
    ((v.get? "outcome").isSome → (v.get? "case_name").isSome) := by
  have required : (requiredFields.filter fun field => (v.get? field).isNone).map
      LogFault.missingField = [] ↔ ∀ field ∈ requiredFields, (v.get? field).isSome := by
    simp [List.filter_eq_nil_iff, ← Option.isSome_iff_ne_none]
  have joined : (if (v.get? "outcome").isSome && (v.get? "case_name").isNone
      then [LogFault.outcomeWithoutCase] else []) = [] ↔
      ((v.get? "outcome").isSome → (v.get? "case_name").isSome) := by
    cases v.get? "outcome" <;> cases v.get? "case_name" <;> simp
  simp only [faults, List.append_eq_nil_iff, List.filterMap_eq_nil_iff, required, joined, and_assoc]
  refine and_congr Iff.rfl (and_congr ?_ (and_congr ?_ Iff.rfl))
  · refine forall₂_congr fun named _ => ?_
    cases text? v named.1 <;> simp
  · cases text? v "trace_id" <;> simp

end LogValidation

namespace LogEntry

open Json.Record (required? optional?)

structure ReadFrom (e : LogEntry) (fields : List (String × Value)) : Prop where
  timestamp : required? fields "timestamp" Value.string? = some e.timestamp
  traceId : required? fields "trace_id" Value.string? = some e.traceId
  level : required? fields "level" (Reader.named? LogLevel.all LogLevel.name) = some e.level
  event : required? fields "event" Value.string? = some e.event
  campaign : optional? fields "campaign" Value.string? = some e.campaign
  stream : optional? fields "stream" (Reader.named? LogStream.all LogStream.name) = some e.stream
  family : optional? fields "family" Value.string? = some e.family
  caseName : optional? fields "case_name" Value.string? = some e.caseName
  format : optional? fields "format" Value.string? = some e.format
  outcome : optional? fields "outcome" (Reader.named? LogOutcome.all LogOutcome.name) = some e.outcome
  expected : optional? fields "expected" Value.string? = some e.expected
  actual : optional? fields "actual" Value.string? = some e.actual
  returned : optional? fields "returned" Reader.natural? = some e.returned
  durationMs : optional? fields "duration_ms" Reader.natural? = some e.durationMs
  artifactRefs : optional? fields "artifact_refs" (Reader.list? Value.string?) = some e.artifactRefs
  details : optional? fields "details" some = some e.details

/-- A value that is no deeper and no less ordered than a reader allows. -/
def Readable (v : Value) : Prop := v.Fits (fun _ => True) Tree.maxDepth

theorem reads_value : Reader.Reads Readable Reader.value some := by
  intro t v holds fits
  rw [Reader.value, holds.value fits]
  rfl

theorem toOption_read {entries : List (Tree × Tree)} {fields : List (String × Value)}
    (holds : Tree.HoldFields entries fields) (nodup : (fields.map Prod.fst).Nodup)
    (readable : ∀ f ∈ fields, Readable f.2) (start rest : List Char) (e : LogEntry) :
    (read (.object start entries (.ok rest))).toOption = some e ↔ e.ReadFrom fields := by
  have string : Reader.Reads Readable .string Value.string? := Reader.reads_string
  have strings : Reader.Reads Readable (.list .string) (Reader.list? Value.string?) :=
    Reader.reads_string.list (Q := fun _ => True) fun _ _ _ _ => trivial
  have size : Reader.Reads Readable .size Reader.natural? := Reader.reads_natural "usize"
  have word : Reader.Reads Readable (fun t => (Reader.uint64 t).map UInt64.toNat) Reader.natural? :=
    Reader.reads_natural "u64"
  rw [read, Reader.toOption_record holds nodup]
  have given (a : Json.Timed LogEntry) : a.toOption = some e ↔ ∃ x, a.toOption = some x ∧ x = e := by
    simp
  simp only [given, Json.Timed.exists_seq, Json.Timed.exists_map,
    Record.toOption_field holds readable string,
    Record.toOption_field holds readable (Reader.reads_named LogLevel.all LogLevel.name),
    Record.toOption_optional holds readable string,
    Record.toOption_optional holds readable (Reader.reads_named LogStream.all LogStream.name),
    Record.toOption_optional holds readable (Reader.reads_named LogOutcome.all LogOutcome.name),
    Record.toOption_optional holds readable strings,
    Record.toOption_optional holds readable reads_value,
    Record.toOption_optional holds readable size, Record.toOption_optional holds readable word]
  constructor
  · rintro ⟨_, timestamp, _, traceId, _, level, _, event, _, campaign, _, stream, _, family,
      _, caseName, _, format, _, outcome, _, expected, _, actual, _, returned, _, durationMs,
      _, artifactRefs, _, details, rfl⟩
    exact { timestamp, traceId, level, event, campaign, stream, family, caseName, format, outcome,
            expected, actual, returned, durationMs, artifactRefs, details }
  · intro h
    exact ⟨_, h.timestamp, _, h.traceId, _, h.level, _, h.event, _, h.campaign, _, h.stream,
      _, h.family, _, h.caseName, _, h.format, _, h.outcome, _, h.expected, _, h.actual,
      _, h.returned, _, h.durationMs, _, h.artifactRefs, _, h.details, rfl⟩

def columns (e : LogEntry) : List (String × Option Value) :=
  [("timestamp", some (.string e.timestamp)), ("trace_id", some (.string e.traceId)),
    ("level", some (.string e.level.name)), ("event", some (.string e.event)),
    ("campaign", e.campaign.map .string), ("stream", e.stream.map fun stream => .string stream.name),
    ("family", e.family.map .string), ("case_name", e.caseName.map .string),
    ("format", e.format.map .string), ("outcome", e.outcome.map fun outcome => .string outcome.name),
    ("expected", e.expected.map .string), ("actual", e.actual.map .string),
    ("returned", e.returned.map .nat), ("duration_ms", e.durationMs.map .nat),
    ("artifact_refs", e.artifactRefs.map Json.strings), ("details", e.details)]

def fields (e : LogEntry) : List (String × Value) := Json.written e.columns

theorem toJson_fields (e : LogEntry) : e.toJson = .object e.fields := by
  simp [toJson, fields, columns, Json.written, Json.optionalField, Function.comp_def]

theorem nodup_columns (e : LogEntry) : (e.columns.map Prod.fst).Nodup := by
  have keys : e.columns.map Prod.fst = schema.fields := rfl
  rw [keys]
  decide

theorem nodup_fields (e : LogEntry) : (e.fields.map Prod.fst).Nodup :=
  Json.nodup_written e.nodup_columns

/-- The fields of an entry are found in its document, in whatever order they stand. -/
theorem lookup_arrange (e : LogEntry) (k : String) :
    (Value.arrange e.fields).lookup k = (e.columns.lookup k).join := by
  rw [Value.lookup_arrange e.nodup_fields, fields, Json.lookup_written e.nodup_columns]

theorem required?_arrange {α : Type} (e : LogEntry) {name : String} {v : Value}
    (column : e.columns.lookup name = some (some v)) (f : Value → Option α) :
    required? (Value.arrange e.fields) name f = f v := by
  rw [required?, lookup_arrange, column]
  rfl

theorem optional?_arrange {α : Type} (e : LogEntry) {name : String} {x : Option α}
    (write : α → Value) (column : e.columns.lookup name = some (x.map write))
    {f : Value → Option α} (read : ∀ a ∈ x, Reader.option? f (write a) = some (some a)) :
    optional? (Value.arrange e.fields) name f = some x := by
  rw [optional?, lookup_arrange, column]
  cases x with
  | none => rfl
  | some a => exact read a rfl

/-- What is needed to read an entry back from its line: numbers that fit, and details other than
null that a reader can have and whose numbers read back. -/
structure Legible (e : LogEntry) : Prop where
  returned : ∀ n ∈ e.returned, n < UInt64.size
  durationMs : ∀ n ∈ e.durationMs, n < UInt64.size
  details : ∀ v ∈ e.details, v ≠ .null ∧ v.Fits Json.Number.ReadsBack (Tree.maxDepth - 1)

theorem Legible.readFrom {e : LogEntry} (legible : e.Legible) :
    e.ReadFrom (Value.arrange e.fields) where
  timestamp := (required?_arrange e rfl _).trans rfl
  traceId := (required?_arrange e rfl _).trans rfl
  level := (required?_arrange e rfl _).trans (by cases e.level <;> rfl)
  event := (required?_arrange e rfl _).trans rfl
  campaign := optional?_arrange e .string rfl fun _ _ => rfl
  stream := optional?_arrange e _ rfl fun stream _ => by cases stream <;> rfl
  family := optional?_arrange e .string rfl fun _ _ => rfl
  caseName := optional?_arrange e .string rfl fun _ _ => rfl
  format := optional?_arrange e .string rfl fun _ _ => rfl
  outcome := optional?_arrange e _ rfl fun outcome _ => by cases outcome <;> rfl
  expected := optional?_arrange e .string rfl fun _ _ => rfl
  actual := optional?_arrange e .string rfl fun _ _ => rfl
  returned := optional?_arrange e .nat rfl fun n member =>
    congrArg (Option.map some) (Reader.natural?_iff.mpr ⟨rfl, legible.returned n member⟩)
  durationMs := optional?_arrange e .nat rfl fun n member =>
    congrArg (Option.map some) (Reader.natural?_iff.mpr ⟨rfl, legible.durationMs n member⟩)
  artifactRefs := optional?_arrange e Json.strings rfl fun texts _ =>
    congrArg (Option.map some) (Reader.list?_strings texts)
  details := optional?_arrange e id (by rw [Option.map_id]; rfl) fun v member => by
    have given := (legible.details v member).1
    cases v <;> first | rfl | exact absurd rfl given

theorem ofJson_iff {fields : List (String × Value)} (ordered : Value.Ordered fields)
    (readable : ∀ f ∈ fields, Readable f.2) (e : LogEntry) :
    ofJson (.object fields) = .ok e ↔ e.ReadFrom fields := by
  rw [← toOption_read (Tree.holdFields_ofFields fields) ordered.nodup readable [] []]
  have given : Tree.object [] (Tree.ofFields fields) (.ok []) = .ofValue (.object fields) := rfl
  rw [given, ofJson]
  cases read (.ofValue (.object fields)) <;> simp [Except.mapError, Except.toOption]

theorem isWord_nat {n : Nat} (small : n < UInt64.size) : (Json.Number.int n).IsWord := by
  have lowest : Int64.minValue.toInt = -9223372036854775808 := by decide
  exact ⟨by rw [lowest]; omega, by exact_mod_cast small⟩

theorem fits_nat {n : Nat} (small : n < UInt64.size) {depth : Nat} :
    (Value.nat n).Fits Json.Number.ReadsBack depth :=
  .number (isWord_nat small).readsBack

theorem fits_strings (texts : List String) {kind : Json.Number → Prop} {depth : Nat} :
    (Json.strings texts).Fits kind (depth + 1) := by
  refine .array fun v member => ?_
  obtain ⟨s, _, rfl⟩ := List.mem_map.mp member
  exact .string s

theorem fits_map {α : Type} {x : Option α} {write : α → Value} {kind : Json.Number → Prop}
    {depth : Nat} (all : ∀ a ∈ x, (write a).Fits kind depth) :
    ∀ v ∈ x.map write, v.Fits kind depth := by
  intro v member
  obtain ⟨a, given, rfl⟩ := Option.map_eq_some_iff.mp member
  exact all a given

/-- Every value that is written can be read back. -/
theorem Legible.fits {e : LogEntry} (legible : e.Legible) :
    ∀ f ∈ e.fields, f.2.Fits Json.Number.ReadsBack (Tree.maxDepth - 1) := by
  have columns : ∀ column ∈ e.columns, ∀ v ∈ column.2,
      v.Fits Json.Number.ReadsBack (Tree.maxDepth - 1) := by
    have text (s : String) : ∀ v ∈ some (Value.string s), v.Fits Json.Number.ReadsBack 126 :=
      fun _ same => Option.some.inj same ▸ .string s
    have texts {α : Type} {x : Option α} (spell : α → String) :
        ∀ v ∈ x.map fun a => Value.string (spell a), v.Fits Json.Number.ReadsBack 126 :=
      fits_map fun a _ => .string (spell a)
    simp only [LogEntry.columns, List.forall_mem_cons]
    exact ⟨text _, text _, text _, text _, texts _, texts _, texts _, texts _, texts _, texts _, texts _,
      texts _, fits_map fun n member => fits_nat (legible.returned n member),
      fits_map fun n member => fits_nat (legible.durationMs n member),
      fits_map fun refs _ => fits_strings refs, fun v member => (legible.details v member).2, nofun⟩
  exact Json.forall_written columns

theorem Legible.readable {e : LogEntry} (legible : e.Legible) : ∀ f ∈ e.fields, Readable f.2 :=
  fun f member => ((legible.fits f member).mono fun _ _ => trivial).deeper (Nat.sub_le _ 1)

theorem Legible.ofText?_line {e : LogEntry} (legible : e.Legible) :
    Value.ofText? e.line = some (.object (Value.arrange e.fields)) := by
  rw [line, toJson_fields, Json.ofText?_object legible.fits, Value.ofFields_arrange]

open LogValidation

theorem get?_arrange (e : LogEntry) (name : String) {v : Option Value}
    (column : e.columns.lookup name = some v) :
    (Value.object (Value.arrange e.fields)).get? name = v := by
  rw [Value.get?, lookup_arrange, column]
  rfl

/-- An entry is free of faults if its trace id has three parts and its outcome belongs to a case. -/
theorem faults_arrange (e : LogEntry) (parts : (traceParts e.traceId.toList).length = 3)
    (joined : e.outcome.isSome → e.caseName.isSome) :
    faults (.object (Value.arrange e.fields)) = [] := by
  have timestamp := get?_arrange e "timestamp" rfl
  have traceId := get?_arrange e "trace_id" rfl
  have level := get?_arrange e "level" rfl
  have event := get?_arrange e "event" rfl
  have stream := get?_arrange e "stream" rfl
  have outcome := get?_arrange e "outcome" rfl
  have caseName := get?_arrange e "case_name" rfl
  refine faults_eq_nil_iff.mpr ⟨?_, ?_, ?_, ?_⟩
  · simp [requiredFields, timestamp, traceId, level, event]
  · simp only [namedFields, List.forall_mem_cons, text?, level, stream, outcome]
    refine ⟨?_, ?_, ?_, nofun⟩
    · rintro _ ⟨⟩
      cases e.level <;> decide
    · cases e.outcome with
      | none => nofun
      | some o => rintro _ ⟨⟩; cases o <;> decide
    · cases e.stream with
      | none => nofun
      | some o => rintro _ ⟨⟩; cases o <;> decide
  · rw [text?, traceId]
    rintro _ ⟨⟩
    exact parts
  · rw [outcome, caseName, Option.isSome_map, Option.isSome_map]
    exact joined

/-- The line of an entry is read back as that entry. -/
theorem Legible.entry_line {e : LogEntry} (legible : e.Legible)
    (parts : (traceParts e.traceId.toList).length = 3)
    (joined : e.outcome.isSome → e.caseName.isSome) : entry e.line = .ok e := by
  have read : ofJson (.object (Value.arrange e.fields)) = .ok e :=
    (ofJson_iff (Value.ordered_arrange _) (Value.forall_arrange legible.readable) e).mpr
      legible.readFrom
  simp only [entry, legible.ofText?_line, faults_arrange e parts joined, read]
  rfl

end LogEntry
end Printf
