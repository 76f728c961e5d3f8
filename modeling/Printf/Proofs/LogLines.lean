import Printf.Proofs.LogEntries

/-! What the validation of lines promises about the entries it accepts. -/
namespace Printf.LogValidation

open Json (Value Reader Record Tree)

/-- An accepted line is an object without faults, and its entry is read from the object's fields. -/
theorem entry_ok {line : String} {e : LogEntry} (accepted : entry line = .ok e) :
    ∃ fields, Value.ofText? line = some (.object fields) ∧ faults (.object fields) = [] ∧
      LogEntry.ofJson (.object fields) = .ok e := by
  rw [entry] at accepted
  split at accepted
  · cases accepted
  · next fields read =>
    dsimp only at accepted
    split at accepted
    · next faultless =>
      refine ⟨fields, read, List.isEmpty_iff.mp faultless, ?_⟩
      cases given : LogEntry.ofJson (.object fields) with
      | error f => rw [given] at accepted; cases accepted
      | ok e' => rw [given] at accepted; cases accepted; rfl
    · cases accepted
  · cases accepted

/-- The fields of the object of an accepted line, and what is known about them. -/
structure Accepted (line : String) (e : LogEntry) (fields : List (String × Value)) : Prop where
  read : Value.ofText? line = some (.object fields)
  fits : ∀ f ∈ fields, f.2.Fits Json.Number.IsRead (Tree.maxDepth - 1)
  faultless : faults (.object fields) = []
  given : e.ReadFrom fields

theorem accepted_of_entry {line : String} {e : LogEntry} (accepted : entry line = .ok e) :
    ∃ fields, Accepted line e fields := by
  obtain ⟨fields, read, faultless, given⟩ := entry_ok accepted
  obtain ⟨ordered, fits⟩ := (Json.ofText?_fits read).of_object
  have readable : ∀ f ∈ fields, LogEntry.Readable f.2 := fun f member =>
    ((fits f member).mono fun _ _ => trivial).deeper (Nat.sub_le _ 1)
  exact ⟨fields, read, fits, faultless, (LogEntry.ofJson_iff ordered readable e).mp given⟩

section
variable {line : String} {e : LogEntry} {fields : List (String × Value)}

theorem Accepted.parts (accepted : Accepted line e fields) :
    (traceParts e.traceId.toList).length = 3 :=
  (faults_eq_nil_iff.mp accepted.faultless).2.2.1 e.traceId accepted.given.traceId

/-- Only a case name that is null lets an outcome pass without a case. -/
theorem Accepted.joined (accepted : Accepted line e fields)
    (named : fields.lookup "case_name" ≠ some .null) (judged : e.outcome.isSome) :
    e.caseName.isSome := by
  obtain ⟨outcome, some⟩ := Option.isSome_iff_exists.mp judged
  have outcomeField := accepted.given.outcome
  rw [some] at outcomeField
  obtain ⟨v, found, _⟩ := Record.optional?_some_iff.mp outcomeField
  have present := (faults_eq_nil_iff.mp accepted.faultless).2.2.2
    (Option.isSome_iff_exists.mpr ⟨v, found⟩)
  cases missing : e.caseName with
  | some name => rfl
  | none =>
    have caseField := accepted.given.caseName
    rw [missing] at caseField
    rcases Record.optional?_none_iff.mp caseField with absent | null
    · have : ((Value.object fields).get? "case_name") = none := absent
      rw [this] at present
      cases present
    · exact absurd null named

theorem small_of_natural {name : String} {x : Option Nat}
    (given : Record.optional? fields name Reader.natural? = some x) : ∀ n ∈ x, n < UInt64.size := by
  rintro n ⟨⟩
  obtain ⟨v, _, _, natural⟩ := Record.optional?_some_iff.mp given
  exact (Reader.natural?_iff.mp natural).2

theorem Accepted.legible (accepted : Accepted line e fields)
    (floats : ∀ v ∈ e.details, ∀ x ∈ v.floats, (Json.Number.float x).ReadsBack) : e.Legible where
  returned := small_of_natural accepted.given.returned
  durationMs := small_of_natural accepted.given.durationMs
  details := by
    intro v member
    have details := accepted.given.details
    rw [member] at details
    obtain ⟨_, found, notNull, same⟩ := Record.optional?_some_iff.mp details
    cases same
    exact ⟨notNull, (accepted.fits _ (Record.lookup_mem found)).readsBack (floats _ member)⟩

end

/-- What is accepted obeys the rules: the trace id has three parts, and an outcome has its case
unless the case is given as null. The line of the entry is then accepted as that entry, as long as
the doubles in its details read back. -/
theorem accepted_entries_read_back (line : String) (e : LogEntry) (accepted : entry line = .ok e) :
    (traceParts e.traceId.toList).length = 3 ∧
    ((Value.ofText? line).bind (Value.get? · "case_name") ≠ some .null →
      e.outcome.isSome → e.caseName.isSome) ∧
    ((e.outcome.isSome → e.caseName.isSome) →
      (∀ v ∈ e.details, ∀ x ∈ v.floats, (Json.Number.float x).ReadsBack) →
      entry e.line = .ok e) := by
  obtain ⟨fields, seen⟩ := accepted_of_entry accepted
  refine ⟨seen.parts, fun named => seen.joined ?_, fun joined floats => ?_⟩
  · rwa [seen.read] at named
  · exact (seen.legible floats).entry_line seen.parts joined

theorem ok_of_toOption_map {α ε β : Type} {x : Except ε α} {f : α → β} {b : β}
    (given : x.toOption.map f = some b) : ∃ a, x = .ok a ∧ f a = b := by
  cases x with
  | error e => cases given
  | ok a => exact ⟨a, rfl, Option.some.inj given⟩

def reorderedLine : String :=
  "\x7b \"outcome\": \x7b\"pass\": null\x7d, \"case_name\": \"c\", \"level\": \"info\", " ++
    "\"event\": \"e\\n\", \"trace_id\": \"a::b::c\", \"timestamp\": \"T\" \x7d"

theorem accepted_entries_read_back_reordered :
    ∃ e, entry reorderedLine = .ok e ∧ (traceParts e.traceId.toList).length = 3 ∧
      e.caseName = some "c" ∧ entry e.line = .ok e := by
  have read : (entry reorderedLine).toOption.map (fun e => (e.caseName, e.details.isNone)) =
    some (some "c", true) := by decide +kernel
  obtain ⟨e, accepted, same⟩ := ok_of_toOption_map read
  obtain ⟨named, plain⟩ := Prod.mk.inj same
  obtain ⟨parts, _, stable⟩ := accepted_entries_read_back _ e accepted
  refine ⟨e, accepted, parts, named, stable (fun _ => named ▸ rfl) fun v member => ?_⟩
  rw [Option.isNone_iff_eq_none.mp plain] at member
  cases member

def spelledLine (field : String) : String :=
  "\x7b\"timestamp\":\"T\",\"trace_id\":\"a::b::c\",\"level\":\"info\",\"event\":\"e\"," ++
    field ++ "\x7d"

def nullCase : String := "\"outcome\":\"pass\",\"case_name\":null"

/-- A case name that is null counts as given, but it is no case name. Seventeen digits do not fit a
double, so that the line of a double is read with one rounding too many. -/
theorem accepted_entries_that_change :
    (∃ e, entry (spelledLine nullCase) = .ok e ∧ e.outcome.isSome ∧ e.caseName = none) ∧
    ∃ e, entry (spelledLine "\"details\":1.1e24") = .ok e ∧ entry e.line ≠ .ok e := by
  constructor
  · have read : (entry (spelledLine nullCase)).toOption.map
      (fun e => (e.outcome.isSome, e.caseName)) = some (true, none) := by decide +kernel
    obtain ⟨e, accepted, same⟩ := ok_of_toOption_map read
    obtain ⟨judged, unnamed⟩ := Prod.mk.inj same
    exact ⟨e, accepted, judged, unnamed⟩
  · have first : (entry (spelledLine "\"details\":1.1e24")).toOption.map LogEntry.line =
      some (spelledLine "\"details\":1.0999999999999999e+24") := by decide +kernel
    have second : (entry (spelledLine "\"details\":1.0999999999999999e+24")).toOption.map
      LogEntry.line = some (spelledLine "\"details\":1.1e+24") := by decide +kernel
    obtain ⟨e, accepted, line⟩ := ok_of_toOption_map first
    refine ⟨e, accepted, fun same => ?_⟩
    rw [← line, same] at second
    exact absurd (line.symm.trans (Option.some.inj second)) (by decide)

end Printf.LogValidation
