import Mathlib.Data.List.ReduceOption
import Mathlib.Data.String.Basic
import Printf.Log.Emitter
import Printf.Proofs.LogEntries
import Printf.Proofs.Pieces

/-! Runs of a log: calls one after the other, some of which are refused. -/
namespace Printf.LogEmitter

open Json (Value)
open LogValidation (traceParts)

inductive Call where
  | emit (now : Instant) (level : LogLevel) (event : String)
  | entry (e : LogEntry)
  /-- From now on the destination refuses all lines, or takes them again. -/
  | refuse (on : Bool)

def Call.numbered : Call → Bool
  | emit _ _ _ => true
  | entry e => e.traceId = ""
  | refuse _ => false

/-- Serves a call. The answer is the entry that was written, with trace id and campaign filled in. -/
def serve (m : LogEmitter) : Call → Option LogEntry × LogEmitter
  | .emit now level event => m.emit now level event
  | .entry e =>
    let (accepted, served) := m.emitEntry e
    (if accepted then some (m.complete e).1 else none, served)
  | .refuse on => (none, { m with refusing := on })

def run (m : LogEmitter) : List Call → List (Option LogEntry) × LogEmitter
  | [] => ([], m)
  | c :: calls =>
    let (answer, served) := m.serve c
    let (answers, last) := run served calls
    (answer :: answers, last)

/-- The entry of a call with trace id and campaign filled in, for the next number. -/
def Call.filled (m : LogEmitter) (number : Nat) : Call → Option LogEntry
  | emit now level event => some
      { timestamp := now.text, traceId := m.traceId number, level, event, campaign := m.campaign }
  | entry e => some
      { e with
        traceId := if e.traceId = "" then m.traceId number else e.traceId
        campaign := some (e.campaign.getD m.campaign) }
  | refuse _ => none

def numbers (calls : List Call) : Nat := calls.countP Call.numbered

def refused (m : LogEmitter) (calls : List Call) : Bool :=
  calls.foldl (fun on c => match c with
    | .refuse on => on
    | _ => on) m.refusing

theorem serve_answer (m : LogEmitter) (c : Call) :
    (m.serve c).1 = if m.refusing then none else c.filled m (m.issued + 1) := by
  cases c with
  | emit now level event =>
    cases refusing : m.refusing <;> simp [serve, emit, write, refusing, Call.filled]
  | entry e =>
    by_cases unnamed : e.traceId = "" <;> cases refusing : m.refusing <;>
      simp [serve, emitEntry, complete, write, refusing, Call.filled, unnamed]
  | refuse on => cases m.refusing <;> rfl

def textOf (entries : List LogEntry) : String := String.join (entries.map fun e => e.line ++ "\n")

theorem textOf_append (front behind : List LogEntry) :
    textOf (front ++ behind) = textOf front ++ textOf behind := by
  simp [textOf]

/-- What a call leaves behind. -/
theorem serve_state (m : LogEmitter) (c : Call) :
    (m.serve c).2 =
      { m with
        issued := m.issued + if c.numbered then 1 else 0
        refusing := refused m [c]
        text := m.text ++ textOf (m.serve c).1.toList } := by
  obtain ⟨campaign, runId, issued, on, text⟩ := m
  cases c with
  | emit now level event =>
    cases on <;> simp [serve, emit, write, Call.numbered, refused, textOf, String.append_assoc]
  | entry e =>
    by_cases unnamed : e.traceId = "" <;> cases on <;>
      simp [serve, emitEntry, complete, write, Call.numbered, unnamed, refused, textOf,
        String.append_assoc]
  | refuse on => simp [serve, Call.numbered, refused, textOf]

/-- The lines that were written are those of the entries answered, in the order of their calls. -/
theorem run_text (m : LogEmitter) (calls : List Call) :
    (run m calls).2.text = m.text ++ textOf (run m calls).1.reduceOption := by
  induction calls generalizing m with
  | nil => exact (String.append_empty).symm
  | cons c calls ih =>
    rw [run]
    dsimp only
    rw [ih, serve_state]
    dsimp only
    rw [String.append_assoc, ← textOf_append]
    cases (m.serve c).1 <;> rfl

theorem length_answers (m : LogEmitter) (calls : List Call) :
    (run m calls).1.length = calls.length := by
  induction calls generalizing m with
  | nil => rfl
  | cons c calls ih => exact congrArg (· + 1) (ih _)

/-- An answer depends on the state only through what calls before it left behind. -/
theorem run_answer (m : LogEmitter) (front : List Call) (c : Call) (behind : List Call) :
    (run m (front ++ c :: behind)).1[front.length]? = some
      (if refused m front then none else c.filled m (m.issued + numbers front + 1)) := by
  induction front generalizing m with
  | nil => exact congrArg some (serve_answer m c)
  | cons first front ih =>
    have filled (number : Nat) : c.filled (m.serve first).2 number = c.filled m number := by
      rw [serve_state]
      cases c <;> rfl
    have on : refused (m.serve first).2 front = refused m (first :: front) := by
      rw [serve_state]
      rfl
    have issued : (m.serve first).2.issued + numbers front = m.issued + numbers (first :: front) := by
      rw [serve_state, numbers, numbers, List.countP_cons]
      dsimp only
      omega
    rw [List.cons_append, run]
    dsimp only
    rw [List.length_cons, List.getElem?_cons_succ, ih, on, filled, issued]

theorem mem_answers {m : LogEmitter} {calls : List Call} {e : LogEntry}
    (member : some e ∈ (run m calls).1) : ∃ c ∈ calls, ∃ number, c.filled m number = some e := by
  obtain ⟨i, inside, answer⟩ := List.getElem_of_mem member
  have called : i < calls.length := by rwa [length_answers] at inside
  have split : calls = calls.take i ++ calls[i] :: calls.drop (i + 1) := by simp
  have answer' := run_answer m (calls.take i) calls[i] (calls.drop (i + 1))
  rw [← split, List.length_take, Nat.min_eq_left (Nat.le_of_lt called)] at answer'
  rw [List.getElem?_eq_getElem inside, answer] at answer'
  have filled := Option.some.inj answer'
  split at filled
  · cases filled
  · exact ⟨_, List.getElem_mem called, _, filled.symm⟩

/-- An entry that can be given to a log: it has no trace id or one of three parts, an outcome has its
case, and its numbers and details fit their types. -/
structure Emittable (e : LogEntry) : Prop where
  trace : e.traceId = "" ∨ (traceParts e.traceId.toList).length = 3
  joined : e.outcome.isSome → e.caseName.isSome
  returned : ∀ n ∈ e.returned, n < UInt64.size
  durationMs : ∀ n ∈ e.durationMs, n < UInt64.size
  details : ∀ v ∈ e.details, v ≠ .null ∧ v.Fits Json.Number.IsWord (Json.Tree.maxDepth - 1)

theorem traceParts_cons {c : Char} (plain : c ≠ ':') {cs part : List Char} {parts : List (List Char)}
    (split : traceParts cs = part :: parts) : traceParts (c :: cs) = (c :: part) :: parts := by
  rw [traceParts, split]
  exact fun _ colon => absurd colon plain

theorem traceParts_plain {cs : List Char} (plain : ':' ∉ cs) : traceParts cs = [cs] := by
  induction cs with
  | nil => rfl
  | cons c cs ih =>
    exact traceParts_cons (List.ne_of_not_mem_cons plain).symm
      (ih (List.not_mem_of_not_mem_cons plain))

theorem traceParts_append {cs : List Char} (plain : ':' ∉ cs) (rest : List Char) :
    traceParts (cs ++ ':' :: ':' :: rest) = cs :: traceParts rest := by
  induction cs with
  | nil => rfl
  | cons c cs ih =>
    exact traceParts_cons (List.ne_of_not_mem_cons plain).symm
      (ih (List.not_mem_of_not_mem_cons plain))

def digits (number : Nat) : List Nat :=
  List.replicate (3 - (Radix.numeral 10 number).length) 0 ++ Radix.numeral 10 number

theorem digits_lt (number : Nat) : ∀ d ∈ digits number, d < 10 := Radix.paddedDigits_lt 3 number

theorem value_digits (number : Nat) : Radix.value 10 (digits number) = number :=
  Radix.value_paddedDigits 3 number

theorem toList_traceId (m : LogEmitter) (number : Nat) :
    (m.traceId number).toList = m.campaign.toList ++ ':' :: ':' ::
      (m.runId.toList ++ ':' :: ':' :: (digits number).map Radix.digitChar) := by
  simp [traceId, Radix.paddedText, digits]

theorem parts_traceId {m : LogEmitter} (campaign : ':' ∉ m.campaign.toList)
    (runId : ':' ∉ m.runId.toList) (number : Nat) :
    (traceParts (m.traceId number).toList).length = 3 := by
  have plain : ':' ∉ (digits number).map Radix.digitChar := by
    intro member
    exact absurd (Radix.isDecimal_digitChars (digits_lt number) ':' member) (by decide)
  rw [toList_traceId, traceParts_append campaign, traceParts_append runId, traceParts_plain plain]
  rfl

/-- No trace id belongs to two numbers. -/
theorem traceId_injective (m : LogEmitter) : Function.Injective m.traceId := by
  intro number other same
  have texts := congrArg String.toList same
  simp only [toList_traceId, List.append_cancel_left_eq, List.cons.injEq, true_and] at texts
  have read (n : Nat) : ((digits n).map Radix.digitChar).map Text.decimalValue = digits n :=
    Radix.decimalValues_digitChars (digits_lt n)
  have equal : digits number = digits other := by rw [← read number, texts, read other]
  rw [← value_digits number, equal, value_digits]

theorem newline_line (e : LogEntry) : '\n' ∉ e.line.toList := by
  rw [LogEntry.line, Value.compact, String.toList_ofList]
  exact Value.newline_compact e.toJson

/-- Every entry of a log is one line of its text. -/
theorem lines_text (entries : List LogEntry) :
    Text.lines (String.join (entries.map fun e => e.line ++ "\n")).toList =
      entries.map (fun e => e.line.toList) ++ [[]] := by
  have text : (String.join (entries.map fun e => e.line ++ "\n")).toList =
      (entries.map fun e => e.line.toList).flatMap (· ++ ['\n']) ++ [] := by
    simp [List.flatMap_map]
  rw [Text.lines, text, Text.split_closed (List.forall_mem_map.mpr fun e _ => newline_line e)]
  rfl

theorem compactFields_closed : ∀ fields : List (String × Value),
    ∃ front, Value.compactFields fields = front ++ ['\x7d']
  | [] => ⟨[], rfl⟩
  | [_] => ⟨_, rfl⟩
  | (k, v) :: next :: rest => by
    obtain ⟨front, closed⟩ := compactFields_closed (next :: rest)
    exact ⟨Json.quoted k ++ ':' :: v.compactChars ++ ',' :: front, by
      rw [Value.compactFields, closed]; simp⟩

/-- A line stands between brackets, so that nothing is trimmed from it. -/
theorem toList_line (e : LogEntry) : ∃ inner, e.line.toList = '\x7b' :: (inner ++ ['\x7d']) := by
  obtain ⟨inner, closed⟩ := compactFields_closed e.fields
  refine ⟨inner, ?_⟩
  rw [LogEntry.line, LogEntry.toJson_fields, Value.compact, String.toList_ofList,
    Value.compactChars, closed]

theorem trim_line (e : LogEntry) : Text.trim e.line.toList = e.line.toList := by
  obtain ⟨inner, line⟩ := toList_line e
  have opened : Text.isBlank '\x7b' = false := by decide
  have closed : Text.isBlank '\x7d' = false := by decide
  simp [line, Text.trim, opened, closed]

/-- Of a text whose lines are not blank only the empty last line is left out. -/
theorem kept_lines {lines : List (List Char)}
    (solid : ∀ line ∈ lines, Text.trim line = line ∧ line ≠ []) (k : Nat) :
    (((lines ++ [[]]).zipIdx k).map
        fun ((line, number) : List Char × Nat) => (Text.trim line, number)).filter
      (fun (line, _) => !line.isEmpty) = lines.zipIdx k := by
  induction lines generalizing k with
  | nil => rfl
  | cons line lines ih =>
    obtain ⟨⟨trimmed, some⟩, later⟩ := List.forall_mem_cons.mp solid
    simp [List.zipIdx_cons, trimmed, some, ih later]

/-- A log of accepted lines has no violations. -/
theorem validate_text {entries : List LogEntry}
    (accepted : ∀ e ∈ entries, LogValidation.entry e.line = .ok e) :
    LogValidation.validate (String.join (entries.map fun e => e.line ++ "\n")) =
      (entries.length, []) := by
  have solid : ∀ line ∈ entries.map fun e => e.line.toList, Text.trim line = line ∧ line ≠ [] := by
    intro line member
    obtain ⟨e, _, rfl⟩ := List.mem_map.mp member
    refine ⟨trim_line e, ?_⟩
    obtain ⟨inner, line⟩ := toList_line e
    simp [line]
  rw [LogValidation.validate, lines_text]
  dsimp only
  rw [kept_lines solid, List.length_zipIdx, List.length_map]
  refine congrArg _ (List.flatMap_eq_nil_iff.mpr ?_)
  rintro ⟨line, number⟩ member
  obtain ⟨e, given, rfl⟩ := List.mem_map.mp (List.fst_mem_of_mem_zipIdx member)
  rw [String.ofList_toList, LogValidation.violations, accepted e given]

/-- What a call writes is accepted, and is read back as what was written. -/
theorem entry_filled {m : LogEmitter} (campaign : ':' ∉ m.campaign.toList)
    (runId : ':' ∉ m.runId.toList) {c : Call} (fit : ∀ e, c = .entry e → Emittable e)
    {number : Nat} {e : LogEntry} (filled : c.filled m number = some e) :
    LogValidation.entry e.line = .ok e := by
  have parts := parts_traceId campaign runId number
  cases c with
  | emit now level event =>
    obtain rfl := Option.some.inj filled
    exact LogEntry.Legible.entry_line ⟨nofun, nofun, nofun⟩ parts nofun
  | entry given =>
    obtain ⟨trace, joined, returned, durationMs, details⟩ := fit given rfl
    obtain rfl := Option.some.inj filled
    refine LogEntry.Legible.entry_line ⟨returned, durationMs, fun v member => ?_⟩ ?_ joined
    · exact (details v member).imp_right fun fits => fits.mono fun _ word => word.readsBack
    · dsimp only
      split
      · exact parts
      · next named => exact trace.resolve_left named
  | refuse on => cases filled

/-- Everything a log writes validates. Its text is made of the lines of the entries answered; each of
them is one line, is accepted as the entry it was written for, and counts without a violation. The
answer to a call is its entry, filled in with the next number after those that all calls before it
took, also the refused ones; the trace id with that number is not given to any call behind it. -/
theorem emitted_log_validates (campaign runId : String) (calls : List Call)
    (campaignPlain : ':' ∉ campaign.toList) (runIdPlain : ':' ∉ runId.toList)
    (fit : ∀ e, Call.entry e ∈ calls → Emittable e) :
    let start : LogEmitter := { campaign, runId }
    let answers := (run start calls).1
    let text := (run start calls).2.text
    let accepted := answers.reduceOption
    text = String.join (accepted.map fun e => e.line ++ "\n") ∧
    Text.lines text.toList = accepted.map (fun e => e.line.toList) ++ [[]] ∧
    (∀ e ∈ accepted, LogValidation.entry e.line = .ok e) ∧
    LogValidation.validate text = (accepted.length, []) ∧
    (∀ front c behind, calls = front ++ c :: behind → answers[front.length]? = some
      (if refused start front then none else c.filled start (numbers front + 1))) ∧
    (∀ front c between, c.numbered → start.traceId (numbers front + 1) ≠
      start.traceId (numbers (front ++ c :: between) + 1)) := by
  intro start answers text accepted
  have written : text = String.join (accepted.map fun e => e.line ++ "\n") := by
    exact (run_text start calls).trans String.empty_append
  have valid : ∀ e ∈ accepted, LogValidation.entry e.line = .ok e := by
    intro e member
    obtain ⟨c, among, number, filled⟩ := mem_answers (List.reduceOption_mem_iff.mp member)
    exact entry_filled campaignPlain runIdPlain (fun e' same => fit e' (same ▸ among)) filled
  refine ⟨written, ?_, valid, ?_, ?_, ?_⟩
  · rw [written, lines_text]
  · rw [written, validate_text valid]
  · rintro front c behind rfl
    rw [show numbers front + 1 = start.issued + numbers front + 1 by simp [start]]
    exact run_answer start front c behind
  · intro front c between numbered
    have more : numbers front < numbers (front ++ c :: between) := by
      rw [numbers, numbers, List.countP_append, List.countP_cons, if_pos numbered]
      omega
    exact (traceId_injective start).ne (by omega)

def sampleCalls : List Call :=
  [.emit ⟨0, 0⟩ .info "start", .refuse true, .emit ⟨1, 0⟩ .warn "lost", .refuse false,
    .entry
      { timestamp := "T", traceId := "", level := .error, event := "line\nbreak \"\x01\" \u00e9",
        outcome := some .fail, caseName := some "", details := some (.array [.int (-1), .null]) }]

theorem emitted_log_validates_behind_refusal :
    let start : LogEmitter := { campaign := "verify", runId := "run" }
    LogValidation.validate (run start sampleCalls).2.text = (2, []) ∧
      (run start sampleCalls).1[4]?.map (Option.map LogEntry.traceId) =
        some (some "verify::run::003") := by
  have details : (Value.array [.int (-1), .null]).Fits Json.Number.IsWord 126 := by
    refine .array fun v member => ?_
    rcases List.mem_cons.mp member with rfl | null
    · exact .number ⟨by decide, by decide⟩
    · exact List.mem_singleton.mp null ▸ .null
  have fit : ∀ e, Call.entry e ∈ sampleCalls → Emittable e := by
    intro e member
    simp only [sampleCalls, List.mem_cons, reduceCtorEq, Call.entry.injEq, List.not_mem_nil, or_false,
      false_or] at member
    subst member
    exact ⟨.inl rfl, fun _ => rfl, nofun, nofun, fun v given =>
      Option.some.inj given ▸ ⟨nofun, details⟩⟩
  obtain ⟨_, _, _, valid, answer, _⟩ :=
    emitted_log_validates "verify" "run" sampleCalls (by decide) (by decide) fit
  refine ⟨valid, ?_⟩
  have last := answer (sampleCalls.take 4) _ [] rfl
  exact (congrArg (Option.map (Option.map LogEntry.traceId)) last).trans (by decide +kernel)

end Printf.LogEmitter
