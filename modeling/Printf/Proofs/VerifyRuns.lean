import Printf.Proofs.Commands
import Printf.Proofs.LogRuns
import Printf.Proofs.Verdicts

/-! Verification runs. As long as the destinations of the cases can be had, every case of every set has
its record in the log, in its place, and the counts of the summary, of the log and of the verdict are
those of the same cases. Otherwise the run ends in a panic, and its log in front of it. -/
namespace Printf

namespace LogEmitter

variable (m : LogEmitter)

def stamp (number : Nat) (e : LogEntry) : LogEntry :=
  { e with traceId := m.traceId number, campaign := some (e.campaign.getD m.campaign) }

def stamped (first : Nat) (entries : List LogEntry) : List LogEntry :=
  (entries.zipIdx first).map fun (e, number) => m.stamp number e

theorem emitEntry_stamp {m : LogEmitter} (taking : m.refusing = false) {e : LogEntry}
    (unnamed : e.traceId = "") : (m.emitEntry e).2 =
      { m with issued := m.issued + 1, text := m.text ++ textOf [m.stamp (m.issued + 1) e] } := by
  simp [emitEntry, complete, write, stamp, taking, unnamed, textOf, String.append_assoc]

/-- Entries without trace ids are written with consecutive ones. -/
theorem text_emitAll {m : LogEmitter} (taking : m.refusing = false) {entries : List LogEntry}
    (unnamed : ∀ e ∈ entries, e.traceId = "") :
    (m.emitAll entries).text = m.text ++ textOf (m.stamped (m.issued + 1) entries) := by
  induction entries generalizing m with
  | nil => exact String.append_empty.symm
  | cons e entries ih =>
    obtain ⟨first, later⟩ := List.forall_mem_cons.mp unnamed
    have behind : ((m.emitEntry e).2.emitAll entries).text = (m.emitEntry e).2.text ++
        textOf ((m.emitEntry e).2.stamped ((m.emitEntry e).2.issued + 1) entries) :=
      ih (by rw [emitEntry_stamp taking first]; exact taking) later
    rw [emitEntry_stamp taking first] at behind
    rw [emitAll, List.foldl_cons, emitEntry_stamp taking first]
    refine behind.trans ?_
    rw [String.append_assoc, ← textOf_append]
    rfl

theorem stamped_concat (first : Nat) (entries : List LogEntry) (e : LogEntry) :
    m.stamped first (entries ++ [e]) =
      m.stamped first entries ++ [m.stamp (first + entries.length) e] := by
  simp [stamped, List.zipIdx_append]

theorem length_stamped (first : Nat) (entries : List LogEntry) :
    (m.stamped first entries).length = entries.length := by
  simp [stamped]

theorem traceIds_stamped (first : Nat) (entries : List LogEntry) :
    (m.stamped first entries).map LogEntry.traceId =
      (List.range' first entries.length).map m.traceId := by
  rw [stamped, List.map_map, ← List.zipIdx_map_snd, List.map_map]
  rfl

/-- What holds of entries whatever their trace ids and campaigns are. -/
theorem forall₂_stamped {α : Type} {R : α → LogEntry → Prop} {items : List α} {entries : List LogEntry}
    (kept : ∀ a number e, R a e → R a (m.stamp number e)) (related : List.Forall₂ R items entries)
    (first : Nat) : List.Forall₂ R items (m.stamped first entries) := by
  induction related generalizing first with
  | nil => exact .nil
  | cons one _ ih => exact .cons (kept _ _ _ one) (ih _)

/-- What is written is read back as what was to be written. -/
theorem entry_stamped {m : LogEmitter} (campaign : ':' ∉ m.campaign.toList)
    (runId : ':' ∉ m.runId.toList) {entries : List LogEntry} (unnamed : ∀ e ∈ entries, e.traceId = "")
    (fit : ∀ e ∈ entries, Emittable e) (first : Nat) :
    ∀ e ∈ m.stamped first entries, LogValidation.entry e.line = .ok e := by
  intro e member
  obtain ⟨⟨given, number⟩, among, rfl⟩ := List.mem_map.mp member
  have among := List.fst_mem_of_mem_zipIdx among
  have filled : Call.filled m number (.entry given) = some (m.stamp number given) := by
    simp [Call.filled, stamp, unnamed given among]
  refine entry_filled campaign runId ?_ filled
  rintro _ ⟨⟩
  exact fit given among

end LogEmitter

open Conformance (Loaded)

structure LogEntry.IsOf (features : Features) (l : Loaded) (c : FixtureCase) (e : LogEntry) : Prop where
  event : e.event = if c.Runnable features then "case_result" else "case_skipped"
  level : e.level = if c.outcome features = .fail then .error else .info
  stream : e.stream = some .conformance
  family : e.family = some l.set.family
  caseName : e.caseName = some c.name
  format : e.format = some c.format
  outcome : e.outcome = some (c.outcome features)
  expected : e.expected = if c.Runnable features then some c.expectedOutput else none
  ran : c.Runnable features → ∃ run, c.execute features = .ok run ∧
    e.actual = some run.output ∧ e.returned = some run.returned
  skipped : ¬ c.Runnable features → e.actual = none ∧ e.returned = none
  durationMs : e.durationMs = none
  artifactRefs : e.artifactRefs = if c.Runnable features then some [l.path] else none
  details : e.details = if c.Runnable features then none
    else some (.object [("requires", Json.strings c.requires)])

namespace Conformance

open LogEmitter (Emittable textOf)

variable (features : Features)

def skippedIn (l : Loaded) : List (Loaded × FixtureCase) :=
  (l.set.cases.filter (¬ ·.Runnable features)).map (l, ·)

/-- The cases of a run in the order of its log: for each set the skipped ones, then the others. -/
def schedule (loaded : List Loaded) : List (Loaded × FixtureCase) :=
  loaded.flatMap fun l => skippedIn features l ++ (l.set.cases.filter (·.Runnable features)).map (l, ·)

def AreOf (items : List (Loaded × FixtureCase)) (records : List LogEntry) : Prop :=
  List.Forall₂ (fun p e => e.IsOf features p.1 p.2) items records

theorem AreOf.stamped {items : List (Loaded × FixtureCase)} {entries : List LogEntry}
    (are : AreOf features items entries) (m : LogEmitter) (first : Nat) :
    AreOf features items (m.stamped first entries) :=
  m.forall₂_stamped (fun _ _ _ is => { is with }) are first

theorem areOf_map {l : Loaded} {cases : List FixtureCase} {entry : FixtureCase → LogEntry}
    (is : ∀ c ∈ cases, (entry c).IsOf features l c) :
    AreOf features (cases.map (l, ·)) (cases.map entry) := by
  rwa [AreOf, List.forall₂_map_left_iff, List.forall₂_map_right_iff, List.forall₂_same]

theorem skippedEntry_isOf (now : Instant) (l : Loaded) {c : FixtureCase}
    (skipped : ¬ c.Runnable features) : (skippedEntry now l.set c).IsOf features l c := by
  constructor <;> simp [skippedEntry, FixtureCase.outcome, skipped]

theorem resultEntry_isOf (now : Instant) (l : Loaded) {c : FixtureCase}
    (runnable : c.Runnable features) (allocates : c.Allocates features) :
    (resultEntry now l c (c.judged features)).IsOf features l c := by
  have judged := FixtureCase.judged_isOf features allocates
  have passed : (c.judged features).passed = decide (c.Passes features) := by
    rw [Bool.eq_iff_iff, judged.passed, decide_eq_true_iff]
  exact {
    event := by simp [resultEntry, runnable]
    level := by
      by_cases passes : c.Passes features <;>
        simp [resultEntry, passed, FixtureCase.outcome, runnable, passes]
    stream := rfl
    family := rfl
    caseName := congrArg some judged.caseName
    format := rfl
    outcome := by simp [resultEntry, passed, FixtureCase.outcome, runnable]
    expected := by simp [resultEntry, runnable, judged.expected]
    ran := fun _ => ⟨_, judged.ran, rfl, rfl⟩
    skipped := fun skipped => absurd runnable skipped
    durationMs := rfl
    artifactRefs := by simp [resultEntry, runnable]
    details := by simp [resultEntry, runnable] }

theorem skippedEntries_areOf (now : Instant) (l : Loaded) :
    AreOf features (skippedIn features l) (skippedEntries features now l) := by
  rw [skippedIn, skippedEntries, skipped_set]
  refine areOf_map features fun c member => ?_
  exact skippedEntry_isOf features now l (of_decide_eq_true (List.mem_filter.mp member).2)

/-- The entries of sets are those of their cases, each in its place. -/
theorem setEntries_areOf (now : Instant) {loaded : List Loaded}
    (allocating : Allocating features (loaded.flatMap (·.set.cases))) :
    AreOf features (schedule features loaded) (loaded.flatMap (setEntries features now)) := by
  induction loaded with
  | nil => exact .nil
  | cons l loaded ih =>
    rw [List.flatMap_cons, allocating_append] at allocating
    obtain ⟨own, others⟩ := allocating
    refine List.rel_append (List.rel_append (skippedEntries_areOf features now l) ?_) (ih others)
    rw [resultEntries_judged, supported_set]
    refine areOf_map features fun c member => ?_
    obtain ⟨among, runnable⟩ := List.mem_filter.mp member
    have runnable := of_decide_eq_true runnable
    exact resultEntry_isOf features now l runnable (own c among runnable)

theorem setEntries_unnamed (now : Instant) (loaded : List Loaded) :
    ∀ e ∈ loaded.flatMap (setEntries features now), e.traceId = "" := by
  simp only [setEntries, skippedEntries, resultEntries_judged, List.mem_append, List.mem_flatMap,
    List.mem_map]
  rintro e ⟨l, _, ⟨c, _, rfl⟩ | ⟨c, _, rfl⟩⟩ <;> rfl

/-- The schedule has all cases. -/
theorem schedule_perm (loaded : List Loaded) :
    ((schedule features loaded).map Prod.snd).Perm (loaded.flatMap (·.set.cases)) := by
  induction loaded with
  | nil => exact .nil
  | cons l loaded ih =>
    rw [schedule, List.flatMap_cons, List.map_append, List.flatMap_cons]
    refine .append ?_ ih
    rw [skippedIn, ← List.map_append, List.map_map,
      show Prod.snd ∘ (l, ·) = (id : FixtureCase → FixtureCase) from rfl, List.map_id]
    refine List.perm_append_comm.trans ?_
    simpa only [decide_not] using List.filter_append_perm (·.Runnable features) l.set.cases

/-- Records count the ends of their cases. -/
theorem countP_records {items : List (Loaded × FixtureCase)} {records : List LogEntry}
    (are : AreOf features items records) (o : LogOutcome) :
    records.countP (·.outcome = some o) = tally features (items.map Prod.snd) o := by
  induction are with
  | nil => rfl
  | cons is _ ih =>
    rw [List.countP_cons, ih, tally, tally, List.map_cons, List.countP_cons, is.outcome]
    simp only [Option.some.injEq]

theorem AreOf.exists_of_mem {items : List (Loaded × FixtureCase)} {records : List LogEntry}
    (are : AreOf features items records) {e : LogEntry} (member : e ∈ records) :
    ∃ p ∈ items, e.IsOf features p.1 p.2 := by
  induction are with
  | nil => cases member
  | cons is _ ih =>
    rcases List.mem_cons.mp member with rfl | member
    · exact ⟨_, List.mem_cons_self, is⟩
    · obtain ⟨p, among, is⟩ := ih member
      exact ⟨p, List.mem_cons_of_mem _ among, is⟩

/-- The cases can be counted in words of 64 bits, and so can what each of them gives. -/
def FitsWords (cases : List FixtureCase) : Prop :=
  cases.length < UInt64.size ∧
    ∀ c ∈ cases, c.Runnable features → (c.given features).returned < UInt64.size

instance (cases : List FixtureCase) : Decidable (FitsWords features cases) :=
  inferInstanceAs (Decidable (_ ∧ ∀ c ∈ cases, _ → _))

theorem emittable_of_isOf {l : Loaded} {c : FixtureCase} {e : LogEntry} (is : e.IsOf features l c)
    (unnamed : e.traceId = "")
    (small : c.Runnable features → (c.given features).returned < UInt64.size) : Emittable e where
  trace := .inl unnamed
  joined := fun _ => by rw [is.caseName]; rfl
  returned := by
    by_cases runnable : c.Runnable features
    · obtain ⟨run, ran, _, returned⟩ := is.ran runnable
      rw [returned, FixtureCase.eq_given ran]
      rintro n ⟨⟩
      exact small runnable
    · rw [(is.skipped runnable).2]
      nofun
  durationMs := by rw [is.durationMs]; nofun
  details := by
    rw [is.details]
    split
    · nofun
    · rintro v ⟨⟩
      exact ⟨nofun, .object (List.pairwise_singleton _ _) fun f member =>
        List.mem_singleton.mp member ▸ LogEntry.fits_strings c.requires⟩

theorem completeEntry_emittable (now : Instant) (elapsedMs : Nat) {cases : List FixtureCase}
    {s : VerificationSummary} (covers : s.Covers features cases) (small : cases.length < UInt64.size) :
    Emittable (completeEntry now elapsedMs s) where
  trace := .inl rfl
  joined := nofun
  returned := nofun
  durationMs := by
    rintro n ⟨⟩
    exact Nat.lt_of_le_of_lt (Nat.min_le_right _ _) (by decide)
  details := by
    have all := covers.all
    have judged := covers.judged
    rintro v ⟨⟩
    refine ⟨nofun, .object (Json.Value.ordered_arrange _) (Json.Value.forall_arrange ?_)⟩
    simp only [List.forall_mem_cons]
    refine ⟨.number (LogEntry.isWord_nat ?_), .number (LogEntry.isWord_nat ?_),
      .number (LogEntry.isWord_nat ?_), .number (LogEntry.isWord_nat ?_), nofun⟩ <;> omega

/-- The log of a run: a record for each case, in the order of the schedule, and one for the run. -/
structure IsLog (features : Features) (runId : String) (loaded : List Loaded)
    (summary : VerificationSummary) (records : List LogEntry) (last : LogEntry) : Prop where
  cases : AreOf features (schedule features loaded) records
  event : last.event = "run_complete"
  unjudged : last.caseName = none ∧ last.outcome = none
  details : last.details = some (.ofFields [("total", .nat summary.total),
    ("passed", .nat summary.passed), ("failed", .nat summary.failed),
    ("skipped", .nat summary.skipped)])
  traceIds : (records ++ [last]).map LogEntry.traceId = (List.range' 1 (records.length + 1)).map
    fun number => "fixture-verify::" ++ runId ++ "::" ++ Radix.paddedText 3 number
  passed : records.countP (·.outcome = some .pass) = summary.passed
  failed : records.countP (·.outcome = some .fail) = summary.failed
  skipped : records.countP (·.outcome = some .skip) = summary.skipped
  /-- Every line validates and is read back as its record. -/
  readBack : FitsWords features (loaded.flatMap (·.set.cases)) →
    (∀ e ∈ records ++ [last], LogValidation.entry e.line = .ok e) ∧
    LogValidation.validate (textOf (records ++ [last])) = (records.length + 1, [])

/-- What a run writes to its log. -/
theorem log_isLog (s : Surroundings) {loaded : List Loaded}
    (allocating : Allocating s.features (loaded.flatMap (·.set.cases))) :
    let total := summaryOf s.features (loaded.flatMap (·.set.cases))
    ∃ records last, IsLog s.features (Radix.decimalText s.processId) loaded total records last ∧
      ((Command.emitter s).emitAll (loaded.flatMap (setEntries s.features s.now) ++
        [completeEntry s.now s.elapsedMs total])).text = textOf (records ++ [last]) := by
  intro total
  let m := Command.emitter s
  let entries := loaded.flatMap (setEntries s.features s.now)
  let complete := completeEntry s.now s.elapsedMs total
  have covers : total.Covers s.features _ := summary_covers s.features allocating
  have are := setEntries_areOf s.features s.now allocating
  have unnamed : ∀ e ∈ entries ++ [complete], e.traceId = "" := by
    rw [List.forall_mem_append, List.forall_mem_singleton]
    exact ⟨setEntries_unnamed s.features s.now loaded, rfl⟩
  -- the entry of the run is stamped like those of the cases, with the number behind theirs
  have traceIds := m.traceIds_stamped 1 (entries ++ [complete])
  rw [List.length_append, ← m.length_stamped 1, m.stamped_concat] at traceIds
  have readBack (fits : FitsWords s.features (loaded.flatMap (·.set.cases))) :
      ∀ e ∈ m.stamped 1 (entries ++ [complete]), LogValidation.entry e.line = .ok e := by
    refine LogEmitter.entry_stamped (m := m) ?_ ?_ unnamed ?_ 1
    · exact (by decide : ':' ∉ Command.campaign.toList)
    · exact fun colon => absurd (Radix.isDecimal_decimalText s.processId ':' colon) (by decide)
    · rw [List.forall_mem_append, List.forall_mem_singleton]
      refine ⟨fun e member => ?_, completeEntry_emittable s.features _ _ covers fits.1⟩
      obtain ⟨p, scheduled, is⟩ := are.exists_of_mem s.features member
      have among := (schedule_perm s.features loaded).mem_iff.mp (List.mem_map_of_mem scheduled)
      exact emittable_of_isOf s.features is (setEntries_unnamed s.features s.now loaded e member)
        (fits.2 p.2 among)
  rw [m.stamped_concat] at readBack
  have counts (o : LogOutcome) : (m.stamped 1 entries).countP (·.outcome = some o) =
      tally s.features (loaded.flatMap (·.set.cases)) o := by
    rw [countP_records s.features (are.stamped s.features m 1) o]
    exact (schedule_perm s.features loaded).countP_eq _
  refine ⟨m.stamped 1 entries, m.stamp (1 + entries.length) complete, {
    cases := are.stamped s.features m 1
    event := rfl
    unjudged := ⟨rfl, rfl⟩
    details := rfl
    traceIds := traceIds
    passed := (counts .pass).trans covers.passed.symm
    failed := (counts .fail).trans covers.failed.symm
    skipped := (counts .skip).trans covers.skipped.symm
    readBack := fun fits => ⟨readBack fits, ?_⟩ }, ?_⟩
  · rw [textOf, LogEmitter.validate_text (readBack fits), List.length_append,
      List.length_singleton]
  · rw [← m.stamped_concat]
    exact (LogEmitter.text_emitAll rfl unnamed).trans String.empty_append

/-- What a run has written to its log when it is cut short in a set. -/
theorem cutLog_areOf (s : Surroundings) {front : List Loaded}
    (allocating : Allocating s.features (front.flatMap (·.set.cases))) (l : Loaded) :
    ∃ records, AreOf s.features (schedule s.features front ++ skippedIn s.features l) records ∧
      ((Command.emitter s).emitAll (front.flatMap (setEntries s.features s.now) ++
        skippedEntries s.features s.now l)).text = textOf records := by
  have are : AreOf s.features (schedule s.features front ++ skippedIn s.features l) _ :=
    List.rel_append (setEntries_areOf s.features s.now allocating)
      (skippedEntries_areOf s.features s.now l)
  have unnamed : ∀ e ∈ front.flatMap (setEntries s.features s.now) ++
      skippedEntries s.features s.now l, e.traceId = "" := by
    rw [List.forall_mem_append]
    refine ⟨setEntries_unnamed s.features s.now front, ?_⟩
    simp only [skippedEntries, List.mem_map]
    rintro e ⟨c, _, rfl⟩
    rfl
  exact ⟨_, are.stamped s.features (Command.emitter s) 1,
    (LogEmitter.text_emitAll rfl unnamed).trans String.empty_append⟩

end Conformance

open Conformance Command
open LogEmitter (textOf)

/-- The summary of a run whose cases all have their results. -/
theorem summary_past (features : Features) (now : Instant) (title : String)
    (digests : List FixtureDigest) (loaded : List Loaded) (log : Option LogFile) :
    ((Progress.past features now digests loaded { log }).report features now title).summary =
      summaryOf features (loaded.flatMap (·.set.cases)) := by
  have supported : (loaded.flatMap fun l => l.set.supported features) =
      (loaded.flatMap (·.set.cases)).filter (·.Runnable features) := by
    simp only [supported_set, List.filter_flatMap]
  have skipped : (loaded.flatMap fun l => l.set.skipped features).length =
      tally features (loaded.flatMap (·.set.cases)) .skip := by
    simp only [skipped_set, tally_skip, List.countP_eq_length_filter, List.filter_flatMap]
  simp only [Progress.past, Progress.report, summaryOf, supported, skipped, List.nil_append,
    Nat.zero_add]

section
variable (s : Surroundings) {loaded : List Loaded} {files : Files} {fixture : String}

/-- What a run does whose cases have their destinations, unless a file operation fails. -/
theorem ensures_whole (allocating : Allocating s.features (loaded.flatMap (·.set.cases)))
    (load : load files fixture = .ok loaded) (report : Option String) (json : Bool)
    (log : Option String) :
    let total := summaryOf s.features (loaded.flatMap (·.set.cases))
    Ensures ((Command.verify fixture report json log).action s) ⟨files, "", ""⟩ fun r console =>
      r = (verdict total).mapError .run ∧
      ∃ started logged doc, doc.summary = total ∧
        Put log (utf8 ((emitter s).emitAll (loaded.flatMap (setEntries s.features s.now) ++
          [completeEntry s.now s.elapsedMs total])).text) started logged ∧
        PutReport report doc logged console.files := by
  intro total
  refine (ensures_verifyAll (c := ⟨files, "", ""⟩) s load).mono fun r console => ?_
  rintro ⟨started, _, ended⟩
  have ends := verifySets_ends s.features started s.now loaded { log := logFile s log }
  obtain ⟨e, q, ran⟩ | ⟨digests, ran⟩ := ends.of_allocating allocating <;> rw [ran] at ended
  · exact absurd trivial ended.2.1
  obtain ⟨verdict_eq, logged, flushed, putReport⟩ := ended
  rw [summary_past] at verdict_eq flushed
  refine ⟨verdict_eq, started, logged, _, summary_past _ _ _ _ _ _, ?_, putReport⟩
  rw [← flushed_iff]
  simpa only [Progress.past, Option.map_map, Function.comp_def, ← LogFile.emitAll_append] using flushed

/-- What a run does that comes to a case whose destination cannot be had. -/
theorem ensures_panic (panics : ¬ Allocating s.features (loaded.flatMap (·.set.cases)))
    (load : load files fixture = .ok loaded) (report : Option String) (json : Bool)
    (log : Option String) :
    Ensures ((Command.verify fixture report json log).action s) ⟨files, "", ""⟩ fun r console =>
      r = .error (.run (.panicked .capacityOverflow)) ∧
      ∃ front l back started, loaded = front ++ l :: back ∧
        Allocating s.features (front.flatMap (·.set.cases)) ∧ ¬ Allocating s.features l.set.cases ∧
        Put log [] files started ∧
        Put log (utf8 ((emitter s).emitAll (front.flatMap (setEntries s.features s.now) ++
          skippedEntries s.features s.now l)).text) started console.files := by
  refine (ensures_verifyAll (c := ⟨files, "", ""⟩) s load).mono fun r console => ?_
  rintro ⟨started, first, ended⟩
  have ends := verifySets_ends s.features started s.now loaded { log := logFile s log }
  obtain ⟨e, q, ran⟩ | ⟨front, l, back, q, ran, split, before, own, logIs⟩ :=
    ends.of_not_allocating panics <;> rw [ran] at ended
  · exact absurd trivial ended.2.1
  obtain ⟨rfl, _, flushed⟩ := ended
  rw [logIs] at flushed
  -- the log was opened by a write to its path, so that the flush on the way out succeeds
  obtain ⟨after, putLog⟩ := first.again _
  have left := flushed after (flushed_iff.mpr putLog)
  exact ⟨rfl, front, l, back, started, split, before, own, first, left ▸ putLog⟩

end

/-- A verification run judges every case once and by itself, as long as the destinations of the cases
that it runs can be had. Its summary covers the cases of all sets, and its log has one record for each
of them and one for the run, numbered from one. Unless a file operation fails, the run ends with a
failure just if a case that can be run does not pass; the document of its report holds the summary, and
the file of its log has a line for each record, which stay there unless the report is put over them.

A run with a case whose destination cannot be had ends in a panic. It leaves no report, and in its log
the records of the sets in front of the one with the case and of what is skipped in that set. -/
theorem verification_runs_judge_every_case (s : Surroundings) (loaded : List Loaded) :
    let cases := loaded.flatMap (·.set.cases)
    let total := summaryOf s.features cases
    (Allocating s.features cases →
      total.Covers s.features cases ∧
      ∃ records last, IsLog s.features (Radix.decimalText s.processId) loaded total records last ∧
        ∀ files fixture report json log, load files fixture = .ok loaded →
          Ensures ((Command.verify fixture report json log).action s) ⟨files, "", ""⟩ fun r console =>
            (r = .error (.run (.casesFailed total.failed total.total)) ↔
              ∃ c ∈ cases, c.Runnable s.features ∧ ¬ c.Passes s.features) ∧
            (r = .ok () ↔ ∀ c ∈ cases, c.Runnable s.features → c.Passes s.features) ∧
            ∃ logged doc, doc.summary = total ∧ PutReport report doc logged console.files ∧
              (∀ page ∈ report,
                console.files.read (Path.withExtension page "json") = .ok (utf8 doc.toText)) ∧
              let text := textOf (records ++ [last])
              Text.lines text.toList = (records ++ [last]).map (·.line.toList) ++ [[]] ∧
              ∀ path ∈ log, logged.read path = .ok (utf8 text) ∧
                (ReportApart report path console.files → console.files.read path = .ok (utf8 text))) ∧
    (¬ Allocating s.features cases →
      ∀ files fixture report json log, load files fixture = .ok loaded →
        Ensures ((Command.verify fixture report json log).action s) ⟨files, "", ""⟩ fun r console =>
          r = .error (.run (.panicked .capacityOverflow)) ∧
          ∃ front l back records, loaded = front ++ l :: back ∧
            Allocating s.features (front.flatMap (·.set.cases)) ∧
            ¬ Allocating s.features l.set.cases ∧
            AreOf s.features (schedule s.features front ++ skippedIn s.features l) records ∧
            Text.lines (textOf records).toList = records.map (·.line.toList) ++ [[]] ∧
            ∃ started, Put log [] files started ∧
              Put log (utf8 (textOf records)) started console.files) := by
  intro cases total
  refine ⟨fun allocating => ?_, fun panics => ?_⟩
  · have covers : total.Covers s.features cases := summary_covers s.features allocating
    obtain ⟨records, last, isLog, written⟩ := log_isLog s allocating
    refine ⟨covers, records, last, isLog, fun files fixture report json log load => ?_⟩
    refine (ensures_whole s allocating load report json log).mono fun r console => ?_
    rintro ⟨rfl, started, logged, doc, same, putLog, putReport⟩
    rw [written] at putLog
    refine ⟨?_, ?_, logged, doc, same, putReport, ?_, LogEmitter.lines_text _, ?_⟩
    · rw [← verdict_error_iff s.features covers]
      cases verdict total <;> simp [Except.mapError]
    · rw [← verdict_ok_iff s.features covers]
      cases verdict total <;> simp [Except.mapError]
    · rintro page ⟨⟩
      exact putReport.read
    · rintro path ⟨⟩
      have read := Files.write_read putLog
      exact ⟨read, putReport.keeps_read read⟩
  · intro files fixture report json log load
    refine (ensures_panic s panics load report json log).mono fun r console => ?_
    rintro ⟨rfl, front, l, back, started, split, before, own, first, putLog⟩
    obtain ⟨records, are, written⟩ := cutLog_areOf s before l
    exact ⟨rfl, front, l, back, records, split, before, own, are, LogEmitter.lines_text _, started,
      first, written ▸ putLog⟩

/-- A case that passes, one that cannot be run without floats, and one that fails. -/
def mixedSet : FixtureSet := ⟨"1", "", "", [
  { name := "p", format := "a", expectedOutput := "a" },
  { name := "s", format := "", expectedOutput := "", requires := ["float-specifiers"] },
  { name := "f", format := "%%", expectedOutput := "" }]⟩

/-- A directory with a file of these cases, all records written as lists. -/
def mixedFiles : Files := .ofList [("f/a.json", utf8 (
  "[\"1\",\"\",\"\",[[\"p\",\"\",\"a\",[],null,\"a\"]," ++
  "[\"s\",\"\",\"\",[],null,\"\",null,[\"float-specifiers\"]]," ++
  "[\"f\",\"\",\"%%\",[],null,\"\"]]]"))]

/-- A case that cannot be run without floats, and one whose destination cannot be had. -/
def hugeSet : FixtureSet := ⟨"1", "", "", [
  { name := "s", format := "", expectedOutput := "", requires := ["float-specifiers"] },
  { name := "h", format := "abc", capacity := some 9223372036854775808, expectedOutput := "abc" }]⟩

def hugeFiles : Files := .ofList [("f/a.json", utf8 (
  "[\"1\",\"\",\"\",[[\"s\",\"\",\"\",[],null,\"\",null,[\"float-specifiers\"]]," ++
  "[\"h\",\"\",\"abc\",[],9223372036854775808,\"abc\"]]]"))]

theorem verification_runs_judge_every_case_mixed :
    let s : Surroundings := ⟨⟨false, true⟩, ⟨0, 0⟩, 7, 0⟩
    let ran (files : Files) :=
      ((Command.verify "f" none false (some "log")).action s).run ⟨files, "", ""⟩
    (load mixedFiles "f" = .ok [⟨"f/a.json", mixedSet⟩] ∧
      (ran mixedFiles).1 = .error (.run (.casesFailed 1 2)) ∧
      (∃ c ∈ mixedSet.cases, c.Runnable s.features ∧ ¬ c.Passes s.features) ∧
      ∃ text, (ran mixedFiles).2.files.read "log" = .ok (utf8 text) ∧
        LogValidation.validate text = (4, [])) ∧
    (load hugeFiles "f" = .ok [⟨"f/a.json", hugeSet⟩] ∧
      (ran hugeFiles).1 = .error (.run (.panicked .capacityOverflow)) ∧
      ∃ text, (ran hugeFiles).2.files.read "log" = .ok (utf8 text) ∧
        (Text.lines text.toList).length = 2) := by
  intro s ran
  have loads : load mixedFiles "f" = .ok [⟨"f/a.json", mixedSet⟩] := by decide +kernel
  have ends : (ran mixedFiles).1 = .error (.run (.casesFailed 1 2)) := by decide +kernel
  have unfailed : ∀ e, (ran mixedFiles).1 = .error e → ¬ e.OfFile := by
    rintro e failed
    cases ends.symm.trans failed
    exact id
  obtain ⟨_, records, last, isLog, run⟩ :=
    (verification_runs_judge_every_case s [⟨"f/a.json", mixedSet⟩]).1 (by decide +kernel)
  obtain ⟨_, ok, logged, doc, _, _, _, _, put⟩ :=
    run mixedFiles "f" none false (some "log") loads (ran mixedFiles).1 (ran mixedFiles).2 rfl unfailed
  obtain ⟨_, stays⟩ := put "log" rfl
  have scheduled : (schedule s.features [⟨"f/a.json", mixedSet⟩]).length = 3 := by decide +kernel
  have validated := (isLog.readBack (by decide +kernel)).2
  rw [← isLog.cases.length_eq, scheduled] at validated
  refine ⟨⟨loads, ends, ?_, _, stays nofun, validated⟩, ?_⟩
  · by_contra all
    push Not at all
    cases ends.symm.trans (ok.mpr all)
  have loads' : load hugeFiles "f" = .ok [⟨"f/a.json", hugeSet⟩] := by decide +kernel
  have ends' : (ran hugeFiles).1 = .error (.run (.panicked .capacityOverflow)) := by decide +kernel
  have unfailed' : ∀ e, (ran hugeFiles).1 = .error e → ¬ e.OfFile := by
    rintro e failed
    cases ends'.symm.trans failed
    exact id
  obtain ⟨_, front, l, back, records, split, _, _, are, lines, _, _, put⟩ :=
    (verification_runs_judge_every_case s [⟨"f/a.json", hugeSet⟩]).2 (by decide +kernel) hugeFiles "f"
      none false (some "log") loads' (ran hugeFiles).1 (ran hugeFiles).2 rfl unfailed'
  obtain ⟨rfl, rfl⟩ := front_of_singleton split
  have scheduled : (schedule s.features [] ++ skippedIn s.features ⟨"f/a.json", hugeSet⟩).length = 1 := by
    decide +kernel
  refine ⟨loads', ends', _, Files.write_read put, ?_⟩
  rw [lines, List.length_append, List.length_map, ← are.length_eq, scheduled]
  rfl

end Printf
