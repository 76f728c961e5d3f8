import Mathlib.Data.List.Forall2
import Mathlib.Tactic.Push
import Mathlib.Tactic.SplitIfs
import Printf.Conformance.Run
import Printf.Proofs.CaseRuns

/-! What a verification run says about its cases. Each case is either run or skipped, by the features
that it requires; its result is its own, and summary and verdict count the same cases. A run comes to
its end just if each case that it runs has a destination that can be had. -/
namespace Printf

def Features.Enables (features : Features) (name : String) : Prop :=
  name = "float-specifiers" ∧ features.float = true ∨ name = "c99-specifiers" ∧ features.c99 = true

instance (features : Features) (name : String) : Decidable (features.Enables name) :=
  inferInstanceAs (Decidable (_ ∨ _))

namespace FixtureCase

variable (features : Features) (c : FixtureCase)

def Runnable : Prop := ∀ name ∈ c.requires, features.Enables name

instance : Decidable (c.Runnable features) := inferInstanceAs (Decidable (∀ name ∈ c.requires, _))

/-- A case passes if it is run to its end and its output is the expected one and its result, where one
is expected, too. -/
def Passes : Prop :=
  ∃ run, c.execute features = .ok run ∧ run.output = c.expectedOutput ∧
    ∀ n ∈ c.expectedReturn, n = run.returned

/-- The result of a case whose destination can be had. -/
def judged : VerificationResult := c.judge (c.given features)

theorem supported_iff : c.supported features = true ↔ c.Runnable features := by
  have names (name : String) : features.names.contains name = true ↔ features.Enables name := by
    rw [Features.names, Features.Enables]
    cases features.float <;> cases features.c99 <;> simp
  simp only [supported, List.all_eq_true, names, Runnable]

theorem supported_eq : supported features = fun c => decide (c.Runnable features) := by
  funext c
  rw [Bool.eq_iff_iff, c.supported_iff, decide_eq_true_iff]

theorem verify_eq : c.verify features =
    if c.Allocates features then .ok (c.judged features) else .error .capacityOverflow := by
  rw [verify, execute_eq]
  split <;> rfl

end FixtureCase

/-- A result is that of a case: it has passed just if the case passes, and has a diff just if not. -/
structure VerificationResult.IsOf (features : Features) (c : FixtureCase) (r : VerificationResult) :
    Prop where
  ran : c.execute features = .ok ⟨r.actual, r.actualReturn⟩
  caseName : r.caseName = c.name
  clause : r.clause = c.clause
  expected : r.expected = c.expectedOutput
  expectedReturn : r.expectedReturn = c.expectedReturn
  passed : r.passed = true ↔ c.Passes features
  diff : r.diff.isSome ↔ ¬ c.Passes features

namespace FixtureCase

variable (features : Features) (c : FixtureCase)

/-- There is nothing to say about a case just if it passes. -/
theorem notes_eq_nil_iff (run : CaseRun) : c.notes run = [] ↔ (c.judge run).passed = true := by
  rw [notes, judge, List.append_eq_nil_iff, Bool.and_eq_true]
  cases expected : c.expectedReturn <;> simp [returnOk, expected]

theorem judge_passed_iff (run : CaseRun) : (c.judge run).passed = true ↔
    run.output = c.expectedOutput ∧ ∀ n ∈ c.expectedReturn, n = run.returned := by
  rw [judge, Bool.and_eq_true, outputOk, returnOk, beq_iff_eq]
  cases c.expectedReturn <;> simp

theorem passes_iff {run : CaseRun} (ran : c.execute features = .ok run) :
    c.Passes features ↔ (c.judge run).passed = true := by
  rw [Passes, judge_passed_iff]
  simp only [ran, Except.ok.injEq, exists_eq_left']

theorem judge_isOf {run : CaseRun} (ran : c.execute features = .ok run) :
    (c.judge run).IsOf features c where
  ran := ran
  caseName := rfl
  clause := rfl
  expected := rfl
  expectedReturn := rfl
  passed := (c.passes_iff features ran).symm
  diff := by
    rw [c.passes_iff features ran, ← notes_eq_nil_iff, ← List.isEmpty_iff, judge]
    cases (c.notes run).isEmpty <;> simp

theorem judged_isOf {c : FixtureCase} (allocates : c.Allocates features) :
    (c.judged features).IsOf features c := c.judge_isOf features (execute_ok allocates)

instance : Decidable (c.Passes features) :=
  decidable_of_iff ((c.execute features).toOption.any fun run => (c.judge run).passed) <| by
    cases ran : c.execute features with
    | error e => simp [Passes, ran, Except.toOption]
    | ok run => simp [c.passes_iff features ran, Except.toOption]

def outcome : LogOutcome :=
  if c.Runnable features then if c.Passes features then .pass else .fail else .skip

theorem outcome_skip_iff : c.outcome features = .skip ↔ ¬ c.Runnable features := by
  rw [outcome]
  split_ifs with runnable passes <;> simp [runnable]

theorem outcome_pass_iff : c.outcome features = .pass ↔ c.Runnable features ∧ c.Passes features := by
  rw [outcome]
  split_ifs with runnable passes <;> simp [*]

theorem outcome_fail_iff : c.outcome features = .fail ↔ c.Runnable features ∧ ¬ c.Passes features := by
  rw [outcome]
  split_ifs with runnable passes <;> simp [*]

end FixtureCase

def tally (features : Features) (cases : List FixtureCase) (o : LogOutcome) : Nat :=
  cases.countP fun c => c.outcome features = o

section
variable (features : Features) (cases : List FixtureCase)

theorem tally_skip : tally features cases .skip = cases.countP fun c => ¬ c.Runnable features := by
  simp only [tally, FixtureCase.outcome_skip_iff]

theorem tally_pass :
    tally features cases .pass = (cases.filter (·.Runnable features)).countP (·.Passes features) := by
  simp only [tally, FixtureCase.outcome_pass_iff, List.countP_filter, Bool.decide_and, Bool.and_comm]

theorem tally_fail :
    tally features cases .fail = (cases.filter (·.Runnable features)).countP (¬ ·.Passes features) := by
  simp only [tally, FixtureCase.outcome_fail_iff, List.countP_filter, Bool.decide_and, Bool.and_comm]

/-- A case that can be run passes or fails. -/
theorem tally_runnable : (cases.filter (·.Runnable features)).length =
    tally features cases .pass + tally features cases .fail := by
  rw [tally_pass, tally_fail, List.length_eq_countP_add_countP (·.Passes features)]
  simp

end

/-- A summary of some cases. Each of them is skipped or has the result in its place. -/
structure VerificationSummary.Covers (features : Features) (cases : List FixtureCase)
    (s : VerificationSummary) : Prop where
  all : s.skipped + s.total = cases.length
  judged : s.total = s.passed + s.failed
  length : s.results.length = s.total
  results : List.Forall₂ (fun c r => r.IsOf features c) (cases.filter (·.Runnable features)) s.results
  passed : s.passed = tally features cases .pass
  failed : s.failed = tally features cases .fail
  skipped : s.skipped = tally features cases .skip

/-- Every case that is run has a destination that can be had. -/
def Allocating (features : Features) (cases : List FixtureCase) : Prop :=
  ∀ c ∈ cases, c.Runnable features → c.Allocates features

instance (features : Features) (cases : List FixtureCase) : Decidable (Allocating features cases) :=
  inferInstanceAs (Decidable (∀ c ∈ cases, _ → _))

theorem allocating_append {features : Features} {front behind : List FixtureCase} :
    Allocating features (front ++ behind) ↔
      Allocating features front ∧ Allocating features behind := List.forall_mem_append

def summaryOf (features : Features) (cases : List FixtureCase) : VerificationSummary :=
  .ofResults ((cases.filter (·.Runnable features)).map (·.judged features))
    (tally features cases .skip)

namespace Conformance

variable (features : Features)

theorem mapM_ite {α β ε : Type} {p : α → Prop} [DecidablePred p] {f : α → β} {e : ε} (xs : List α) :
    xs.mapM (fun x => if p x then Except.ok (f x) else .error e) =
      if ∀ x ∈ xs, p x then .ok (xs.map f) else .error e := by
  induction xs with
  | nil => rfl
  | cons x xs ih =>
    rw [List.mapM_cons, ih]
    by_cases first : p x
    · by_cases later : ∀ x ∈ xs, p x
      · rw [if_pos first, if_pos later, if_pos (List.forall_mem_cons.mpr ⟨first, later⟩)]
        rfl
      · rw [if_pos first, if_neg later, if_neg fun all => later (List.forall_mem_cons.mp all).2]
        rfl
    · rw [if_neg first, if_neg fun all => first (List.forall_mem_cons.mp all).1]
      rfl

theorem supported_set (s : FixtureSet) :
    s.supported features = s.cases.filter (·.Runnable features) := by
  rw [FixtureSet.supported, FixtureCase.supported_eq]

theorem skipped_set (s : FixtureSet) :
    s.skipped features = s.cases.filter (¬ ·.Runnable features) := by
  rw [FixtureSet.skipped, FixtureCase.supported_eq]
  simp only [decide_not]

/-- The results of a set are those of its cases, unless one of them ends in a panic. -/
theorem verify_set (s : FixtureSet) : s.verify features =
    if Allocating features s.cases then .ok ((s.supported features).map (·.judged features))
    else .error .capacityOverflow := by
  have cases : (∀ c ∈ s.supported features, c.Allocates features) ↔ Allocating features s.cases := by
    simp only [supported_set, List.mem_filter, decide_eq_true_iff, and_imp, Allocating]
  simp only [FixtureSet.verify, FixtureCase.verify_eq, mapM_ite, cases]

/-- The summary of a run covers its cases. -/
theorem summary_covers {cases : List FixtureCase} (allocating : Allocating features cases) :
    (summaryOf features cases).Covers features cases := by
  have judged : ∀ c ∈ cases.filter (·.Runnable features), (c.judged features).IsOf features c := by
    intro c member
    obtain ⟨among, runnable⟩ := List.mem_filter.mp member
    exact FixtureCase.judged_isOf features (allocating c among (of_decide_eq_true runnable))
  have passed : ((cases.filter (·.Runnable features)).map (·.judged features)).countP (·.passed) =
      tally features cases .pass := by
    rw [tally_pass, List.countP_map]
    refine List.countP_congr fun c member => ?_
    rw [Function.comp_apply, (judged c member).passed, decide_eq_true_iff]
  have runnable := tally_runnable features cases
  have all : tally features cases .skip + (cases.filter (·.Runnable features)).length =
      cases.length := by
    rw [tally_skip, ← List.countP_eq_length_filter, Nat.add_comm,
      List.length_eq_countP_add_countP fun c => decide (c.Runnable features)]
    simp only [decide_eq_true_iff]
  rw [runnable] at all
  simp only [summaryOf, VerificationSummary.ofResults, passed, List.length_map, runnable]
  exact {
    all := all
    judged := (Nat.add_sub_of_le (Nat.le_add_right _ _)).symm
    length := (List.length_map _).trans runnable
    results := List.forall₂_map_right_iff.mpr (List.forall₂_same.mpr judged)
    passed := rfl
    failed := Nat.add_sub_cancel_left _ _
    skipped := rfl }

/-- The entries of a set whose cases can all be run. -/
def setEntries (now : Instant) (l : Loaded) : List LogEntry :=
  skippedEntries features now l ++
    resultEntries features now l ((l.set.supported features).map (·.judged features))

/-- Results stand in the order of their cases, so that each entry gets its own case. -/
theorem resultEntries_judged (now : Instant) (l : Loaded) :
    resultEntries features now l ((l.set.supported features).map (·.judged features)) =
      (l.set.supported features).map fun c => resultEntry now l c (c.judged features) := by
  rw [resultEntries]
  generalize l.set.supported features = cases
  induction cases with
  | nil => rfl
  | cons c cases ih => rw [List.map_cons, List.zip_cons_cons, List.map_cons, ih, List.map_cons]

theorem LogFile.emitAll_append (log : LogFile) (front behind : List LogEntry) :
    log.emitAll (front ++ behind) = (log.emitAll front).emitAll behind := by
  simp only [LogFile.emitAll, LogEmitter.emitAll, List.foldl_append]

def Progress.past (now : Instant) (digests : List FixtureDigest) (loaded : List Loaded)
    (p : Progress) : Progress where
  digests := p.digests ++ digests
  skipped := p.skipped + (loaded.flatMap fun l => l.set.skipped features).length
  results := p.results ++ (loaded.flatMap fun l => l.set.supported features).map (·.judged features)
  log := p.log.map (·.emitAll (loaded.flatMap (setEntries features now)))

theorem Progress.past_past (now : Instant) (p : Progress) (ds ds' : List FixtureDigest)
    (front back : List Loaded) :
    (p.past features now ds front).past features now ds' back =
      p.past features now (ds ++ ds') (front ++ back) := by
  simp only [past, List.append_assoc, List.flatMap_append, List.length_append, List.map_append,
    Nat.add_assoc, Option.map_map, Function.comp_def, LogFile.emitAll_append]

inductive Ends (now : Instant) (loaded : List Loaded) (p : Progress) :
    Except RunFailure Unit × Progress → Prop where
  | failed (e : FileError) (q : Progress) : Ends now loaded p (.error (.file e), q)
  | whole (digests : List FixtureDigest) :
      Allocating features (loaded.flatMap (·.set.cases)) →
      Ends now loaded p (.ok (), p.past features now digests loaded)
  /-- A set in which a case ends in a panic has only its skipped cases in the log. -/
  | cutShort (front : List Loaded) (l : Loaded) (back : List Loaded) (q : Progress) :
      loaded = front ++ l :: back →
      Allocating features (front.flatMap (·.set.cases)) → ¬ Allocating features l.set.cases →
      q.log = p.log.map (·.emitAll
        (front.flatMap (setEntries features now) ++ skippedEntries features now l)) →
      Ends now loaded p (.error (.panicked .capacityOverflow), q)

theorem front_of_singleton {α : Type} {x y : α} {front back : List α}
    (split : [x] = front ++ y :: back) : front = [] ∧ x = y := by
  cases front with
  | nil => exact ⟨rfl, (List.cons.inj split).1⟩
  | cons z front => simp at split

theorem verifySet_ends (files : Files) (now : Instant) (l : Loaded) (p : Progress) :
    Ends features now [l] p (verifySet features files now l p) := by
  rw [verifySet, verify_set]
  cases digest files l with
  | error e => exact .failed e p
  | ok d =>
    by_cases allocating : Allocating features l.set.cases
    · have past : p.past features now [d] [l] =
          { digests := p.digests ++ [d]
            skipped := p.skipped + (l.set.skipped features).length
            results := p.results ++ (l.set.supported features).map (·.judged features)
            log := (p.log.map (·.emitAll (skippedEntries features now l))).map (·.emitAll
              (resultEntries features now l ((l.set.supported features).map (·.judged features)))) } := by
        simp only [Progress.past, List.flatMap_cons, List.flatMap_nil, List.append_nil, setEntries,
          LogFile.emitAll_append, Option.map_map, Function.comp_def]
      rw [if_pos allocating]
      dsimp only
      rw [← past]
      exact .whole [d] (by simpa using allocating)
    · rw [if_neg allocating]
      exact .cutShort [] l [] _ rfl (by simp [Allocating]) allocating rfl

/-- A run goes on behind each set that comes to its end. -/
theorem verifySets_ends (files : Files) (now : Instant) (loaded : List Loaded) (p : Progress) :
    Ends features now loaded p (verifySets features files now loaded p) := by
  induction loaded generalizing p with
  | nil =>
    have past : p.past features now [] [] = p := by
      obtain ⟨digests, skipped, results, log⟩ := p
      simp [Progress.past, LogFile.emitAll, LogEmitter.emitAll]
    have whole : Ends features now [] p (.ok (), p.past features now [] []) :=
      .whole [] (by simp [Allocating])
    rwa [past] at whole
  | cons l loaded ih =>
    -- the first set ends the run, or leaves behind what the run over the others starts from
    have first := verifySet_ends features files now l p
    rw [verifySets]
    generalize verifySet features files now l p = ended at first
    cases first with
    | failed e q => exact .failed e q
    | whole ds allocating =>
      have own : Allocating features l.set.cases := by simpa using allocating
      have later := ih (p.past features now ds [l])
      dsimp only
      generalize verifySets features files now loaded (p.past features now ds [l]) = ended at later
      cases later with
      | failed e q => exact .failed e q
      | whole ds' allocating' =>
        rw [Progress.past_past]
        refine .whole (ds ++ ds') ?_
        rw [List.flatMap_cons]
        exact allocating_append.mpr ⟨own, allocating'⟩
      | cutShort front l' back q split before panics log =>
        refine .cutShort (l :: front) l' back q (congrArg (l :: ·) split) ?_ panics ?_
        · rw [List.flatMap_cons]
          exact allocating_append.mpr ⟨own, before⟩
        · rw [log, Progress.past, Option.map_map]
          simp only [Function.comp_def, ← LogFile.emitAll_append, List.flatMap_cons, List.flatMap_nil,
            List.append_nil, List.append_assoc]
    | cutShort front l' back q split before panics log =>
      obtain ⟨rfl, rfl⟩ := front_of_singleton split
      exact .cutShort [] l loaded q rfl before panics log

section
variable {features : Features} {now : Instant} {loaded : List Loaded} {p : Progress}
  {ended : Except RunFailure Unit × Progress}

/-- A run whose cases have their destinations is no panic. -/
theorem Ends.of_allocating (ends : Ends features now loaded p ended)
    (allocating : Allocating features (loaded.flatMap (·.set.cases))) :
    (∃ e q, ended = (.error (.file e), q)) ∨
      ∃ digests, ended = (.ok (), p.past features now digests loaded) := by
  cases ends with
  | failed e q => exact .inl ⟨e, q, rfl⟩
  | whole digests _ => exact .inr ⟨digests, rfl⟩
  | cutShort front l back q split _ panics =>
    rw [split, List.flatMap_append, List.flatMap_cons, allocating_append, allocating_append] at allocating
    exact absurd allocating.2.1 panics

/-- A run with a case that does not is cut short in the set with the case. -/
theorem Ends.of_not_allocating (ends : Ends features now loaded p ended)
    (panics : ¬ Allocating features (loaded.flatMap (·.set.cases))) :
    (∃ e q, ended = (.error (.file e), q)) ∨
      ∃ front l back q, ended = (.error (.panicked .capacityOverflow), q) ∧
        loaded = front ++ l :: back ∧ Allocating features (front.flatMap (·.set.cases)) ∧
        ¬ Allocating features l.set.cases ∧
        q.log = p.log.map (·.emitAll
          (front.flatMap (setEntries features now) ++ skippedEntries features now l)) := by
  cases ends with
  | failed e q => exact .inl ⟨e, q, rfl⟩
  | whole digests allocating => exact absurd allocating panics
  | cutShort front l back q split before own log =>
    exact .inr ⟨front, l, back, q, rfl, split, before, own, log⟩

end

def Progress.unlogged (p : Progress) : Progress := { p with log := none }

/-- A log makes no difference to what a run comes to. -/
theorem verifySets_unlogged (files : Files) (now : Instant) (loaded : List Loaded) (p : Progress) :
    verifySets features files now loaded p.unlogged =
      ((verifySets features files now loaded p).1,
        (verifySets features files now loaded p).2.unlogged) := by
  induction loaded generalizing p with
  | nil => rfl
  | cons l loaded ih =>
    have set : verifySet features files now l p.unlogged =
        ((verifySet features files now l p).1, (verifySet features files now l p).2.unlogged) := by
      rw [verifySet, verifySet]
      cases digest files l with
      | error e => rfl
      | ok d => cases l.set.verify features <;> rfl
    rw [verifySets, verifySets, set]
    rcases verifySet features files now l p with ⟨e | _, q⟩
    · rfl
    · exact ih q

theorem report_of_verifySets {files : Files} {now : Instant} {loaded : List Loaded}
    {log : Option LogFile} {p : Progress} (title : String)
    (ran : verifySets features files now loaded { log } = (.ok (), p)) :
    report features files now title loaded = .ok (p.report features now title) := by
  have unlogged := verifySets_unlogged features files now loaded { log }
  rw [ran] at unlogged
  have start : Progress.unlogged { log } = {} := rfl
  rw [report, ← start, unlogged]
  rfl

theorem failed_eq_zero_iff {s : VerificationSummary} {cases : List FixtureCase}
    (covers : s.Covers features cases) :
    s.failed = 0 ↔ ∀ c ∈ cases, c.Runnable features → c.Passes features := by
  rw [covers.failed, tally, List.countP_eq_zero]
  simp only [decide_eq_true_iff, FixtureCase.outcome_fail_iff, not_and, not_not]

theorem verdict_ok_iff {s : VerificationSummary} {cases : List FixtureCase}
    (covers : s.Covers features cases) :
    verdict s = .ok () ↔ ∀ c ∈ cases, c.Runnable features → c.Passes features := by
  rw [← failed_eq_zero_iff features covers, verdict, VerificationSummary.allPassed]
  split <;> simp_all

/-- The verdict is that of the cases: one that can be run and does not pass makes it a failure. -/
theorem verdict_error_iff {s : VerificationSummary} {cases : List FixtureCase}
    (covers : s.Covers features cases) :
    verdict s = .error (.casesFailed s.failed s.total) ↔
      ∃ c ∈ cases, c.Runnable features ∧ ¬ c.Passes features := by
  rw [← not_iff_not]
  push Not
  rw [← verdict_ok_iff features covers, verdict]
  split <;> simp

end Conformance
end Printf
