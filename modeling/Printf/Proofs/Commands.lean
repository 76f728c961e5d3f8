import Printf.Command
import Printf.Proofs.FileTree

/-! What a command does step by step, as long as no file operation fails. A verification run leaves
its log and its report in the files and ends with the verdict on its summary; one that is cut short
leaves the log. -/
namespace Printf

def CommandError.OfFile : CommandError → Prop
  | .file _ => True
  | .run (.file _) => True
  | _ => False

namespace Command

/-- What holds of the result and the state that an action ends with, unless a file operation fails. -/
def Ensures {α : Type} (x : Action α) (c : Console) (Q : Except CommandError α → Console → Prop) :
    Prop :=
  ∀ r c', x.run c = (r, c') → (∀ e, r = .error e → ¬ e.OfFile) → Q r c'

theorem Ensures.mono {α : Type} {x : Action α} {c : Console}
    {P Q : Except CommandError α → Console → Prop} (ensured : Ensures x c P)
    (weaker : ∀ r c', P r c' → Q r c') : Ensures x c Q :=
  fun r c' ended unfailed => weaker r c' (ensured r c' ended unfailed)

section
variable {α β ε : Type} {c : Console} {Q : Except CommandError β → Console → Prop}

theorem run_bind (x : Action α) (f : α → Action β) (c : Console) :
    (x >>= f).run c = match x.run c with
      | (.ok a, c') => (f a).run c'
      | (.error e, c') => (.error e, c') := by
  show (match x.run c with | (r, c') => ExceptT.bindCont f r c') = _
  rcases x.run c with ⟨_ | _, _⟩ <;> rfl

/-- Behind a step that succeeds the rest goes on. -/
theorem Ensures.step {x : Action α} {f : α → Action β} {a : α} {c' : Console}
    (run : x.run c = (.ok a, c')) (next : Ensures (f a) c' Q) : Ensures (x >>= f) c Q := by
  intro r c'' ended
  rw [run_bind, run] at ended
  exact next r c'' ended

/-- Nothing is said about a file operation that fails. -/
theorem Ensures.failed {x : Action α} {f : α → Action β} {e : CommandError} {c' : Console}
    (run : x.run c = (.error e, c')) (ofFile : e.OfFile) : Ensures (x >>= f) c Q := by
  intro r c'' ended unfailed
  rw [run_bind, run] at ended
  cases ended
  exact absurd ofFile (unfailed e rfl)

theorem ensures_warnLine {f : Unit → Action β} (text : String)
    (next : ∀ c' : Console, c'.files = c.files → Ensures (f ()) c' Q) :
    Ensures (warnLine text >>= f) c Q :=
  .step rfl (next { c with stderr := c.stderr ++ text ++ "\n" } rfl)

theorem ensures_printLine {f : Unit → Action β} (text : String)
    (next : ∀ c' : Console, c'.files = c.files → Ensures (f ()) c' Q) :
    Ensures (printLine text >>= f) c Q :=
  .step rfl (next { c with stdout := c.stdout ++ text ++ "\n" } rfl)

theorem ensures_get {f : Console → Action β} (next : Ensures (f c) c Q) : Ensures (get >>= f) c Q :=
  .step rfl next

theorem run_orFail (wrap : ε → CommandError) (a : Except ε α) (c : Console) :
    (orFail wrap a).run c = (a.mapError wrap, c) := by
  cases a <;> rfl

theorem run_changeFiles (change : Files → Except FileError Files) (c : Console) :
    (changeFiles change).run c = match change c.files with
      | .ok files => (.ok (), { c with files })
      | .error e => (.error (.file e), c) := by
  have run : (changeFiles change).run c =
      (orFail .file (change c.files) >>= fun files => modify fun c => { c with files }).run c := rfl
  rw [run]
  cases change c.files <;> rfl

theorem ensures_changeFiles {f : Unit → Action β} {change : Files → Except FileError Files}
    (next : ∀ files, change c.files = .ok files → ∀ c' : Console, c'.files = files →
      Ensures (f ()) c' Q) :
    Ensures (changeFiles change >>= f) c Q := by
  have run := run_changeFiles change c
  cases changed : change c.files with
  | error e =>
    rw [changed] at run
    exact .failed run trivial
  | ok files =>
    rw [changed] at run
    exact .step run (next files changed _ rfl)

/-- Lines that are written one after the other leave the files as they are. -/
theorem ensures_warnLines {f : PUnit → Action β} (items : List α) (text : α → String)
    (next : ∀ c' : Console, c'.files = c.files → Ensures (f ⟨⟩) c' Q) :
    Ensures ((forIn items PUnit.unit fun a _ => do
      warnLine (text a)
      pure (ForInStep.yield PUnit.unit)) >>= f) c Q := by
  induction items generalizing c with
  | nil => exact .step rfl (next c rfl)
  | cons a items ih =>
    rw [List.forIn_cons]
    simp only [bind_assoc, pure_bind]
    refine ensures_warnLine _ fun c' files => ih fun c'' files' => next c'' (files'.trans files)

end

/-- A file that is written, if there is a path for it. -/
def Put (path : Option String) (content : Bytes) (before after : Files) : Prop :=
  path.elim (after = before) fun path => before.write path content = .ok after

/-- What was written can be written again. -/
theorem Put.again {path : Option String} {content : Bytes} {before after : Files}
    (put : Put path content before after) (content' : Bytes) :
    ∃ again, Put path content' after again := by
  cases path with
  | none => exact ⟨after, rfl⟩
  | some path => exact Files.write_again put content'

/-- A report that is written, if there is a path for it: its directory is made, then come its page and
its document. -/
def PutReport (path : Option String) (r : ConformanceReport) (before after : Files) : Prop :=
  path.elim (after = before) fun path => ∃ made paged,
    (made = before ∨ ∃ directory, before.makeDirectories directory = .ok made) ∧
    made.write path (utf8 r.markdown) = .ok paged ∧
    paged.write (Path.withExtension path "json") (utf8 r.toText) = .ok after

def putReport (path : Option String) (r : ConformanceReport) : Action Unit :=
  match path with
  | some path => writeReport path r
  | none => pure ()

def printDocument (json : Bool) (r : ConformanceReport) : Action Unit :=
  if json then printLine r.toText else pure ()

section
variable {β : Type} {c : Console} {Q : Except CommandError β → Console → Prop} {f : Unit → Action β}

theorem ensures_printDocument {json : Bool} {r : ConformanceReport}
    (next : ∀ c' : Console, c'.files = c.files → Ensures (f ()) c' Q) :
    Ensures (printDocument json r >>= f) c Q := by
  cases json with
  | false => exact .step rfl (next c rfl)
  | true => exact ensures_printLine _ next

theorem ensures_putReport {path : Option String} {r : ConformanceReport}
    (next : ∀ c' : Console, PutReport path r c.files c'.files → Ensures (f ()) c' Q) :
    Ensures (putReport path r >>= f) c Q := by
  cases path with
  | none => exact .step rfl (next c rfl)
  | some path =>
    -- the page and the document, in a tree that has their directory
    have written {c₁ : Console} (made : c₁.files = c.files ∨
        ∃ directory, c.files.makeDirectories directory = .ok c₁.files) :
        Ensures (changeFiles (fun files => files.write path (utf8 r.markdown)) >>= fun _ =>
          changeFiles (fun files => files.write (Path.withExtension path "json") (utf8 r.toText)) >>=
            f) c₁ Q := by
      refine ensures_changeFiles fun paged page c₂ files₂ => ?_
      refine ensures_changeFiles fun after document c₃ files₃ => next c₃ ?_
      exact ⟨c₁.files, paged, made, page, files₃ ▸ files₂ ▸ document⟩
    simp only [putReport, writeReport, bind_assoc]
    refine ensures_warnLine _ fun c₁ files₁ => ?_
    cases Path.parent? path with
    | none =>
      simp only [bind_assoc]
      exact written (.inl files₁)
    | some directory =>
      simp only [bind_assoc]
      refine ensures_changeFiles fun made change c₂ files₂ => written (.inr ⟨directory, ?_⟩)
      rw [files₂, ← files₁]
      exact change

end

open Conformance (LogFile Progress)

def emitter (s : Surroundings) : LogEmitter :=
  { campaign, runId := Radix.decimalText s.processId }

def logFile (s : Surroundings) (path : Option String) : Option LogFile :=
  path.map fun path => ⟨path, emitter s⟩

def Flushed (log : Option LogFile) (before after : Files) : Prop :=
  log.elim (after = before) fun log => log.flush before = .ok after

theorem flushed_iff {s : Surroundings} {path : Option String} {entries : List LogEntry}
    {before after : Files} : Flushed ((logFile s path).map (·.emitAll entries)) before after ↔
      Put path (utf8 ((emitter s).emitAll entries).text) before after := by
  cases path <;> rfl

section
variable {β : Type} {c : Console} {Q : Except CommandError β → Console → Prop}

theorem ensures_openLog {s : Surroundings} {path : Option String} {f : Option LogFile → Action β}
    (next : ∀ c' : Console, Put path [] c.files c'.files → Ensures (f (logFile s path)) c' Q) :
    Ensures (openLog s path >>= f) c Q := by
  cases path with
  | none => exact .step rfl (next c rfl)
  | some path =>
    simp only [openLog, bind_assoc, pure_bind]
    refine ensures_changeFiles fun files written c' same => next c' ?_
    rw [same]
    exact written

theorem ensures_flushLog {log : Option LogFile} {f : Unit → Action β}
    (next : ∀ c' : Console, Flushed log c.files c'.files → Ensures (f ()) c' Q) :
    Ensures (flushLog log >>= f) c Q := by
  cases log with
  | none => exact .step rfl (next c rfl)
  | some log =>
    refine ensures_changeFiles fun files written c' same => next c' ?_
    rw [same]
    exact written

end

/-- A run that is cut short ends with its failure and, if that can be done, a flushed log. -/
theorem run_cutShort (log : Option LogFile) (e : RunFailure) (c : Console) :
    ∃ c', (cutShort log e).run c = (.error (.run e), c') ∧
      ∀ after, Flushed log c.files after → c'.files = after := by
  cases log with
  | none => exact ⟨c, rfl, fun after same => same.symm⟩
  | some log =>
    refine ⟨_, rfl, fun after flushed => ?_⟩
    have written : log.flush c.files = .ok after := flushed
    show (log.flush c.files).toOption.getD c.files = after
    rw [written]
    rfl

/-- The end of a run as a sequence of steps. -/
theorem conclude_eq (s : Surroundings) (report : Option String) (json : Bool) (p : Progress) :
    let doc := p.report s.features s.now reportTitle
    conclude s report json p = (do
      warnLine ("Verification complete: total=" ++ Radix.decimalText doc.summary.total ++
        ", passed=" ++ Radix.decimalText doc.summary.passed ++
        ", failed=" ++ Radix.decimalText doc.summary.failed ++
        ", skipped=" ++ Radix.decimalText doc.summary.skipped)
      flushLog (p.log.map (·.emitAll [Conformance.completeEntry s.now s.elapsedMs doc.summary]))
      putReport report doc
      printDocument json doc
      for failure in doc.summary.failures do
        warnLine ("FAIL " ++ failure.caseName ++ "\n" ++ failure.diff.getD "")
      orFail .run (Conformance.verdict doc.summary)) := by
  dsimp only
  rw [conclude]
  cases report <;> cases json <;>
    simp only [putReport, printDocument, pure_bind, if_true, if_false, Bool.false_eq_true]

theorem PutReport.read {path : String} {r : ConformanceReport} {before after : Files}
    (put : PutReport (some path) r before after) :
    after.read (Path.withExtension path "json") = .ok (utf8 r.toText) := by
  obtain ⟨_, _, _, _, written⟩ := put
  exact Files.write_read written

/-- Neither the page nor the document of a report is the file that a path leads to. -/
def ReportApart (report : Option String) (path : String) (files : Files) : Prop :=
  ∀ page ∈ report, files.location? page ≠ files.location? path ∧
    files.location? (Path.withExtension page "json") ≠ files.location? path

/-- A report keeps the other files. -/
theorem PutReport.keeps_read {report : Option String} {r : ConformanceReport} {before after : Files}
    {path : String} {content : Bytes} (put : PutReport report r before after)
    (read : before.read path = .ok content)
    (apart : ReportApart report path after) : after.read path = .ok content := by
  cases report with
  | none => exact put ▸ read
  | some page =>
    obtain ⟨made, paged, directory, first, second⟩ := put
    obtain ⟨pageApart, documentApart⟩ := apart page rfl
    have kept : made.read path = .ok content := by
      obtain rfl | ⟨_, directory⟩ := directory
      · exact read
      · exact Files.makeDirectories_keeps_read directory read
    obtain ⟨l, found⟩ := Files.read_iff.mp (Files.write_read first)
    have there := Files.location?_iff.mpr ⟨_, found⟩
    have pageApart := (Files.write_grows second).apart there pageApart
    exact Files.write_keeps_read second (Files.write_keeps_read first kept pageApart) documentApart

/-- What the end of a run does, unless a file operation fails. -/
theorem ensures_conclude (s : Surroundings) {report : Option String} {json : Bool} (p : Progress)
    {c : Console} :
    let doc := p.report s.features s.now reportTitle
    Ensures (conclude s report json p) c fun r c' =>
      r = (Conformance.verdict doc.summary).mapError .run ∧
      ∃ logged,
        Flushed (p.log.map (·.emitAll [Conformance.completeEntry s.now s.elapsedMs doc.summary]))
          c.files logged ∧
        PutReport report doc logged c'.files := by
  intro doc
  rw [conclude_eq]
  refine ensures_warnLine _ fun c₁ files₁ => ensures_flushLog fun c₂ flushed => ?_
  refine ensures_putReport fun c₃ put => ensures_printDocument fun c₄ files₄ => ?_
  refine ensures_warnLines _ _ fun c₅ files₅ => ?_
  intro r c' ended _
  rw [run_orFail] at ended
  cases ended
  refine ⟨rfl, c₂.files, files₁ ▸ flushed, ?_⟩
  rw [files₅, files₄]
  exact put

/-- What a verification run over some loaded files does, unless a file operation fails: it starts its
log and runs the sets; then it is cut short, or else it writes log and report and ends with the verdict
on the summary. -/
theorem ensures_verifyAll (s : Surroundings) {fixture : String} {report log : Option String}
    {json : Bool} {c : Console} {loaded : List Conformance.Loaded}
    (load : Conformance.load c.files fixture = .ok loaded) :
    Ensures (verifyAll s fixture report json log) c fun r c' =>
      ∃ started, Put log [] c.files started ∧
        match Conformance.verifySets s.features started s.now loaded { log := logFile s log } with
        | (.ok (), p) =>
          let doc := p.report s.features s.now reportTitle
          r = (Conformance.verdict doc.summary).mapError .run ∧
          ∃ logged,
            Flushed (p.log.map (·.emitAll [Conformance.completeEntry s.now s.elapsedMs doc.summary]))
              started logged ∧
            PutReport report doc logged c'.files
        | (.error e, p) =>
          r = .error (.run e) ∧ ¬ (CommandError.run e).OfFile ∧
            ∀ after, Flushed p.log started after → c'.files = after := by
  rw [verifyAll]
  refine ensures_warnLine _ fun c₁ files₁ => ensures_get ?_
  rw [files₁, load]
  refine .step (a := loaded) rfl (ensures_openLog fun c₂ started => ensures_get ?_)
  rw [files₁] at started
  rcases ran : Conformance.verifySets s.features c₂.files s.now loaded { log := logFile s log }
    with ⟨e | _, p⟩
  · intro r c' ended unfailed
    obtain ⟨c₃, cut, flushed⟩ := run_cutShort p.log e c₂
    cases cut.symm.trans ended
    refine ⟨c₂.files, started, ?_⟩
    rw [ran]
    exact ⟨rfl, unfailed _ rfl, flushed⟩
  · refine (ensures_conclude s p).mono fun r c' concluded => ⟨c₂.files, started, ?_⟩
    rw [ran]
    exact concluded

end Command
end Printf
