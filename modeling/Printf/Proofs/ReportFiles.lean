import Printf.Proofs.Commands
import Printf.Proofs.Verdicts

/-! The files of a report. Its page and its document lie side by side, unless the path of the page
already has the extension of the document: then the document is put over the page. -/
namespace Printf

namespace ConformanceReport

theorem toList_markdown (r : ConformanceReport) : ∃ cs, r.markdown.toList = '#' :: cs := by
  rw [markdown, headLines, String.toList_join]
  simp

theorem toList_toText (r : ConformanceReport) : ∃ cs, r.toText.toList = '\x7b' :: cs := by
  rw [toText, Json.Value.pretty, String.toList_ofList]
  exact ⟨_, rfl⟩

/-- A page is no document. -/
theorem utf8_markdown_ne (r r' : ConformanceReport) : utf8 r.markdown ≠ utf8 r'.toText := by
  obtain ⟨page, markdown⟩ := r.toList_markdown
  obtain ⟨document, text⟩ := r'.toList_toText
  rw [utf8, utf8, markdown, text, List.flatMap_cons, List.flatMap_cons]
  exact fun same => absurd (List.head_eq_of_cons_eq same) (by decide)

end ConformanceReport

namespace Files

/-- A file and another one, whose path has another extension, are in one directory. The second is
put over the first just if the name of the first has the extension already. -/
theorem written_side_by_side {made paged after : Files} {path extension : String}
    {page document : Bytes} (slash : '/' ∉ extension.toList) (point : '.' ∉ extension.toList)
    (first : made.write path page = .ok paged)
    (second : paged.write (Path.withExtension path extension) document = .ok after) :
    ∃ name, Path.fileName? path = some name ∧
      (Path.extension? name ≠ some extension → ∃ directory sibling,
        after.find path = .ok (directory ++ [name], .file page) ∧
        after.find (Path.withExtension path extension) =
          .ok (directory ++ [sibling], .file document) ∧
        sibling ≠ name ∧ Path.extension? sibling = some extension) ∧
      (Path.extension? name = some extension → Path.withExtension path extension = path) := by
  obtain ⟨front, name, directory, ends, named, walked, _, _, found⟩ := write_name first
  obtain ⟨beside, absolute⟩ := Path.withExtension_of_components ends named slash
  have start_eq : start (Path.withExtension path extension) = start path := by
    rw [start, start, absolute]
  refine ⟨name, Path.fileName?_of_components ends named, fun other => ?_,
    Path.withExtension_eq_self ends named point⟩
  have apart : Path.nameWith name extension ≠ name :=
    (Path.nameWith_eq_self_iff named point).not.mpr other
  obtain ⟨_, _, directory', ends', _, walked', free, rfl, found'⟩ := write_name second
  obtain ⟨rfl, same⟩ := List.append_inj' (ends'.symm.trans beside) rfl
  cases same
  -- the first write grows the tree, so the second one finds the same directory
  rw [start_eq, (write_grows first).walk walked] at walked'
  cases walked'
  refine ⟨directory, Path.nameWith name extension, ?_, found', apart,
    Path.extension?_nameWith named point⟩
  refine (set_grows free document).find found ?_
  rw [node?_set_other (by simp [apart.symm]), (find_iff.mp found).2.2]

end Files

open Conformance Command

/-- A verification run that gets as far as its report leaves the document of the report beside its
page, in the same directory under a name with the extension `json`, and the page where it was asked
for. A page that is asked for under a name with this very extension is lost: its document is put over
it. -/
theorem reports_lie_side_by_side (s : Surroundings) {files : Files} {fixture : String}
    {loaded : List Loaded} (load : Conformance.load files fixture = .ok loaded) (path : String)
    (json : Bool) (log : Option String) :
    Ensures ((Command.verify fixture (some path) json log).action s) ⟨files, "", ""⟩
      fun r console => r ≠ .error (.run (.panicked .capacityOverflow)) → ∃ started doc name,
        Put log [] files started ∧
        Conformance.report s.features started s.now reportTitle loaded = .ok doc ∧
        Path.fileName? path = some name ∧
        console.files.read (Path.withExtension path "json") = .ok (utf8 doc.toText) ∧
        (Path.extension? name ≠ some "json" → ∃ directory sibling,
          console.files.find path = .ok (directory ++ [name], .file (utf8 doc.markdown)) ∧
          console.files.find (Path.withExtension path "json") =
            .ok (directory ++ [sibling], .file (utf8 doc.toText)) ∧
          sibling ≠ name ∧ Path.extension? sibling = some "json") ∧
        (Path.extension? name = some "json" →
          Path.withExtension path "json" = path ∧
          console.files.read path ≠ .ok (utf8 doc.markdown)) := by
  have run : Ensures (verifyAll s fixture (some path) json log) ⟨files, "", ""⟩ _ :=
    ensures_verifyAll s load
  refine run.mono fun r console => ?_
  rintro ⟨started, first, ended⟩ unbroken
  have ends := verifySets_ends s.features started s.now loaded { log := logFile s log }
  rcases ran : verifySets s.features started s.now loaded { log := logFile s log } with ⟨e | _, p⟩ <;>
    rw [ran] at ended ends
  · obtain ⟨rfl, unfailed, -⟩ := ended
    cases ends with
    | failed e q => exact absurd trivial unfailed
    | cutShort => exact absurd rfl unbroken
  obtain ⟨-, logged, -, put⟩ := ended
  have reported := report_of_verifySets s.features reportTitle ran
  generalize p.report s.features s.now reportTitle = doc at put reported
  have document := put.read
  obtain ⟨made, paged, _, page, beside⟩ := put
  obtain ⟨name, fileName, apart, replaced⟩ :=
    Files.written_side_by_side (by decide) (by decide) page beside
  refine ⟨started, doc, name, first, reported, fileName, document, apart, fun has => ?_⟩
  refine ⟨replaced has, ?_⟩
  rw [replaced has] at document
  rw [document, ne_eq, Except.ok.injEq]
  exact (doc.utf8_markdown_ne doc).symm

/-- A directory with a file of one case, all records written as lists. -/
def oneCaseFiles : Files :=
  .ofList [("f/a.json", utf8 "[\"1\",\"\",\"\",[[\"p\",\"\",\"a\",[],null,\"a\"]]]")]

def oneCase : Loaded :=
  ⟨"f/a.json", ⟨"1", "", "", [{ name := "p", format := "a", expectedOutput := "a" }]⟩⟩

/-- A page in a directory that is made for it, and a page that is lost. -/
theorem reports_lie_side_by_side_one_case :
    let s : Surroundings := ⟨⟨false, true⟩, ⟨0, 0⟩, 7, 0⟩
    let ran (path : String) :=
      ((Command.verify "f" (some path) false none).action s).run ⟨oneCaseFiles, "", ""⟩
    Conformance.load oneCaseFiles "f" = .ok [oneCase] ∧
    (ran "out/r.md").1 = .ok () ∧
    (∃ (doc : ConformanceReport) (directory : Location) (sibling : String),
      (ran "out/r.md").2.files.find "out/r.md" =
        .ok (directory ++ ["r.md"], .file (utf8 doc.markdown)) ∧
      (ran "out/r.md").2.files.find "out/r.json" =
        .ok (directory ++ [sibling], .file (utf8 doc.toText))) ∧
    (ran "r.json").1 = .ok () ∧
    ∃ doc : ConformanceReport, (ran "r.json").2.files.read "r.json" = .ok (utf8 doc.toText) ∧
      (ran "r.json").2.files.read "r.json" ≠ .ok (utf8 doc.markdown) := by
  intro s ran
  have loads : Conformance.load oneCaseFiles "f" = .ok [oneCase] := by decide +kernel
  have ends : (ran "out/r.md").1 = .ok () := by decide +kernel
  have ends' : (ran "r.json").1 = .ok () := by decide +kernel
  have unfailed {r : Except CommandError Unit} (ok : r = .ok ()) : ∀ e, r = .error e → ¬ e.OfFile :=
    fun e failed => nomatch ok.symm.trans failed
  refine ⟨loads, ends, ?_, ends', ?_⟩
  · obtain ⟨_, doc, name, _, _, fileName, _, apart, _⟩ :=
      reports_lie_side_by_side s loads "out/r.md" false none (ran "out/r.md").1 (ran "out/r.md").2 rfl
        (unfailed ends) fun panic => nomatch ends.symm.trans panic
    obtain rfl : "r.md" = name :=
      Option.some.inj ((by decide : some "r.md" = Path.fileName? "out/r.md").trans fileName)
    obtain ⟨directory, sibling, page, document, _⟩ := apart (by decide)
    exact ⟨doc, directory, sibling, page, document⟩
  · obtain ⟨_, doc, name, _, _, fileName, document, _, replaced⟩ :=
      reports_lie_side_by_side s loads "r.json" false none (ran "r.json").1 (ran "r.json").2 rfl
        (unfailed ends') fun panic => nomatch ends'.symm.trans panic
    obtain rfl : "r.json" = name :=
      Option.some.inj ((by decide : some "r.json" = Path.fileName? "r.json").trans fileName)
    exact ⟨doc, document, (replaced (by decide)).2⟩

end Printf
