import Printf.Proofs.Digits
import Printf.Proofs.Pieces
import Printf.Report.Markdown

/-! Pages of reports read line by line. The table of results and the headings of the failures give the
results back, as far as no text of the report is taken for a part of the page. -/
namespace Printf

namespace Page

/-- The lines behind the first place where some lines stand in a row. -/
def behind (head : List (List Char)) : List (List Char) → List (List Char)
  | [] => []
  | line :: rest =>
    if head <+: line :: rest then (line :: rest).drop head.length else behind head rest

def unindent : List Char → List Char
  | ' ' :: cs => cs
  | cs => cs

def unpad (cs : List Char) : List Char := (unindent (unindent cs).reverse).reverse

/-- The cells of a row, which stand between bars. -/
def cells (line : List Char) : List String :=
  (Text.split '|' line).tail.dropLast.map fun piece => String.ofList (unpad piece)

def resultsHead : List (List Char) :=
  ["## Results".toList, [], "| Case | Section | Status |".toList, "|------|---------|--------|".toList]

def failuresHead : List (List Char) := ["## Failures".toList]

/-- The rows of the table of results, up to the next empty line. -/
def rows (page : String) : List (List String) :=
  ((behind resultsHead (Text.lines page.toList)).takeWhile (· ≠ [])).map cells

/-- Whether a line opens or closes a fence: three backticks or more, not far from the margin, with
only blanks behind them. -/
def isFence (line : List Char) : Bool :=
  let marks := line.dropWhile (· == ' ')
  let rest := marks.dropWhile (· == '\x60')
  line.length - marks.length ≤ 3 && 3 ≤ marks.length - rest.length &&
    rest.all fun c => c == ' ' || c == '\t'

/-- The headings of the third level in some lines. Between fences there are none. -/
def headings (fenced : Bool) : List (List Char) → List String
  | [] => []
  | line :: rest =>
    if isFence line then headings (!fenced) rest
    else if fenced = false ∧ "### ".toList <+: line then
      String.ofList (line.drop 4) :: headings fenced rest
    else headings fenced rest

def failed (page : String) : List String :=
  headings false (behind failuresHead (Text.lines page.toList))

def IsCell (text : String) : Prop := '\n' ∉ text.toList ∧ '|' ∉ text.toList

theorem behind_suffix (head ls : List (List Char)) : behind head ls <:+ ls := by
  induction ls with
  | nil => exact List.suffix_rfl
  | cons line rest ih =>
    rw [behind]
    split
    · exact List.drop_suffix _ _
    · exact ih.trans (List.suffix_cons line rest)

/-- Lines of which the first one does not come again stand for the first time behind lines among which
they do not stand. -/
theorem behind_append {line : List Char} {tail front : List (List Char)} (once : line ∉ tail)
    (fresh : ¬ line :: tail <:+: front) (rest : List (List Char)) :
    behind (line :: tail) (front ++ (line :: tail ++ rest)) = rest := by
  induction front with
  | nil =>
    rw [List.nil_append, List.cons_append, behind, if_pos ⟨rest, rfl⟩]
    exact List.drop_left
  | cons first front ih =>
    have later : ¬ line :: tail <:+: front := fun later =>
      fresh (later.trans (List.suffix_cons first front).isInfix)
    rw [List.cons_append, behind, if_neg, ih later]
    -- lines that begin in front of their place would end there, or have their first line again in it
    intro here
    obtain ⟨rfl, early⟩ := List.cons_prefix_cons.mp here
    obtain within | ⟨beyond, rfl⟩ :=
      List.prefix_or_prefix_of_prefix early (List.prefix_append front _)
    · exact fresh (List.cons_prefix_cons.mpr ⟨rfl, within⟩).isInfix
    · cases beyond with
      | nil =>
        rw [List.append_nil] at fresh
        exact fresh List.infix_rfl
      | cons other beyond =>
        rw [List.prefix_append_right_inj] at early
        obtain ⟨rfl, _⟩ := List.cons_prefix_cons.mp early
        exact once (List.mem_append_right _ List.mem_cons_self)

theorem behind_eq_nil {head ls : List (List Char)} (fresh : ¬ head <:+: ls) : behind head ls = [] := by
  induction ls with
  | nil => rfl
  | cons line rest ih =>
    rw [behind, if_neg fun here => fresh here.isInfix]
    exact ih fun later => fresh (later.trans (List.suffix_cons line rest).isInfix)

theorem unindent_subset (cs : List Char) : unindent cs ⊆ cs := by
  rw [unindent.eq_def]
  split
  · exact List.subset_cons_self _ _
  · exact List.Subset.refl _

theorem unpad_subset (cs : List Char) : unpad cs ⊆ cs := by
  intro c member
  have front := unindent_subset _ (List.mem_reverse.mp member)
  exact unindent_subset cs (List.mem_reverse.mp front)

theorem unpad_pad (cs : List Char) : unpad (' ' :: (cs ++ [' '])) = cs := by
  simp [unpad, unindent]

/-- There is no bar and no line break in a cell. -/
theorem isCell_of_mem_cells {line : List Char} (whole : '\n' ∉ line) {cell : String}
    (member : cell ∈ cells line) : IsCell cell := by
  obtain ⟨piece, among, rfl⟩ := List.mem_map.mp member
  have among : piece ∈ Text.split '|' line := List.mem_of_mem_tail (List.dropLast_subset _ among)
  rw [IsCell, String.toList_ofList]
  exact ⟨fun line_break => whole (Text.subset_of_mem_split among (unpad_subset piece line_break)),
    fun bar => Text.separator_not_mem among (unpad_subset piece bar)⟩

theorem isCell_of_mem_rows {page : String} {row : List String} (member : row ∈ rows page)
    {cell : String} (among : cell ∈ row) : IsCell cell := by
  obtain ⟨line, taken, rfl⟩ := List.mem_map.mp member
  have line_mem := (behind_suffix _ _).subset (List.takeWhile_subset _ taken)
  exact isCell_of_mem_cells (Text.separator_not_mem line_mem) among

def rowLine (cells : List String) : List Char :=
  '|' :: cells.flatMap fun cell => ' ' :: (cell.toList ++ [' ']) ++ ['|']

theorem cells_rowLine {texts : List String} (plain : ∀ text ∈ texts, '|' ∉ text.toList) :
    cells (rowLine texts) = texts := by
  let pieces := [] :: texts.map fun text => ' ' :: (text.toList ++ [' '])
  have whole : ∀ piece ∈ pieces, '|' ∉ piece := by
    simp only [pieces, List.forall_mem_cons, List.forall_mem_map]
    exact ⟨List.not_mem_nil, fun text member bar => plain text member (by simpa using bar)⟩
  have line : rowLine texts = pieces.flatMap (· ++ ['|']) ++ [] := by
    simp [rowLine, pieces, List.flatMap_map]
  have read : (fun piece => String.ofList (unpad piece)) ∘
      (fun text : String => ' ' :: (text.toList ++ [' '])) = id := by
    funext text
    simp [unpad_pad]
  rw [cells, line, Text.split_closed whole, Text.split]
  simp [pieces, read]

theorem newline_rowLine {texts : List String} (whole : ∀ text ∈ texts, '\n' ∉ text.toList) :
    '\n' ∉ rowLine texts := by
  simpa [rowLine] using whole

theorem headings_fenced {ls : List (List Char)} (inside : ∀ line ∈ ls, isFence line = false)
    (rest : List (List Char)) : headings true (ls ++ rest) = headings true rest := by
  induction ls with
  | nil => rfl
  | cons line ls ih =>
    obtain ⟨first, later⟩ := List.forall_mem_cons.mp inside
    rw [List.cons_append, headings, first, ih later]
    simp

theorem headings_fence (fenced : Bool) (rest : List (List Char)) :
    headings fenced ("```".toList :: rest) = headings (!fenced) rest := by
  rw [headings, if_pos (by decide)]

theorem headings_empty (fenced : Bool) (rest : List (List Char)) :
    headings fenced ([] :: rest) = headings fenced rest := by
  rw [headings, if_neg (by decide), if_neg fun heading => absurd heading.2 (by decide)]

theorem headings_heading (name : String) (rest : List (List Char)) :
    headings false (("### ".toList ++ name.toList) :: rest) = name :: headings false rest := by
  have text : isFence ("### ".toList ++ name.toList) = false := by simp [isFence]
  rw [headings, text, if_neg nofun, if_pos ⟨rfl, List.prefix_append _ _⟩]
  simp

end Page

open Page

namespace ConformanceReport

variable (r : ConformanceReport)

def frontText : String := String.join (r.headLines ++ r.fixtureLines)

def resultCells (x : VerificationResult) : List String :=
  [x.caseName, x.clause, if x.passed then "PASS" else "FAIL"]

theorem toList_resultRow (x : VerificationResult) :
    (resultRow x).toList = rowLine (resultCells x) ++ ['\n'] := by
  simp [resultRow, row, resultCells, rowLine]

def failureBlock (x : VerificationResult) : List (List Char) :=
  [[], "### ".toList ++ x.caseName.toList, [], "```".toList] ++
    (Text.lines (x.diff.getD "(no diff)").toList ++ ["```".toList])

theorem toList_failureText (x : VerificationResult) :
    (failureText x).toList = (failureBlock x).flatMap (· ++ ['\n']) := by
  rw [failureBlock, List.flatMap_append, List.flatMap_append, Text.lines, Text.closed_split]
  simp [failureText]

/-- The lines of a page behind the head of the table. -/
def tableText : List Char :=
  (r.summary.results.map resultRow).flatMap String.toList ++ r.failureLines.flatMap String.toList

/-- A page is cut at the head of its table. -/
theorem lines_markdown : Text.lines r.markdown.toList =
    Text.lines r.frontText.toList ++ (resultsHead ++ Text.lines r.tableText) := by
  have page : r.markdown.toList = r.frontText.toList ++ '\n' ::
      (resultsHead.flatMap (· ++ ['\n']) ++ r.tableText) := by
    simp [markdown, frontText, resultLines, tableText, resultsHead]
  have whole : ∀ line ∈ resultsHead, '\n' ∉ line := by decide
  rw [Text.lines, page, Text.split_append_cons, Text.split_closed whole]
  rfl

def failureBlocks : List (List Char) :=
  if r.summary.failures = [] then []
  else failuresHead ++ (r.summary.failures.flatMap failureBlock ++ [[]])

/-- The lines of a page up to the one behind its table. -/
def tableLines : List (List Char) :=
  Text.lines r.frontText.toList ++
    (resultsHead ++ (r.summary.results.map (fun x => rowLine (resultCells x)) ++ [[]]))

def Unbroken (x : VerificationResult) : Prop := '\n' ∉ x.caseName.toList ∧ '\n' ∉ x.clause.toList

theorem newline_resultCells {x : VerificationResult} (unbroken : Unbroken x) :
    '\n' ∉ rowLine (resultCells x) := by
  refine newline_rowLine ?_
  have status : '\n' ∉ (if x.passed then "PASS" else "FAIL").toList := by split <;> decide
  simpa [resultCells] using ⟨unbroken.1, unbroken.2, status⟩

theorem newline_failureBlock {x : VerificationResult} (unbroken : Unbroken x) :
    ∀ line ∈ failureBlock x, '\n' ∉ line := by
  have heading : '\n' ∉ "### ".toList ++ x.caseName.toList := by simpa using unbroken.1
  intro line member
  simp only [failureBlock, List.mem_append, List.mem_cons, List.not_mem_nil, or_false] at member
  rcases member with (rfl | rfl | rfl | rfl) | shown | rfl
  · exact List.not_mem_nil
  · exact heading
  · exact List.not_mem_nil
  · decide
  · exact Text.separator_not_mem shown
  · decide

variable {r}

/-- The table of a page, whatever its rows are. -/
theorem rows_markdown (fresh : ¬ resultsHead <:+: Text.lines r.frontText.toList) :
    rows r.markdown = ((Text.lines r.tableText).takeWhile (· ≠ [])).map cells := by
  rw [rows, lines_markdown, resultsHead, behind_append (by decide) fresh]

section
variable (unbroken : ∀ x ∈ r.summary.results, Unbroken x)
include unbroken

theorem lines_failureLines :
    Text.lines (r.failureLines.flatMap String.toList) = [] :: r.failureBlocks := by
  rw [failureLines, failureBlocks]
  by_cases all : r.summary.failures = []
  · simp [all, Text.lines, Text.split]
  · rw [if_neg all, if_neg (by simpa using all)]
    have text : ("\n## Failures\n" :: r.summary.failures.map failureText).flatMap String.toList =
        ([] :: (failuresHead ++ r.summary.failures.flatMap failureBlock)).flatMap (· ++ ['\n']) ++
          [] := by
      simp [List.flatMap_map, toList_failureText, failuresHead, List.flatMap_assoc]
    rw [text, Text.lines, Text.split_closed]
    · simp [Text.split]
    · simp only [List.forall_mem_cons, List.forall_mem_append, List.forall_mem_flatMap]
      refine ⟨List.not_mem_nil, by decide, fun x member => newline_failureBlock (unbroken x ?_)⟩
      exact (List.mem_filter.mp member).1

/-- Results that stand in one line give the table a line each. -/
theorem lines_tableText : Text.lines r.tableText =
    r.summary.results.map (fun x => rowLine (resultCells x)) ++ [] :: r.failureBlocks := by
  have rows : (r.summary.results.map resultRow).flatMap String.toList =
      (r.summary.results.map fun x => rowLine (resultCells x)).flatMap (· ++ ['\n']) := by
    simp [List.flatMap_map, toList_resultRow]
  rw [Text.lines, tableText, rows, Text.split_closed, ← lines_failureLines unbroken]
  · rfl
  · exact List.forall_mem_map.mpr fun x member => newline_resultCells (unbroken x member)

theorem lines_markdown_unbroken :
    Text.lines r.markdown.toList = r.tableLines ++ r.failureBlocks := by
  rw [lines_markdown, lines_tableText unbroken, tableLines]
  simp

end

/-- Results whose texts fit into cells are read back. -/
theorem rows_of_isCell (fresh : ¬ resultsHead <:+: Text.lines r.frontText.toList)
    (plain : ∀ x ∈ r.summary.results, IsCell x.caseName ∧ IsCell x.clause) :
    rows r.markdown = r.summary.results.map resultCells := by
  have unbroken : ∀ x ∈ r.summary.results, Unbroken x := fun x member =>
    ⟨(plain x member).1.1, (plain x member).2.1⟩
  rw [rows_markdown fresh, lines_tableText unbroken, List.takeWhile_append_of_pos]
  · rw [List.takeWhile_cons_of_neg (by decide), List.append_nil, List.map_map]
    refine List.map_congr_left fun x member => cells_rowLine ?_
    have status : '|' ∉ (if x.passed then "PASS" else "FAIL").toList := by split <;> decide
    simpa [resultCells] using ⟨(plain x member).1.2, (plain x member).2.2, status⟩
  · exact List.forall_mem_map.mpr fun x _ => by simp [rowLine]

section
variable (clear : "## Failures".toList ∉ Text.lines r.frontText.toList)
include clear

/-- Nothing up to the table is the heading of the failures. -/
theorem failures_not_mem_tableLines : "## Failures".toList ∉ r.tableLines := by
  simp only [tableLines, List.mem_append, List.mem_map, not_or, not_exists, not_and]
  refine ⟨clear, by decide, fun x _ same => ?_, by decide⟩
  exact absurd (List.head_eq_of_cons_eq same) (by decide)

/-- The part on the failures is there just if there are any. -/
theorem failures_mem_iff (unbroken : ∀ x ∈ r.summary.results, Unbroken x) :
    "## Failures".toList ∈ Text.lines r.markdown.toList ↔
      ∃ x ∈ r.summary.results, x.passed = false := by
  have some : r.summary.failures ≠ [] ↔ ∃ x ∈ r.summary.results, x.passed = false := by
    simp [VerificationSummary.failures]
  rw [lines_markdown_unbroken unbroken, List.mem_append, failureBlocks, ← some]
  simp only [failures_not_mem_tableLines clear, false_or]
  split
  · next none => simp [none]
  · next any => simp [any, failuresHead]

end

/-- A failure gives its heading, and what it shows gives none. -/
theorem headings_failureBlock {x : VerificationResult}
    (shown : ∀ line ∈ Text.lines (x.diff.getD "(no diff)").toList, isFence line = false)
    (rest : List (List Char)) :
    headings false (failureBlock x ++ rest) = x.caseName :: headings false rest := by
  rw [failureBlock, List.append_assoc, List.append_assoc]
  simp only [List.cons_append, List.nil_append]
  rw [headings_empty, headings_heading, headings_empty, headings_fence, Bool.not_false,
    headings_fenced shown, headings_fence, Bool.not_true]

theorem headings_failureBlocks {failures : List VerificationResult}
    (shown : ∀ x ∈ failures, ∀ line ∈ Text.lines (x.diff.getD "(no diff)").toList,
      isFence line = false) :
    headings false (failures.flatMap failureBlock ++ [[]]) = failures.map (·.caseName) := by
  induction failures with
  | nil => exact headings_empty false []
  | cons x failures ih =>
    obtain ⟨first, later⟩ := List.forall_mem_cons.mp shown
    rw [List.flatMap_cons, List.append_assoc, headings_failureBlock first, ih later, List.map_cons]

/-- The headings of the failures are read back. -/
theorem failed_markdown (clear : "## Failures".toList ∉ Text.lines r.frontText.toList)
    (unbroken : ∀ x ∈ r.summary.results, Unbroken x)
    (shown : ∀ x ∈ r.summary.failures, ∀ line ∈ Text.lines (x.diff.getD "(no diff)").toList,
      isFence line = false) :
    failed r.markdown = r.summary.failures.map (·.caseName) := by
  have fresh : ¬ failuresHead <:+: r.tableLines := fun here =>
    failures_not_mem_tableLines clear (here.subset List.mem_cons_self)
  rw [failed, lines_markdown_unbroken unbroken, failureBlocks]
  split
  · next none =>
    rw [List.append_nil, behind_eq_nil fresh, none]
    rfl
  · rw [failuresHead, behind_append List.not_mem_nil fresh, headings_failureBlocks shown]

def itemLine (label value : String) : List Char :=
  '-' :: ' ' :: (label.toList ++ ": ".toList ++ value.toList)

/-- The lines in front of the results, in a report whose texts there have no line breaks. -/
def frontLines (r : ConformanceReport) : List (List Char) :=
  ["# ".toList ++ r.title.toList, []] ++
    [itemLine "Features" (", ".intercalate r.features), itemLine "Timestamp" r.timestamp,
      itemLine "Total" (Radix.decimalText r.summary.total),
      itemLine "Passed" (Radix.decimalText r.summary.passed),
      itemLine "Failed" (Radix.decimalText r.summary.failed),
      itemLine "Skipped" (Radix.decimalText r.summary.skipped)] ++
    [[], "## Fixtures".toList, [], "| File | Family | Cases | SHA-256 |".toList,
      "|------|--------|-------|---------|".toList] ++
    r.fixtures.map fun d =>
      rowLine [d.path, d.family, Radix.decimalText d.cases, "`" ++ d.sha256 ++ "`"]

theorem toList_frontText (r : ConformanceReport) :
    r.frontText.toList = r.frontLines.flatMap (· ++ ['\n']) ++ [] := by
  simp [frontText, headLines, fixtureLines, frontLines, item, itemLine, fixtureRow, row, rowLine,
    List.flatMap_map]

structure FrontUnbroken (r : ConformanceReport) : Prop where
  title : '\n' ∉ r.title.toList
  features : ∀ f ∈ r.features, '\n' ∉ f.toList
  timestamp : '\n' ∉ r.timestamp.toList
  fixtures : ∀ d ∈ r.fixtures, '\n' ∉ d.path.toList ∧ '\n' ∉ d.family.toList ∧ '\n' ∉ d.sha256.toList

theorem not_mem_intercalate {c : Char} {separator : List Char} (apart : c ∉ separator)
    {texts : List (List Char)} (whole : ∀ text ∈ texts, c ∉ text) :
    c ∉ separator.intercalate texts := by
  induction texts with
  | nil => exact List.not_mem_nil
  | cons text texts ih =>
    obtain ⟨first, later⟩ := List.forall_mem_cons.mp whole
    cases texts with
    | nil => simpa using first
    | cons next texts =>
      rw [List.intercalate_cons_cons, List.mem_append, List.mem_append]
      rintro ((front | between) | behind)
      · exact first front
      · exact apart between
      · exact ih later behind

theorem newline_decimalText (n : Nat) : '\n' ∉ (Radix.decimalText n).toList := fun member =>
  absurd (Radix.isDecimal_decimalText n '\n' member) (by decide)

theorem newline_itemLine {label value : String} (plain : '\n' ∉ label.toList)
    (whole : '\n' ∉ value.toList) : '\n' ∉ itemLine label value := by
  simpa [itemLine] using ⟨plain, whole⟩

theorem FrontUnbroken.newline_frontLines (unbroken : r.FrontUnbroken) :
    ∀ line ∈ r.frontLines, '\n' ∉ line := by
  have features : '\n' ∉ (", ".intercalate r.features).toList := by
    rw [String.toList_intercalate]
    exact not_mem_intercalate (by decide) (List.forall_mem_map.mpr unbroken.features)
  have fixtures : ∀ d ∈ r.fixtures, '\n' ∉
      rowLine [d.path, d.family, Radix.decimalText d.cases, "`" ++ d.sha256 ++ "`"] := by
    intro d member
    obtain ⟨path, family, digest⟩ := unbroken.fixtures d member
    refine newline_rowLine ?_
    simpa using ⟨path, family, newline_decimalText _, digest⟩
  have count (n : Nat) {label : String} (plain : '\n' ∉ label.toList) :
      '\n' ∉ itemLine label (Radix.decimalText n) := newline_itemLine plain (newline_decimalText n)
  have title : '\n' ∉ "# ".toList ++ r.title.toList := by simpa using unbroken.title
  simp only [frontLines, List.forall_mem_append, List.forall_mem_map, List.forall_mem_cons]
  exact ⟨⟨⟨⟨title, List.not_mem_nil, nofun⟩, newline_itemLine (by decide) features,
    newline_itemLine (by decide) unbroken.timestamp, count _ (by decide), count _ (by decide),
    count _ (by decide), count _ (by decide), nofun⟩, by decide⟩, fixtures⟩

/-- Among these lines the one heading of the second level is that of the fixtures. -/
theorem heading_frontLines {line : List Char} (member : line ∈ r.frontLines)
    (heading : "## ".toList <+: line) : line = "## Fixtures".toList := by
  have first {c : Char} {cs : List Char} (starts : line = c :: cs) : c = '#' :=
    (List.cons_prefix_cons.mp (starts ▸ heading)).1.symm
  simp only [frontLines, List.mem_append] at member
  rcases member with ((title | items) | fixtures) | rows
  · obtain rfl | rfl : line = "# ".toList ++ r.title.toList ∨ line = [] := by simpa using title
    · exact absurd (List.cons_prefix_cons.mp (List.cons_prefix_cons.mp heading).2).1 (by decide)
    · exact absurd heading (by decide)
  · obtain ⟨label, value, rfl⟩ : ∃ label value, line = itemLine label value := by
      simp only [List.mem_cons, List.not_mem_nil, or_false] at items
      rcases items with rfl | rfl | rfl | rfl | rfl | rfl <;> exact ⟨_, _, rfl⟩
    exact absurd (first rfl) (by decide)
  · simp only [List.mem_cons, List.not_mem_nil, or_false] at fixtures
    rcases fixtures with rfl | rfl | rfl | rfl | rfl
    · exact absurd heading (by decide)
    · rfl
    · exact absurd heading (by decide)
    · exact absurd (first rfl) (by decide)
    · exact absurd (first rfl) (by decide)
  · obtain ⟨d, _, rfl⟩ := List.mem_map.mp rows
    exact absurd (first rfl) (by decide)

theorem FrontUnbroken.clear (unbroken : r.FrontUnbroken) :
    ¬ resultsHead <:+: Text.lines r.frontText.toList ∧
      "## Failures".toList ∉ Text.lines r.frontText.toList := by
  have lines : Text.lines r.frontText.toList = r.frontLines ++ [[]] := by
    rw [Text.lines, toList_frontText, Text.split_closed unbroken.newline_frontLines]
    rfl
  have absent {line : List Char} (heading : "## ".toList <+: line)
      (other : line ≠ "## Fixtures".toList) : line ∉ Text.lines r.frontText.toList := by
    rw [lines, List.mem_append, List.mem_singleton]
    rintro (front | rfl)
    · exact other (heading_frontLines front heading)
    · exact absurd heading (by decide)
  exact ⟨fun here => absent (by decide) (by decide) (here.subset List.mem_cons_self),
    absent (by decide) (by decide)⟩

end ConformanceReport

open ConformanceReport

/-- The page of a report can be read back line by line, as far as no text of the report is taken for a
part of the page. The table stands behind its head, and its rows are the results just if no name and no
section holds a bar or a line break. The part on the failures is there just if there are any, and has a
heading for each of them, if names and sections have no line breaks and no line of a difference closes
the fence around it. What stands in front of the results must not look like them, and does not if it
has no line breaks in its texts. -/
theorem pages_read_back (r : ConformanceReport) :
    let front := Text.lines r.frontText.toList
    let page := Text.lines r.markdown.toList
    let results := r.summary.results
    page = front ++ resultsHead ++ Text.lines r.tableText ∧
    (¬ resultsHead <:+: front →
      (rows r.markdown = results.map resultCells ↔
        ∀ x ∈ results, IsCell x.caseName ∧ IsCell x.clause)) ∧
    ("## Failures".toList ∉ front → (∀ x ∈ results, Unbroken x) →
      ("## Failures".toList ∈ page ↔ ∃ x ∈ results, x.passed = false) ∧
      ((∀ x ∈ results, x.passed = false →
          ∀ line ∈ Text.lines (x.diff.getD "(no diff)").toList, isFence line = false) →
        failed r.markdown = (results.filter (!·.passed)).map (·.caseName))) ∧
    (r.FrontUnbroken → ¬ resultsHead <:+: front ∧ "## Failures".toList ∉ front) := by
  intro front page results
  refine ⟨?_, fun fresh => ⟨fun read x member => ?_, rows_of_isCell fresh⟩,
    fun clear unbroken => ⟨failures_mem_iff clear unbroken, fun shown => ?_⟩, FrontUnbroken.clear⟩
  · exact (lines_markdown r).trans (List.append_assoc _ _ _).symm
  · have row : resultCells x ∈ rows r.markdown := read ▸ List.mem_map_of_mem member
    exact ⟨isCell_of_mem_rows row List.mem_cons_self,
      isCell_of_mem_rows row (List.mem_cons_of_mem _ List.mem_cons_self)⟩
  · refine failed_markdown clear unbroken fun x member => ?_
    obtain ⟨among, failing⟩ := List.mem_filter.mp member
    exact shown x among (by simpa using failing)

def ConformanceReport.ofResults (title : String) (results : List VerificationResult) :
    ConformanceReport :=
  ⟨title, [], "", [], .ofResults results 0⟩

/-- A page on a result that passes and one that does not. -/
theorem pages_read_back_mixed :
    let whole : VerificationResult := ⟨"ok", "7.21", true, "1", "1", none, 2, none⟩
    let broken : VerificationResult := ⟨"broken", "7.21", false, "1", "2", some 2, 2, some "-1\n+2"⟩
    let r := ConformanceReport.ofResults "Report" [whole, broken]
    r.FrontUnbroken ∧
    (∀ x ∈ r.summary.results, IsCell x.caseName ∧ IsCell x.clause) ∧
    rows r.markdown = [["ok", "7.21", "PASS"], ["broken", "7.21", "FAIL"]] ∧
    "## Failures".toList ∈ Text.lines r.markdown.toList ∧
    failed r.markdown = ["broken"] := by
  intro whole broken r
  have front : r.FrontUnbroken := ⟨by decide, nofun, by decide, nofun⟩
  have plain : ∀ x ∈ r.summary.results, IsCell x.caseName ∧ IsCell x.clause := by
    simp only [IsCell]
    decide
  obtain ⟨_, table, failures, clear⟩ := pages_read_back r
  obtain ⟨present, headings⟩ := failures (clear front).2 fun x member =>
    ⟨(plain x member).1.1, (plain x member).2.1⟩
  have failing : broken ∈ r.summary.results := List.mem_cons_of_mem _ List.mem_cons_self
  exact ⟨front, plain, (table (clear front).1).mpr plain, present.mpr ⟨broken, failing, rfl⟩,
    headings (by decide)⟩

/-- Texts that are taken for parts of the page: a bar, a line break in a name, the head of a table in
a title, the heading of the failures in a title, and a fence in a difference. -/
theorem pages_taken_apart :
    let page (title : String) (results : List VerificationResult) :=
      (ConformanceReport.ofResults title results).markdown
    let passing (name : String) : VerificationResult := ⟨name, "s", true, "", "", none, 1, none⟩
    let failing (name diff : String) : VerificationResult :=
      ⟨name, "s", false, "", "", none, 1, some diff⟩
    rows (page "t" [passing "a|b"]) = [["a", "b", "s", "PASS"]] ∧
    rows (page "t" [passing "a\nb", passing "c"]) = [[], ["s", "PASS"], ["c", "s", "PASS"]] ∧
    rows (page ("t\n## Results\n\n| Case | Section | Status |\n|------|---------|--------|")
      [passing "a"]) = [] ∧
    "## Failures".toList ∈ Text.lines (page "t\n## Failures" []).toList ∧
    failed (page "t" [failing "a" "```\n### b"]) = ["a", "b"] := by
  -- a page is read from the characters of its pieces, which are quicker to compute than those of a text
  have chars (r : ConformanceReport) : r.markdown.toList =
      (r.headLines ++ r.fixtureLines ++ r.resultLines ++ r.failureLines).flatMap String.toList := by
    simp [ConformanceReport.markdown]
  simp only [rows, failed, chars]
  decide +kernel

end Printf
