import Printf.Format
import Printf.Proofs.Alignment

/-! Counts that a run stores. A count directive marks its cell with the number of bytes in front of
it, which follows from the format and the arguments alone. A run stores the marks that it reaches,
those in front of the first byte refused, in order. -/
namespace Printf

structure Mark where
  cell : Nat
  offset : Nat
  deriving DecidableEq, Repr

def countCell : Option Arg → Option Nat
  | some (.count cell) => some cell
  | _ => none

/-- The cell that a part stores to: that of the count argument in the value slot of a count
directive. -/
def Expansion.cell? (args : List Arg) (e : Expansion) : Option Nat :=
  match e.piece with
  | .literal _ => none
  | .directive d =>
    if d.conversion = .charsWritten then
      countCell args[e.start + d.width.slots + d.precision.slots]?
    else none

/-- The part is a count directive, and a count argument in its value slot names the cell. -/
def Expansion.Stores (args : List Arg) (e : Expansion) (cell : Nat) : Prop :=
  ∃ d, e.piece = .directive d ∧ d.conversion = .charsWritten ∧
    args[e.start + d.width.slots + d.precision.slots]? = some (.count cell)

/-- The marks of parts that stand behind `offset` bytes. -/
def marksOf (args : List Arg) : Nat → List Expansion → List Mark
  | _, [] => []
  | offset, e :: es =>
    (e.cell? args).toList.map (⟨·, offset⟩) ++ marksOf args (offset + e.bytes.length) es

def marks (features : Features) (fmt : Bytes) (args : List Arg) : List Mark :=
  marksOf args 0 (expansions features fmt args)

/-- Cells with marks stored one after another. -/
def store (cells : List Nat) (ms : List Mark) : List Nat :=
  ms.foldl (fun cells m => cells.set m.cell m.offset) cells

theorem countCell_eq_some_iff {a : Option Arg} {cell : Nat} :
    countCell a = some cell ↔ a = some (.count cell) := by
  rcases a with _ | (_ | _ | _ | _ | _ | _ | _) <;> simp [countCell]

/-- The extractor of a run finds the same cells. -/
theorem bind_cell? (a : Option Arg) : a.bind Arg.cell? = countCell a := by
  rcases a with _ | (_ | _ | _ | _ | _ | _ | _) <;> rfl

theorem Expansion.cell?_eq_some_iff {args : List Arg} {e : Expansion} {cell : Nat} :
    e.cell? args = some cell ↔ e.Stores args cell := by
  rw [cell?, Stores]
  cases e.piece with
  | literal b => simp
  | directive d =>
    simp only [Option.ite_none_right_eq_some, countCell_eq_some_iff, Piece.directive.injEq,
      exists_eq_left']

theorem mem_marksOf (args : List Arg) (m : Mark) (offset : Nat) (es : List Expansion) :
    m ∈ marksOf args offset es ↔ ∃ (i : Nat) (e : Expansion), es[i]? = some e ∧
      e.Stores args m.cell ∧
      m.offset = offset + ((es.take i).flatMap (·.bytes)).length := by
  simp only [← Expansion.cell?_eq_some_iff]
  induction es generalizing offset with
  | nil => simp [marksOf]
  | cons e es ih =>
    rw [marksOf, List.mem_append, ih]
    constructor
    · rintro (own | ⟨i, later, found, cell, behind⟩)
      · simp only [List.mem_map, Option.mem_toList] at own
        obtain ⟨c, cell, rfl⟩ := own
        exact ⟨0, e, rfl, cell, rfl⟩
      · refine ⟨i + 1, later, found, cell, ?_⟩
        simp only [List.take_succ_cons, List.flatMap_cons, List.length_append]
        omega
    · rintro ⟨i, later, found, cell, behind⟩
      cases i with
      | zero =>
        left
        simp only [List.getElem?_cons_zero, Option.some.injEq] at found
        subst found
        simp only [List.take_zero, List.flatMap_nil, List.length_nil, Nat.add_zero] at behind
        simp only [List.mem_map, Option.mem_toList]
        exact ⟨m.cell, cell, behind ▸ rfl⟩
      | succ i =>
        right
        refine ⟨i, later, found, cell, ?_⟩
        simp only [List.take_succ_cons, List.flatMap_cons, List.length_append] at behind
        omega

theorem length_store (cells : List Nat) (ms : List Mark) :
    (store cells ms).length = cells.length := by
  induction ms generalizing cells with
  | nil => rfl
  | cons m ms ih => exact (ih _).trans List.length_set

theorem store_append (cells : List Nat) (before behind : List Mark) :
    store cells (before ++ behind) = store (store cells before) behind := List.foldl_append

/-- A cell holds the last of its marks, and what it held before if it has none. -/
theorem store_getElem? (cells : List Nat) (ms : List Mark) (c : Nat) (inside : c < cells.length) :
    (store cells ms)[c]? =
      ((ms.filter (·.cell = c)).getLast?.map (·.offset)).or cells[c]? := by
  induction ms generalizing cells with
  | nil => rfl
  | cons m ms ih =>
    have later := ih (cells.set m.cell m.offset) (by rwa [List.length_set])
    refine later.trans ?_
    by_cases own : m.cell = c
    · subst own
      rw [List.filter_cons_of_pos (by simp), List.getLast?_cons, List.getElem?_set_self inside]
      cases (ms.filter (·.cell = m.cell)).getLast? <;> rfl
    · rw [List.filter_cons_of_neg (by simpa using own), List.getElem?_set_ne own]

namespace Run

def marksFrom : Nat → List Step → List Mark
  | _, [] => []
  | offset, .emit chunk :: steps => marksFrom (offset + chunk.size) steps
  | offset, .record cell :: steps => ⟨cell, offset⟩ :: marksFrom offset steps

theorem marksFrom_append (offset : Nat) (a b : List Step) :
    marksFrom offset (a ++ b) =
      marksFrom offset a ++ marksFrom (offset + (contents a).length) b := by
  induction a generalizing offset with
  | nil => rfl
  | cons step a ih =>
    cases step with
    | record cell => exact congrArg _ (ih offset)
    | emit chunk =>
      rw [List.cons_append, marksFrom, marksFrom, ih, contents_emit_cons, List.length_append,
        chunk.length_toList, Nat.add_assoc]

theorem marksFrom_emit (offset : Nat) (out : Output) : marksFrom offset (out.map .emit) = [] := by
  induction out generalizing offset with
  | nil => rfl
  | cons chunk out ih => exact ih _

/-- The marks of steps lie between the ends of what the steps write. -/
theorem offset_bounds {m : Mark} {offset : Nat} {steps : List Step}
    (marked : m ∈ marksFrom offset steps) :
    offset ≤ m.offset ∧ m.offset ≤ offset + (contents steps).length := by
  induction steps generalizing offset with
  | nil => cases marked
  | cons step steps ih =>
    cases step with
    | emit chunk =>
      have later := ih marked
      rw [contents_emit_cons, List.length_append, chunk.length_toList]
      omega
    | record cell =>
      rcases List.mem_cons.mp marked with rfl | later
      · exact ⟨Nat.le_refl _, Nat.le_add_right _ _⟩
      · exact ih later

/-- A run stores the marks in front of the first byte that its sink refuses. -/
theorem play_cells (S : Sink σ) (steps : List Step) (r : Run σ) :
    (play S steps r).2.cells = store r.cells ((marksFrom r.written steps).filter
      (·.offset ≤ r.written + (S.offer (contents steps) r.sink).1)) := by
  induction steps generalizing r with
  | nil => rfl
  | cons step steps ih =>
    cases step with
    | record cell =>
      have rest := ih { r with cells := r.cells.set cell r.written }
      rw [marksFrom, contents_record_cons, List.filter_cons_of_pos (by simp)]
      exact rest
    | emit chunk =>
      rw [contents_emit_cons, S.offer_append, marksFrom]
      by_cases whole : (S.offer chunk.toList r.sink).1 = chunk.toList.length
      · have rest := ih { r with sink := (S.offer chunk.toList r.sink).2,
                                 written := r.written + (S.offer chunk.toList r.sink).1 }
        simp only [whole, chunk.length_toList] at rest
        simp only [play, perform_emit, whole, beq_self_eq_true, if_true, chunk.length_toList]
        rw [rest, Nat.add_assoc]
      · -- the sink refuses a byte of the chunk, and every mark behind the chunk lies further on
        have refused : ((S.offer chunk.toList r.sink).1 == chunk.toList.length) = false := by
          simpa using whole
        have short := S.offer_le chunk.toList r.sink
        rw [if_neg whole, List.filter_eq_nil_iff.mpr]
        · simp only [play, perform_emit, refused]
          rfl
        · intro m marked
          have far := (offset_bounds marked).1
          rw [chunk.length_toList] at short whole
          simp only [decide_eq_true_eq]
          omega

end Run

theorem formatTo_cells (S : Sink σ) (features : Features) (fmt : Bytes) (args : List Arg) (s : σ)
    (cells : List Nat) :
    (formatTo S features fmt args s cells).cells = store cells
      ((Run.marksFrom 0 (script features fmt args)).filter
        (·.offset ≤ (S.offer (content features fmt args) s).1)) := by
  have played := Run.play_cells S (script features fmt args) ⟨s, 0, cells⟩
  simp only [Nat.zero_add, ← content_eq] at played
  rw [← played, formatTo]
  rcases Run.play S (script features fmt args) ⟨s, 0, cells⟩ with ⟨answer, r⟩
  cases answer with
  | false => rfl
  | true =>
    rcases ended : S.terminate r.sink with ⟨answer, last⟩
    cases answer <;> simp [Run.close, ended]

theorem Spec.marks_steps (s : Spec) (a : Arg) (offset : Nat) :
    Run.marksFrom offset (s.steps a) =
      (if s.conversion = .charsWritten then countCell a else none).toList.map (⟨·, offset⟩) := by
  by_cases counts : s.conversion = .charsWritten
  · rw [if_pos counts, steps, counts, ← bind_cell?, Option.bind_some]
    cases a.cell? <;> rfl
  · have nothing : Run.marksFrom offset (s.steps a) = [] := by
      rw [steps]
      split
      · contradiction
      · cases s.image? a with
        | none => rfl
        | some image => exact Run.marksFrom_emit _ _
    rw [nothing, if_neg counts]
    rfl

theorem Directive.marks_steps (d : Directive) (c : Cursor) (offset : Nat) :
    Run.marksFrom offset (d.steps c).1 =
      (if d.conversion = .charsWritten then
        countCell c.rest[d.width.slots + d.precision.slots]? else none).toList.map
          (⟨·, offset⟩) := by
  rw [steps_fst, stepsWith]
  by_cases percent : d.conversion = .percent
  · simp [percent, Run.marksFrom]
  · rw [if_neg percent]
    cases c.rest[d.width.slots + d.precision.slots]? with
    | none => split <;> rfl
    | some a => exact (d.resolveWith _ _).marks_steps a offset

/-- A cursor whose remaining arguments are those of a list behind its position. -/
def Cursor.Over (args : List Arg) (c : Cursor) : Prop := c.rest = args.drop c.position

theorem Cursor.Over.skip {args : List Arg} {c : Cursor} (within : c.Over args) (n : Nat) :
    (c.skip n).Over args := by
  have rest : c.rest.length = args.length - c.position := by rw [within, List.length_drop]
  rw [Over, skip_rest, within, List.drop_drop]
  by_cases inside : n ≤ c.rest.length
  · rw [Cursor.skip, Nat.min_eq_left inside]
  · rw [List.drop_eq_nil_of_le (by omega), List.drop_eq_nil_of_le]
    simp only [Cursor.skip]
    omega

theorem marks_expand (args : List Arg) (ps : List Piece) (c : Cursor) (within : c.Over args)
    (offset : Nat) :
    Run.marksFrom offset (stepsOf ps c).1 = marksOf args offset (expand ps c) := by
  induction ps generalizing c offset with
  | nil => rfl
  | cons p ps ih =>
    have later := ih (p.steps c).2 (p.steps_snd c ▸ within.skip p.slots)
    rw [stepsOf_cons, expand, marksOf, Run.marksFrom_append, later]
    congr 1
    cases p with
    | literal b => rfl
    | directive d =>
      have value : c.rest[d.width.slots + d.precision.slots]? =
          args[c.position + d.width.slots + d.precision.slots]? := by
        rw [within, List.getElem?_drop, Nat.add_assoc]
      simp only [Piece.steps, Expansion.cell?, d.marks_steps, value]

theorem marks_script (features : Features) (fmt : Bytes) (args : List Arg) :
    Run.marksFrom 0 (script features fmt args) = marks features fmt args :=
  marks_expand args _ (.ofList args) (List.drop_zero).symm 0

/-- A sink that refuses nothing reaches every mark. -/
theorem formatTo_cells_unrefused (S : Sink σ) (never : ∀ s b, (S.put s b).1 = true)
    (features : Features) (fmt : Bytes) (args : List Arg) (s : σ) (cells : List Nat) :
    (formatTo S features fmt args s cells).cells = store cells (marks features fmt args) := by
  rw [formatTo_cells, S.offer_unrefused never, marks_script, List.filter_eq_self.mpr]
  intro m marked
  rw [← marks_script] at marked
  have bound := (Run.offset_bounds marked).2
  rw [← content_eq, Nat.zero_add] at bound
  exact decide_eq_true bound

theorem Directive.output_count {d : Directive} (counts : d.conversion = .charsWritten)
    (w p v : Option Arg) : d.output w p v = [] := by
  rw [output, if_neg (by rw [counts]; decide)]
  cases v with
  | none => rfl
  | some a =>
    have noImage : (d.resolveWith w p).image? a = none := by
      simp [Spec.image?, resolveWith, counts]
    rw [Option.elim_some, Spec.contents_steps, noImage, Option.elim_none]

theorem expansions_count {features : Features} {fmt : Bytes} {args : List Arg} {e : Expansion}
    {d : Directive} (member : e ∈ expansions features fmt args) (directive : e.piece = .directive d)
    (counts : d.conversion = .charsWritten) : e.bytes = [] := by
  obtain ⟨i, found⟩ := List.mem_iff_getElem?.mp member
  rw [expansions_getElem?, Option.map_eq_some_iff] at found
  obtain ⟨p, -, rfl⟩ := found
  subst directive
  exact Directive.output_count counts _ _ _

/-- A count directive with a count argument marks its cell with the number of bytes that the parts
in front of it write, and writes nothing itself. A run stores the marks that lie in front of the
first byte refused: each cell ends with the last of its marks among these, or as it was. A counting
run and formatting into any memory store every mark. -/
theorem counts_are_offsets (S : Sink σ) (features : Features) (fmt : Bytes) (args : List Arg)
    (s : σ) (cells : List Nat) (memory : Array UInt8) (start : Nat) :
    let parts := expansions features fmt args
    let F := content features fmt args
    let all := marks features fmt args
    let reached := all.filter (·.offset ≤ (S.offer F s).1)
    let after := (formatTo S features fmt args s cells).cells
    F = parts.flatMap (·.bytes) ∧
    (∀ m, m ∈ all ↔ ∃ (i : Nat) (e : Expansion), parts[i]? = some e ∧
      e.Stores args m.cell ∧ m.offset = ((parts.take i).flatMap (·.bytes)).length) ∧
    (∀ e ∈ parts, ∀ d, e.piece = .directive d → d.conversion = .charsWritten → e.bytes = []) ∧
    after = store cells reached ∧
    after.length = cells.length ∧
    (∀ c < cells.length,
      after[c]? = ((reached.filter (·.cell = c)).getLast?.map (·.offset)).or cells[c]?) ∧
    (formatTo .counter features fmt args start cells).cells = store cells all ∧
    (formatToBuffer features memory fmt args cells).cells = store cells all := by
  intro parts F all reached after
  have stored : after = store cells reached := by
    have run := formatTo_cells S features fmt args s cells
    rwa [marks_script] at run
  refine ⟨(expansions_flatMap features fmt args).symm, ?_, ?_, stored, ?_, ?_, ?_, ?_⟩
  · intro m
    have member := mem_marksOf args m 0 parts
    simp only [Nat.zero_add] at member
    exact member
  · intro e member d directive counts
    exact expansions_count member directive counts
  · rw [stored, length_store]
  · intro c inside
    rw [stored, store_getElem? cells reached c inside]
  · exact formatTo_cells_unrefused .counter (fun _ _ => rfl) features fmt args start cells
  · exact formatTo_cells_unrefused .truncating (fun _ _ => rfl) features fmt args _ cells

/-- Two counts in one cell, a count argument that another directive takes, a count without an argument
for it, and one that a sink of five bytes does not reach. -/
theorem counts_are_offsets_shared_cell :
    let fmt := utf8 "ab%ncd%n%d%nef%n"
    let args := [Arg.count 1, .count 1, .count 0, .int 3, .count 2]
    (formatTo .counter ⟨true, true⟩ fmt args 0 [9, 9, 9]).cells = [9, 4, 6] ∧
    (formatToBuffer ⟨true, true⟩ #[7, 7] fmt args [9, 9, 9]).cells = [9, 4, 6] ∧
    (formatTo .bounded ⟨true, true⟩ fmt args (.zeroed 5) [9, 9, 9]).cells = [9, 4, 9] := by
  intro fmt args
  obtain ⟨-, -, -, stored, -, -, counter, buffer⟩ :=
    counts_are_offsets .bounded ⟨true, true⟩ fmt args (.zeroed 5) [9, 9, 9] #[7, 7] 0
  exact ⟨counter.trans (by decide +kernel), buffer.trans (by decide +kernel),
    stored.trans (by decide +kernel)⟩

end Printf
