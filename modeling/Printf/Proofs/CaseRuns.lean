import Printf.Fixture.Run
import Printf.Proofs.Counts
import Printf.Proofs.Memory

/-! Runs of test cases. A case that gives no size for its destination is run twice over the same
cells, where the first run finds the size; a case that gives one is run once. As long as the destination
can be had, its size decides how much of the output is shown and nothing else. -/
namespace Printf

/-- Nothing behind a NUL is text. -/
theorem untilNul_append_nul (text rest : Bytes) :
    untilNul (text ++ 0 :: rest) = untilNul text := by
  induction text with
  | nil => rfl
  | cons b text ih =>
    rw [untilNul, untilNul, List.cons_append, List.takeWhile_cons, List.takeWhile_cons]
    exact ite_congr rfl (fun _ => congrArg (b :: ·) ih) fun _ => rfl

/-- Memory shows the output up to its last place, which is kept for a NUL. -/
theorem formatToBuffer_text (features : Features) (memory : Array UInt8) (fmt : Bytes)
    (args : List Arg) (cells : List Nat) :
    untilNul (formatToBuffer features memory fmt args cells).memory.toList =
      untilNul ((content features fmt args).take (memory.size - 1)) := by
  have held := formatToBuffer_memory features memory fmt args cells
  rw [held, List.length_append, List.length_singleton]
  generalize content features fmt args = F
  split
  case isTrue fits =>
    rw [List.take_of_length_le (by omega), List.append_assoc]
    exact untilNul_append_nul F _
  case isFalse cut =>
    by_cases none : memory.size = 0
    · rw [if_pos none, none, List.take_zero]
    · rw [if_neg none, List.take_append_of_le_length (by omega)]
      exact untilNul_append_nul _ []

theorem formatToBuffer_cells (features : Features) (memory : Array UInt8) (fmt : Bytes)
    (args : List Arg) (cells : List Nat) :
    (formatToBuffer features memory fmt args cells).cells =
      store cells (marks features fmt args) :=
  formatTo_cells_unrefused .truncating (fun _ _ => rfl) features fmt args _ cells

/-- Marks stored twice are stored once. -/
theorem store_store (cells : List Nat) (ms : List Mark) :
    store (store cells ms) ms = store cells ms := by
  apply List.ext_getElem?
  intro i
  by_cases inside : i < cells.length
  · rw [store_getElem? _ ms i (by rwa [length_store]), store_getElem? cells ms i inside]
    cases (ms.filter (·.cell = i)).getLast? <;> rfl
  · rw [List.getElem?_eq_none, List.getElem?_eq_none]
    · rw [length_store]
      omega
    · rw [length_store, length_store]
      omega

/-- The part is a count directive, and its value is the argument of the given number. -/
def Expansion.Counts (e : Expansion) (i : Nat) : Prop :=
  ∃ d, e.piece = .directive d ∧ d.conversion = .charsWritten ∧
    e.start + d.width.slots + d.precision.slots = i

namespace FixtureCase

def size (features : Features) (c : FixtureCase) : Nat :=
  c.capacity.getD ((content features (utf8 c.format) c.formatArgs).length + 1)

/-- The destination is no larger than the largest object. -/
def Allocates (features : Features) (c : FixtureCase) : Prop := c.size features ≤ largestSize

instance (features : Features) (c : FixtureCase) : Decidable (c.Allocates features) :=
  inferInstanceAs (Decidable (_ ≤ _))

def marks (features : Features) (c : FixtureCase) : List Mark :=
  Printf.marks features (utf8 c.format) c.formatArgs

def countOf (features : Features) (c : FixtureCase) (i : Nat) : Nat :=
  (((c.marks features).filter (·.cell = i)).getLast?.map (·.offset)).getD 0

/-- The cell of a count argument has the number of the argument. -/
theorem formatArgs_count (c : FixtureCase) (i cell : Nat) :
    c.formatArgs[i]? = some (.count cell) ↔ c.args[i]? = some .count ∧ i = cell := by
  rw [formatArgs, List.getElem?_mapIdx]
  cases c.args[i]? with
  | none => simp
  | some a => cases a <;> simp [FixtureArg.toArg]

theorem stores_iff (c : FixtureCase) (e : Expansion) (i : Nat) :
    e.Stores c.formatArgs i ↔ c.args[i]? = some .count ∧ e.Counts i := by
  simp only [Expansion.Stores, Expansion.Counts, formatArgs_count]
  constructor
  · rintro ⟨d, directive, counts, argument, rfl⟩
    exact ⟨argument, d, directive, counts, rfl⟩
  · rintro ⟨argument, d, directive, counts, rfl⟩
    exact ⟨d, directive, counts, argument, rfl⟩

/-- The count of a count argument is what the parts in front of its directive write. -/
theorem countOf_eq (features : Features) (c : FixtureCase) (i : Nat)
    (argument : c.args[i]? = some .count) :
    let parts := expansions features (utf8 c.format) c.formatArgs
    (∃ (j : Nat) (e : Expansion), parts[j]? = some e ∧ e.Counts i ∧
      c.countOf features i = ((parts.take j).flatMap (·.bytes)).length) ∨
    (∀ e ∈ parts, ¬ e.Counts i) ∧ c.countOf features i = 0 := by
  intro parts
  have member (m : Mark) := mem_marksOf c.formatArgs m 0 parts
  rw [countOf]
  cases last : ((c.marks features).filter (·.cell = i)).getLast? with
  | some m =>
    left
    obtain ⟨marked, own⟩ := List.mem_filter.mp (List.mem_of_getLast? last)
    obtain ⟨j, e, found, stores, behind⟩ := (member m).mp marked
    rw [of_decide_eq_true own, stores_iff] at stores
    exact ⟨j, e, found, stores.2, behind.trans (Nat.zero_add _)⟩
  | none =>
    right
    refine ⟨fun e part counts => ?_, rfl⟩
    obtain ⟨j, found⟩ := List.mem_iff_getElem?.mp part
    have marked := (member ⟨i, _⟩).mpr
      ⟨j, e, found, (c.stores_iff e i).mpr ⟨argument, counts⟩, rfl⟩
    rw [List.getLast?_eq_none_iff, List.filter_eq_nil_iff] at last
    exact last _ marked (decide_eq_true rfl)

/-- A run that reaches every count leaves each in its cell. -/
theorem countTexts_store (features : Features) (c : FixtureCase) :
    c.countTexts (store c.freshCells (c.marks features)) = c.args.zipIdx.filterMap fun (a, i) =>
      if a = .count then some ("|n=" ++ Radix.decimalText (c.countOf features i)) else none := by
  have cells : store c.freshCells (c.marks features) =
      (List.range c.args.length).map (c.countOf features) := by
    apply List.ext_getElem?
    intro i
    by_cases inside : i < c.args.length
    · have fresh : c.freshCells[i]? = some 0 := by simp [freshCells, inside]
      rw [store_getElem? _ _ i (by simpa [freshCells] using inside), fresh, List.getElem?_map,
        List.getElem?_range inside, Option.map_some, countOf]
      cases ((c.marks features).filter (·.cell = i)).getLast? <;> rfl
    · rw [List.getElem?_eq_none, List.getElem?_eq_none]
      · simpa using inside
      · simpa [length_store, freshCells] using inside
  rw [countTexts, cells, List.zip_map_right, List.filterMap_map, List.zipIdx_eq_zip_range',
    List.range_eq_range']
  rfl

/-- What a case gives: its destination shows what it has room for, with all counts behind it. -/
def given (features : Features) (c : FixtureCase) : CaseRun where
  output :=
    Utf8.lossyText (untilNul ((content features (utf8 c.format) c.formatArgs).take
      (c.size features - 1))) ++
    String.join (c.countTexts (store c.freshCells (c.marks features)))
  returned := (content features (utf8 c.format) c.formatArgs).length + 1

theorem zeroedMemory_bind {α : Type} (size : Nat) (f : Array UInt8 → Except Panic α) :
    (zeroedMemory size >>= f) =
      if size ≤ largestSize then f (Array.replicate size 0) else .error .capacityOverflow := by
  rw [zeroedMemory]
  split <;> rfl

/-- A case is run to its end just if its destination can be had. -/
theorem execute_eq (features : Features) (c : FixtureCase) : c.execute features =
    if c.Allocates features then .ok (c.given features) else .error .capacityOverflow := by
  have counted : (formatTo .counter features (utf8 c.format) c.formatArgs 0 c.freshCells).cells =
      store c.freshCells (c.marks features) :=
    formatTo_cells_unrefused .counter (fun _ _ => rfl) _ _ _ _ _
  -- a run that counts stores what a run into memory stores, so the second one changes no cell
  rw [execute]
  cases sized : c.capacity with
  | some size =>
    simp only [zeroedMemory_bind, formatToBuffer_returned, formatToBuffer_text,
      formatToBuffer_cells, Array.size_replicate, Allocates, given, FixtureCase.size, sized]
    rfl
  | none =>
    simp only [zeroedMemory_bind, formatToBuffer_returned, formatToBuffer_text,
      formatToBuffer_cells, Array.size_replicate, Allocates, given, FixtureCase.size, sized,
      counter_written, counted, marks, store_store, Option.getD_none]
    rfl

theorem execute_ok {features : Features} {c : FixtureCase} (allocates : c.Allocates features) :
    c.execute features = .ok (c.given features) := by
  rw [execute_eq, if_pos allocates]

theorem eq_given {features : Features} {c : FixtureCase} {run : CaseRun}
    (ran : c.execute features = .ok run) : run = c.given features := by
  rw [execute_eq] at ran
  split at ran
  · exact (Except.ok.inj ran).symm
  · cases ran

end FixtureCase

/-- A case whose destination is larger than the largest object ends the run in a panic. Any other case
returns the length of its output with a NUL, and shows its counts behind its text, one for each count
argument, whatever the size of its destination and whether it has one: a count is the length of the
output in front of the directive that takes its argument, and zero without such a directive. The text
is the output up to its first NUL, if it has room, and otherwise the part that leaves a place for the
last NUL. -/
theorem case_size_cuts_text_only (features : Features) (c : FixtureCase) :
    let F := content features (utf8 c.format) c.formatArgs
    let parts := expansions features (utf8 c.format) c.formatArgs
    ∃ count : Nat → Nat,
      (∀ i, c.args[i]? = some .count →
        (∃ (j : Nat) (e : Expansion), parts[j]? = some e ∧ e.Counts i ∧
          count i = ((parts.take j).flatMap (·.bytes)).length) ∨
        (∀ e ∈ parts, ¬ e.Counts i) ∧ count i = 0) ∧
      ∀ capacity : Option Nat,
        let size := capacity.getD (F.length + 1)
        let ran := { c with capacity }.execute features
        (largestSize < size → ran = .error .capacityOverflow) ∧
        (size ≤ largestSize → ∃ run, ran = .ok run ∧
          run.returned = F.length + 1 ∧
          ∃ text, run.output = text ++ String.join (c.args.zipIdx.filterMap fun (a, i) =>
              if a = .count then some ("|n=" ++ Radix.decimalText (count i)) else none) ∧
            ((∀ n ∈ capacity, run.returned ≤ n) → text = Utf8.lossyText (untilNul F)) ∧
            (∀ n ∈ capacity, 0 < n → n < run.returned →
              text = Utf8.lossyText (untilNul (F.take (n - 1)))) ∧
            (capacity = some 0 → text = "")) := by
  intro F parts
  refine ⟨c.countOf features, c.countOf_eq features, fun capacity => ⟨fun large => ?_, fun fits => ?_⟩⟩
  · rw [FixtureCase.execute_eq, if_neg]
    exact Nat.not_le.mpr large
  have counts := FixtureCase.countTexts_store features { c with capacity }
  refine ⟨_, FixtureCase.execute_ok fits, rfl, _, congrArg (_ ++ String.join ·) counts, ?_, ?_, ?_⟩
  · intro room
    have whole : F.length ≤ capacity.getD (F.length + 1) - 1 := by
      cases capacity with
      | none => exact Nat.le_refl _
      | some n => exact Nat.le_sub_one_of_lt (room n rfl)
    exact congrArg (Utf8.lossyText <| untilNul ·) (List.take_of_length_le whole)
  · rintro n ⟨⟩ - -
    rfl
  · rintro ⟨⟩
    simp [FixtureCase.size, Utf8.lossyText, untilNul, Utf8.decode]

/-- A destination that cuts the text, and one that is larger than any object. -/
theorem case_size_cuts_text_only_huge :
    let c : FixtureCase := { name := "", format := "abc", expectedOutput := "abc" }
    (∃ run, { c with capacity := some 3 }.execute ⟨true, true⟩ = .ok run ∧
      run.output = "ab" ∧ run.returned = 4) ∧
    { c with capacity := some 9223372036854775808 }.execute ⟨true, true⟩ =
      .error .capacityOverflow := by
  intro c
  obtain ⟨_, -, sizes⟩ := case_size_cuts_text_only ⟨true, true⟩ c
  have length : (content ⟨true, true⟩ (utf8 c.format) c.formatArgs).length = 3 := by decide +kernel
  obtain ⟨run, ran, returned, text, output, -, cut, -⟩ := (sizes (some 3)).2 (by decide)
  refine ⟨⟨run, ran, ?_, by rw [returned, length]⟩, (sizes (some 9223372036854775808)).1 (by decide)⟩
  have shown : Utf8.lossyText (untilNul ((content ⟨true, true⟩ (utf8 c.format) c.formatArgs).take 2)) =
    "ab" := by decide +kernel
  rw [output, cut 3 rfl (by decide) (by rw [returned, length]; decide), shown]
  rfl

end Printf
