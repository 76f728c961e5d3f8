import Mathlib.Data.List.Basic
import Mathlib.Data.Set.Function
import Mathlib.Order.Bounds.Defs
import Printf.Diff
import Printf.Proofs.Digits
import Printf.Proofs.Pieces

/-! Differences as texts. As long as the counter of the lines does not wrap around, a difference has a
hunk for each place at which the lines of the two sides differ, and can be cut into its hunks in one way
only, so that one side and the difference give the other side. -/
namespace Printf.Diff

open Text (lines)

/-- What the two sides have at a line number that they differ at. -/
@[ext]
structure Change where
  number : Nat
  expected : Option (List Char)
  actual : Option (List Char)

/-- The places, numbered from `first` on, at which two lists of lines differ or only one of them has a
line, in order. -/
def changes (first : Nat) (expected actual : List (List Char)) : List Change :=
  ((List.range (max expected.length actual.length)).filter
      fun i => expected[i]? ≠ actual[i]?).map
    fun i => ⟨first + i, expected[i]?, actual[i]?⟩

def header (number : Nat) : List Char :=
  "@@ line ".toList ++ (Radix.decimalText number).toList ++ " @@\n".toList

/-- The lines of a text can be counted without wrapping around. -/
def Counted (s : String) : Prop := (lines s.toList).length < 2 ^ 31

instance (s : String) : Decidable (Counted s) := inferInstanceAs (Decidable (_ < _))

def caretLine (column : Nat) : List Char :=
  ' ' :: List.replicate column ' ' ++ "^ byte ".toList ++ (Radix.decimalText column).toList ++ ['\n']

/-- The text of a change: the line of each side that has one, and below two lines a caret under the
first byte that differs. -/
inductive Shown : Change → List Char → Prop where
  | removed (number : Nat) (e : List Char) :
      Shown ⟨number, some e, none⟩ (header number ++ ('-' :: e ++ ['\n']))
  | added (number : Nat) (a : List Char) :
      Shown ⟨number, none, some a⟩ (header number ++ ('+' :: a ++ ['\n']))
  | changed (number : Nat) (e a : List Char) (column : Nat) :
      IsLeast {i | (bytes e)[i]? ≠ (bytes a)[i]?} column →
      Shown ⟨number, some e, some a⟩
        (header number ++ ('-' :: e ++ ['\n']) ++ ('+' :: a ++ ['\n']) ++ caretLine column)

theorem bytes_injective : Function.Injective bytes := by
  intro e a same
  have read (cs : List Char) : (bytes cs).toByteArray.utf8Decode? = some cs.toArray :=
    List.utf8Decode?_utf8Encode
  have equal := read e
  rw [same, read a, Option.some.injEq] at equal
  exact (List.toArray_inj equal).symm

theorem firstDifference_least {e a : List UInt8} (other : e ≠ a) :
    IsLeast {i | e[i]? ≠ a[i]?} (firstDifference e a) := by
  induction e generalizing a with
  | nil =>
    obtain ⟨b, rest, rfl⟩ := List.exists_cons_of_ne_nil other.symm
    exact ⟨by simp [firstDifference], fun _ _ => Nat.zero_le _⟩
  | cons b e ih =>
    cases a with
    | nil => exact ⟨by simp [firstDifference], fun _ _ => Nat.zero_le _⟩
    | cons c a =>
      rw [firstDifference]
      split
      · next same =>
        obtain ⟨differs, least⟩ := ih fun equal => other (by rw [same, equal])
        refine ⟨by simpa using differs, ?_⟩
        rintro (_ | i) later
        · exact absurd (by simp [same]) later
        · exact Nat.succ_le_succ (least (by simpa using later))
      · next apart => exact ⟨by simp [apart], fun _ _ => Nat.zero_le _⟩

def sideText (mark : Char) (line : Option (List Char)) : List Char :=
  line.elim [] fun l => mark :: l ++ ['\n']

def caretText : Option (List Char) → Option (List Char) → List Char
  | some e, some a => caretLine (firstDifference (bytes e) (bytes a))
  | _, _ => []

/-- The text of a change, with the number that the counter of the lines has there. -/
def Change.text (c : Change) : List Char := hunk (Int32.ofNat c.number) c.expected c.actual

theorem hunk_text (number : Int32) (expected actual : Option (List Char)) :
    hunk number expected actual =
      "@@ line ".toList ++ (Radix.integerText number.toInt).toList ++ " @@\n".toList ++
        sideText '-' expected ++ sideText '+' actual ++ caretText expected actual := by
  cases expected <;> cases actual <;> rfl

/-- The counter shows numbers below its bound as they are. -/
theorem text_counted {c : Change} (small : c.number < 2 ^ 31) : c.text =
    header c.number ++ sideText '-' c.expected ++ sideText '+' c.actual ++
      caretText c.expected c.actual := by
  have shown : Radix.integerText (Int32.ofNat c.number).toInt = Radix.decimalText c.number :=
    congrArg Radix.integerText (Int32.toInt_ofNat_of_lt small)
  rw [Change.text, hunk_text, shown]
  rfl

theorem head_text (c : Change) (rest : List Char) : (c.text ++ rest).head? = some '@' := by
  rw [Change.text, hunk_text]
  generalize Int32.ofNat c.number = number
  simp only [List.append_assoc]
  rfl

theorem text_shown {c : Change} (small : c.number < 2 ^ 31) (change : c.expected ≠ c.actual) :
    Shown c c.text := by
  obtain ⟨number, _ | e, _ | a⟩ := c <;> rw [text_counted small]
  · exact absurd rfl change
  · simpa only [sideText, caretText, Option.elim, List.append_nil] using Shown.added number a
  · simpa only [sideText, caretText, Option.elim, List.append_nil] using Shown.removed number e
  · have other : bytes e ≠ bytes a := fun same => change (by rw [bytes_injective same])
    exact .changed number e a _ (firstDifference_least other)

/-- The change at the first line, if there is one, and those behind it. -/
theorem changes_tail {expected actual : List (List Char)} (some : expected ≠ [] ∨ actual ≠ [])
    (first : Nat) : changes first expected actual =
      (if expected[0]? = actual[0]? then [] else [⟨first, expected[0]?, actual[0]?⟩]) ++
        changes (first + 1) expected.tail actual.tail := by
  have length : max expected.length actual.length =
      max expected.tail.length actual.tail.length + 1 := by
    have := some.imp List.length_pos_iff.mpr List.length_pos_iff.mpr
    simp only [List.length_tail]
    omega
  have later : changes (first + 1) expected.tail actual.tail =
      (((List.range (max expected.tail.length actual.tail.length)).map Nat.succ).filter
        fun i => expected[i]? ≠ actual[i]?).map
      fun i => ⟨first + i, expected[i]?, actual[i]?⟩ := by
    simp only [changes, List.filter_map, List.map_map, Function.comp_def, List.getElem?_tail,
      Nat.succ_eq_add_one, Nat.add_assoc, Nat.add_comm 1]
  rw [later, changes, length, List.range_succ_eq_map, List.filter_cons]
  by_cases same : expected[0]? = actual[0]?
  · rw [if_neg (by simp [same]), if_pos same, List.nil_append]
  · rw [if_pos (by simp [same]), if_neg same, List.map_cons, Nat.add_zero, List.singleton_append]

theorem hunks_eq (first : Nat) (expected actual : List (List Char)) :
    hunks (Int32.ofNat first) expected actual =
      (changes first expected actual).flatMap Change.text := by
  have next (first : Nat) : Int32.ofNat (first + 1) = Int32.ofNat first + 1 := Int32.ofNat_add first 1
  generalize counter : Int32.ofNat first = number
  fun_induction hunks number expected actual generalizing first with
  | case1 => rfl
  | case2 number e es ih =>
    subst counter
    rw [changes_tail (.inl (List.cons_ne_nil _ _)), ih (first + 1) (next first)]
    rfl
  | case3 number a as ih =>
    subst counter
    rw [changes_tail (.inr (List.cons_ne_nil _ _)), ih (first + 1) (next first)]
    rfl
  | case4 number e es a as ih =>
    subst counter
    rw [changes_tail (.inl (List.cons_ne_nil _ _)), ih (first + 1) (next first)]
    by_cases same : e = a <;> simp [same, Change.text]

theorem header_append (n : Nat) (x : List Char) : header n ++ x =
    "@@ line ".toList ++ ((Radix.decimalText n).toList ++ ' ' :: ("@@\n".toList ++ x)) := by
  unfold header
  rw [List.append_assoc, List.append_assoc]
  rfl

theorem header_cut {n m : Nat} {x y : List Char} (same : header n ++ x = header m ++ y) :
    n = m ∧ x = y := by
  have blank (n : Nat) : ' ' ∉ (Radix.decimalText n).toList := fun member =>
    absurd (Radix.isDecimal_decimalText n ' ' member) (by decide)
  rw [header_append, header_append] at same
  obtain ⟨number, behind⟩ :=
    Text.append_cons_unique (blank n) (blank m) (List.append_cancel_left same)
  exact ⟨Radix.decimalText_injective (String.toList_injective number), List.append_cancel_left behind⟩

/-- A line with a mark in front can be told from a text that does not begin with the mark. -/
theorem sideText_cut {mark : Char} {l k : Option (List Char)} {x y : List Char}
    (whole : ∀ t ∈ l, '\n' ∉ t) (whole' : ∀ t ∈ k, '\n' ∉ t)
    (other : x.head? ≠ some mark) (other' : y.head? ≠ some mark)
    (same : sideText mark l ++ x = sideText mark k ++ y) : l = k ∧ x = y := by
  cases l with
  | none =>
    cases k with
    | none => exact ⟨rfl, same⟩
    | some t => exact absurd (congrArg List.head? same) other
  | some t =>
    cases k with
    | none => exact absurd (congrArg List.head? same.symm) other'
    | some u =>
      have cut : t ++ '\n' :: x = u ++ '\n' :: y := by simpa [sideText] using same
      obtain ⟨rfl, behind⟩ := Text.append_cons_unique (whole t rfl) (whole' u rfl) cut
      exact ⟨rfl, behind⟩

/-- A change that can be told from its text: the counter shows its number, and no line has a line break
in it. -/
structure Change.Legible (c : Change) : Prop where
  number : c.number < 2 ^ 31
  expected : ∀ t ∈ c.expected, '\n' ∉ t
  actual : ∀ t ∈ c.actual, '\n' ∉ t

def Closed (rest : List Char) : Prop := rest.head? = none ∨ rest.head? = some '@'

theorem closed_hunks (cs : List Change) : Closed (cs.flatMap Change.text) := by
  cases cs with
  | nil => exact .inl rfl
  | cons c cs =>
    rw [List.flatMap_cons]
    exact .inr (head_text c _)

theorem head_caret {expected actual : Option (List Char)} {rest : List Char} {mark : Char}
    (closed : Closed rest) (blank : mark ≠ ' ') (other : mark ≠ '@') :
    (caretText expected actual ++ rest).head? ≠ some mark := by
  have behind : rest.head? ≠ some mark := by
    rcases closed with none | next
    · simp [none]
    · simp [next, other.symm]
  cases expected <;> cases actual
  · exact behind
  · exact behind
  · exact behind
  · exact fun same => blank (Option.some.inj same).symm

theorem text_cut {c d : Change} (legible : c.Legible) (legible' : d.Legible) {x y : List Char}
    (closed : Closed x) (closed' : Closed y) (same : c.text ++ x = d.text ++ y) : c = d ∧ x = y := by
  have caret {e a : Option (List Char)} {rest : List Char} (closed : Closed rest) :
      (sideText '+' a ++ (caretText e a ++ rest)).head? ≠ some '-' := by
    cases a with
    | none => exact head_caret closed (by decide) (by decide)
    | some t => simp [sideText]
  rw [text_counted legible.number, text_counted legible'.number] at same
  simp only [List.append_assoc] at same
  obtain ⟨number, same⟩ := header_cut same
  -- a side that is missing is followed by the mark of the other one, a caret, or the next header
  obtain ⟨expected, same⟩ :=
    sideText_cut legible.expected legible'.expected (caret closed) (caret closed') same
  obtain ⟨actual, same⟩ := sideText_cut legible.actual legible'.actual
    (head_caret closed (by decide) (by decide)) (head_caret closed' (by decide) (by decide)) same
  rw [expected, actual] at same
  exact ⟨Change.ext number expected actual, List.append_cancel_left same⟩

/-- A text can be cut into hunks in one way only. -/
theorem hunks_cut {cs ds : List Change} (legible : ∀ c ∈ cs, c.Legible) (legible' : ∀ d ∈ ds, d.Legible)
    (same : cs.flatMap Change.text = ds.flatMap Change.text) : cs = ds := by
  have some (c : Change) (rest : List Change) : (c :: rest).flatMap Change.text ≠ [] := by
    intro none
    have head := head_text c (rest.flatMap Change.text)
    rw [← List.flatMap_cons, none] at head
    cases head
  induction cs generalizing ds with
  | nil =>
    cases ds with
    | nil => rfl
    | cons d ds => exact absurd same.symm (some d ds)
  | cons c cs ih =>
    cases ds with
    | nil => exact absurd same (some c cs)
    | cons d ds =>
      obtain ⟨first, later⟩ := List.forall_mem_cons.mp legible
      obtain ⟨first', later'⟩ := List.forall_mem_cons.mp legible'
      obtain ⟨rfl, behind⟩ := text_cut first first' (closed_hunks cs) (closed_hunks ds) same
      rw [ih later later' behind]

theorem mem_changes {first : Nat} {es as : List (List Char)} {c : Change} :
    c ∈ changes first es as ↔ ∃ i, es[i]? ≠ as[i]? ∧ c = ⟨first + i, es[i]?, as[i]?⟩ := by
  simp only [changes, List.mem_map, List.mem_filter, List.mem_range, decide_eq_true_iff]
  constructor
  · rintro ⟨i, ⟨_, differ⟩, rfl⟩
    exact ⟨i, differ, rfl⟩
  · rintro ⟨i, differ, rfl⟩
    refine ⟨i, ⟨?_, differ⟩, rfl⟩
    by_contra outside
    rw [Nat.not_lt, Nat.max_le] at outside
    exact differ (by rw [List.getElem?_eq_none outside.1, List.getElem?_eq_none outside.2])

theorem changes_at {first : Nat} {es as es' as' : List (List Char)} {i : Nat}
    (same : changes first es as = changes first es' as') (differ : es[i]? ≠ as[i]?) :
    es[i]? = es'[i]? ∧ as[i]? = as'[i]? := by
  obtain ⟨j, _, equal⟩ := mem_changes.mp (same ▸ mem_changes.mpr ⟨i, differ, rfl⟩)
  obtain ⟨number, expected, actual⟩ := Change.mk.inj equal
  cases Nat.add_left_cancel number
  exact ⟨expected, actual⟩

/-- At each place two pairs of texts with the same changes agree within the pairs, or else between
them. -/
theorem changes_split {first : Nat} {es as es' as' : List (List Char)}
    (same : changes first es as = changes first es' as') (i : Nat) :
    (es[i]? = as[i]? ∧ es'[i]? = as'[i]?) ∨ (es[i]? = es'[i]? ∧ as[i]? = as'[i]?) := by
  by_cases equal : es[i]? = as[i]?
  · by_cases equal' : es'[i]? = as'[i]?
    · exact .inl ⟨equal, equal'⟩
    · exact .inr ((changes_at same.symm equal').imp Eq.symm Eq.symm)
  · exact .inr (changes_at same equal)

theorem changes_self (first : Nat) (ls : List (List Char)) : changes first ls ls = [] := by
  refine List.eq_nil_iff_forall_not_mem.mpr fun c member => ?_
  obtain ⟨_, differ, _⟩ := mem_changes.mp member
  exact differ rfl

theorem legible_changes {expected actual : String} (counted : Counted expected)
    (counted' : Counted actual) :
    ∀ c ∈ changes 1 (lines expected.toList) (lines actual.toList), c.Legible := by
  intro c member
  obtain ⟨i, differ, rfl⟩ := mem_changes.mp member
  refine ⟨?_, fun t there => Text.separator_not_mem (List.mem_of_getElem? there),
    fun t there => Text.separator_not_mem (List.mem_of_getElem? there)⟩
  rw [Counted] at counted counted'
  by_contra outside
  have none (ls : List (List Char)) (few : ls.length < 2 ^ 31) : ls[i]? = none :=
    List.getElem?_eq_none (by dsimp only at outside; omega)
  exact differ (by rw [none _ counted, none _ counted'])

theorem toList_render {expected actual : String} (differ : expected ≠ actual) :
    (render expected actual).toList = "--- expected\n+++ actual\n".toList ++
      (changes 1 (lines expected.toList) (lines actual.toList)).flatMap Change.text := by
  rw [render, if_neg differ, String.toList_ofList, ← hunks_eq]
  rfl

theorem render_eq_identical_iff (expected actual : String) :
    render expected actual = "[identical]" ↔ expected = actual := by
  by_cases same : expected = actual
  · simp only [render, same, if_true]
  · refine iff_of_false (fun identical => ?_) same
    have first : "[identical]".toList.head? = some '-' := by
      rw [← identical, toList_render same]
      rfl
    exact absurd first (by decide)

theorem render_changes {e a e' a' : String} (counted : Counted e ∧ Counted a)
    (counted' : Counted e' ∧ Counted a') (same : render e a = render e' a') :
    changes 1 (lines e.toList) (lines a.toList) = changes 1 (lines e'.toList) (lines a'.toList) := by
  by_cases identical : e = a
  · have identical' : e' = a' := by
      rw [← render_eq_identical_iff, ← same, render_eq_identical_iff]
      exact identical
    rw [identical, identical', changes_self, changes_self]
  · have differ : e' ≠ a' := by
      rw [ne_eq, ← render_eq_identical_iff, ← same, render_eq_identical_iff]
      exact identical
    have texts := congrArg String.toList same
    rw [toList_render identical, toList_render differ] at texts
    exact hunks_cut (legible_changes counted.1 counted.2) (legible_changes counted'.1 counted'.2)
      (List.append_cancel_left texts)

/-- Texts that differ at one line only have one change. -/
theorem changes_between (front back : List (List Char)) {e a : List Char} (other : e ≠ a) (first : Nat) :
    changes first (front ++ e :: back) (front ++ a :: back) =
      [⟨first + front.length, some e, some a⟩] := by
  induction front generalizing first with
  | nil =>
    rw [List.nil_append, List.nil_append, changes_tail (.inl (List.cons_ne_nil _ _)), List.tail_cons,
      List.tail_cons, changes_self]
    simp [other]
  | cons c front ih =>
    rw [List.cons_append, List.cons_append, changes_tail (.inl (List.cons_ne_nil _ _)), List.tail_cons,
      List.tail_cons, ih]
    simp [Nat.add_assoc, Nat.add_comm 1]

theorem lines_injective {a b : String} (same : ∀ i : Nat, (lines a.toList)[i]? = (lines b.toList)[i]?) :
    a = b :=
  String.toList_injective (Text.split_injective '\n' (List.ext_getElem? same))

end Printf.Diff

namespace Printf

open Diff
open Text (lines)

/-- A difference of two texts says whether they are identical. Otherwise, as long as their lines can be
counted, it has a hunk for each line number at which the texts differ or only one of them has a line, in
order. Either text and the difference determine the other text among those whose lines can be
counted. -/
theorem diffs_show_every_change (expected actual : String) :
    (render expected actual = "[identical]" ↔ expected = actual) ∧
    (Counted expected → Counted actual → expected ≠ actual → ∃ hunks,
      List.Forall₂ Shown (changes 1 (lines expected.toList) (lines actual.toList)) hunks ∧
      (render expected actual).toList = "--- expected\n+++ actual\n".toList ++ hunks.flatten) ∧
    (Counted expected → Set.InjOn (fun a => render expected a) {a | Counted a}) ∧
    (Counted actual → Set.InjOn (fun e => render e actual) {e | Counted e}) := by
  refine ⟨render_eq_identical_iff expected actual, fun counted counted' differ => ?_,
    fun counted a few b few' same => ?_, fun counted e few f few' same => ?_⟩
  · refine ⟨_, ?_, (toList_render differ).trans (by rw [List.flatMap_def])⟩
    rw [List.forall₂_map_right_iff, List.forall₂_same]
    intro c member
    have small := (legible_changes counted counted' c member).number
    obtain ⟨i, change, rfl⟩ := mem_changes.mp member
    exact text_shown small change
  · have changes := render_changes ⟨counted, few⟩ ⟨counted, few'⟩ same
    refine lines_injective fun i => ?_
    rcases changes_split changes i with ⟨a, b⟩ | ⟨_, equal⟩
    · exact a.symm.trans b
    · exact equal
  · have changes := render_changes ⟨few, counted⟩ ⟨few', counted⟩ same
    refine lines_injective fun i => ?_
    rcases changes_split changes i with ⟨a, b⟩ | ⟨equal, _⟩
    · exact a.trans b.symm
    · exact equal

/-- Lines that look like parts of a difference, and a text that ends in the middle of the other. -/
theorem diffs_show_every_change_like_markers :
    "x\n+y\n@@ line 1 @@" ≠ "x\n" ∧ (∃ hunks,
      List.Forall₂ Shown [⟨2, some "+y".toList, some []⟩, ⟨3, some "@@ line 1 @@".toList, none⟩] hunks ∧
      (render "x\n+y\n@@ line 1 @@" "x\n").toList =
        "--- expected\n+++ actual\n".toList ++ hunks.flatten) ∧
    render "x\n+y\n@@ line 1 @@" "x\n" ≠ render "x\n+y\n@@ line 1 @@" "x" := by
  have many : Counted "x\n+y\n@@ line 1 @@" := by decide
  obtain ⟨_, shown, injective, _⟩ := diffs_show_every_change "x\n+y\n@@ line 1 @@" "x\n"
  refine ⟨by decide, shown many (by decide) (by decide), fun same => ?_⟩
  have two : Counted "x\n" := by decide
  have one : Counted "x" := by decide
  exact absurd (injective many two one same) (by decide)

namespace Diff

def blank (n : Nat) : String := String.ofList (List.replicate n '\n')

theorem lines_breaks (n : Nat) (cs : List Char) :
    lines (List.replicate n '\n' ++ cs) = List.replicate n [] ++ lines cs := by
  induction n with
  | zero => rfl
  | succ n ih =>
    rw [List.replicate_succ, List.cons_append, lines, Text.split, if_pos rfl, ← lines, ih]
    rfl

theorem changes_last (n : Nat) : changes 1 (lines (blank n).toList) (lines (blank n ++ "x").toList) =
    [⟨1 + n, some [], some ['x']⟩] := by
  have expected : lines (blank n).toList = List.replicate n [] ++ [[]] := by
    rw [blank, String.toList_ofList, ← List.append_nil (List.replicate n '\n'), lines_breaks]
    rfl
  have actual : lines (blank n ++ "x").toList = List.replicate n [] ++ [['x']] := by
    rw [blank, String.toList_append, String.toList_ofList, lines_breaks]
    rfl
  rw [expected, actual, changes_between _ _ (by decide), List.length_replicate]

theorem changes_first {n : Nat} (more : 0 < n) :
    changes 1 (lines (blank n).toList) (lines ("x" ++ blank n).toList) =
      [⟨1, some [], some ['x']⟩] := by
  obtain ⟨n, rfl⟩ := Nat.exists_eq_succ_of_ne_zero more.ne'
  have expected : lines (blank (n + 1)).toList = [] ++ [] :: lines (List.replicate n '\n') := by
    rw [blank, String.toList_ofList]
    rfl
  have actual : lines ("x" ++ blank (n + 1)).toList = [] ++ ['x'] :: lines (List.replicate n '\n') := by
    have whole : '\n' ∉ ['x'] := by decide
    simp only [blank, String.toList_append, String.toList_ofList, List.replicate_succ]
    exact Text.split_whole_cons whole _
  rw [expected, actual, changes_between _ _ (by decide), List.length_nil]

/-- A change is not shown with its number where the counter is negative. -/
theorem not_shown {c : Change} (wrapped : (Int32.ofNat c.number).toInt < 0) : ¬ Shown c c.text := by
  intro shown
  generalize given : c.text = text at shown
  obtain ⟨rest, rfl⟩ : ∃ rest, text = header c.number ++ rest := by
    cases shown with
    | removed => exact ⟨_, rfl⟩
    | added => exact ⟨_, rfl⟩
    | changed => exact ⟨_, by rw [List.append_assoc, List.append_assoc]⟩
  -- the counter shows a sign where the header has a digit
  obtain ⟨k, negative⟩ := Int.eq_negSucc_of_lt_zero wrapped
  rw [Change.text, hunk_text, negative, header_append, Radix.integerText, String.toList_append] at given
  simp only [List.append_assoc] at given
  have signed := List.append_cancel_left given
  have digit := Radix.isDecimal_decimalText c.number
  cases digits : (Radix.decimalText c.number).toList with
  | nil =>
    rw [digits] at signed
    exact absurd (List.head_eq_of_cons_eq signed) (by decide)
  | cons d ds =>
    rw [digits] at signed digit
    obtain rfl : '-' = d := List.head_eq_of_cons_eq signed
    exact absurd (digit '-' List.mem_cons_self) (by decide)

end Diff

/-- The counter of the lines wraps around behind its largest value: the last of 2^31 lines is shown with
a negative number, and the last of 2^32 + 1 lines like the first, so that texts that differ there cannot
be told from their differences to a third one. -/
theorem line_numbers_wrap_around :
    let e := blank 2147483647
    let f := blank 4294967296
    ((render e (e ++ "x")).toList =
        "--- expected\n+++ actual\n@@ line -2147483648 @@\n-\n+x\n ^ byte 0\n".toList ∧
      ¬ ∃ hunks, List.Forall₂ Shown (changes 1 (lines e.toList) (lines (e ++ "x").toList)) hunks ∧
        (render e (e ++ "x")).toList = "--- expected\n+++ actual\n".toList ++ hunks.flatten) ∧
    "x" ++ f ≠ f ++ "x" ∧ render f ("x" ++ f) = render f (f ++ "x") := by
  intro e f
  have longer {s t : String} (more : s.toList.length < t.toList.length) : s ≠ t :=
    fun same => absurd more (by rw [same]; exact Nat.lt_irrefl _)
  have last (n : Nat) : (render (blank n) (blank n ++ "x")).toList =
      "--- expected\n+++ actual\n".toList ++ Change.text ⟨1 + n, some [], some ['x']⟩ := by
    rw [toList_render (longer (by simp)), changes_last, List.flatMap_singleton]
  have first {n : Nat} (more : 0 < n) : (render (blank n) ("x" ++ blank n)).toList =
      "--- expected\n+++ actual\n".toList ++ Change.text ⟨1, some [], some ['x']⟩ := by
    rw [toList_render (longer (by simp)), changes_first more, List.flatMap_singleton]
  have apart {n : Nat} (more : 0 < n) : "x" ++ blank n ≠ blank n ++ "x" := by
    obtain ⟨n, rfl⟩ := Nat.exists_eq_succ_of_ne_zero more.ne'
    intro same
    simpa [blank, List.replicate_succ] using congrArg (fun s => s.toList.head?) same
  refine ⟨⟨(last _).trans (by decide +kernel), ?_⟩, apart (by decide), ?_⟩
  · rintro ⟨hunks, shown, same⟩
    rw [changes_last] at shown
    cases shown with
    | cons one none =>
      cases none
      have text := List.append_cancel_left ((last _).symm.trans same)
      rw [List.flatten_singleton] at text
      exact not_shown (by decide +kernel) (text ▸ one)
  · have numbers : Int32.ofNat (1 + 4294967296) = Int32.ofNat 1 := by decide +kernel
    refine String.toList_injective ((first (by decide)).trans (Eq.trans ?_ (last _).symm))
    rw [Change.text, Change.text, numbers]

end Printf
