import Printf.Proofs.JsonScalars
import Printf.Proofs.JsonValues

/-! What a reader gets from a text: values nested no deeper than it allows, with the keys of objects
in order and with numbers that are read from literals. -/
namespace Printf.Json

/-- A number that some literal stands for. -/
def Number.IsRead (n : Number) : Prop := ∃ l : Literal, l.number? = some n

theorem readNumber_isRead {cs : List Char} {n : Number} (read : (readNumber cs).content = .ok n) :
    n.IsRead := by
  rw [readNumber] at read
  split at read
  · cases read
  · next l _ _ =>
    dsimp only at read
    split at read
    · next number => cases read; exact ⟨l, number⟩
    · cases read

theorem appendFitting_lt {s : Nat} (fits : s < UInt64.size) (ds : List Nat) :
    (appendFitting s ds).1 < UInt64.size := by
  induction ds generalizing s with
  | nil => exact fits
  | cons d ds ih =>
    rw [appendFitting]
    split
    · next more => exact ih more
    · exact fits

/-- An integer that is read is one of a machine word, with or without a sign. -/
theorem Number.IsRead.isWord {v : Int} (read : (Number.int v).IsRead) : (Number.int v).IsWord := by
  obtain ⟨l, number⟩ := read
  have small := appendFitting_lt (s := 0) (by decide) l.whole
  simp only [Literal.number?] at number
  split at number
  · next w integral =>
    cases number
    split at integral
    · rw [Literal.integer?] at integral
      split at integral
      · split at integral
        · next bounds =>
          cases integral
          refine ⟨bounds.2, ?_⟩
          simp only [UInt64.size]
          omega
        · cases integral
      · cases integral
        refine ⟨?_, by exact_mod_cast small⟩
        have lowest : Int64.minValue.toInt = -9223372036854775808 := by decide
        simp only [lowest]
        omega
    · cases integral
  · next integral =>
    obtain ⟨x, _, float⟩ := Option.map_eq_some_iff.mp number
    cases float

namespace Tree

theorem fits_word {w : Scan (Option Bool)} {kind : Number → Prop} {depth : Nat} {v : Value}
    (read : (Tree.word w).value depth = .ok v) : v.Fits kind depth := by
  obtain ⟨content, rest⟩ := w
  match content, read with
  | .ok none, rfl => exact .null
  | .ok (some b), rfl => exact .bool b

theorem fits_string {s : Scan String} {kind : Number → Prop} {depth : Nat} {v : Value}
    (read : (Tree.string s).value depth = .ok v) : v.Fits kind depth := by
  obtain ⟨content, rest⟩ := s
  match content, read with
  | .ok s, rfl => exact .string s

theorem fits_number {cs : List Char} {depth : Nat} {v : Value}
    (read : (Tree.number (readNumber cs)).value depth = .ok v) : v.Fits Number.IsRead depth := by
  rw [Tree.value] at read
  cases content : (readNumber cs).content with
  | error flaw => rw [content] at read; cases read
  | ok n =>
    rw [content] at read
    cases read
    exact .number (readNumber_isRead content)

/-- What a container gives: its content one level deeper, if there is a level left. -/
theorem value_array {start : List Char} {items : List Tree} {rest : Rest} {depth : Nat} {v : Value}
    (read : (Tree.array start items rest).value depth = .ok v) :
    ∃ inner vs, depth = inner + 1 ∧ valueItems inner items = .ok vs ∧ v = .array vs := by
  cases depth with
  | zero => simp [Tree.value, bind, Except.bind, throw, throwThe, MonadExceptOf.throw] at read
  | succ inner =>
    rw [Tree.value] at read
    simp only [Nat.succ_ne_zero, if_false, Nat.add_sub_cancel, bind_ok] at read
    obtain ⟨vs, items, _, _, last⟩ := read
    cases last
    exact ⟨inner, vs, rfl, items, rfl⟩

theorem value_object {start : List Char} {entries : List (Tree × Tree)} {rest : Rest} {depth : Nat}
    {v : Value} (read : (Tree.object start entries rest).value depth = .ok v) :
    ∃ inner fields, depth = inner + 1 ∧ valueEntries inner entries = .ok fields ∧
      v = .ofFields fields := by
  cases depth with
  | zero => simp [Tree.value, bind, Except.bind, throw, throwThe, MonadExceptOf.throw] at read
  | succ inner =>
    rw [Tree.value] at read
    simp only [Nat.succ_ne_zero, if_false, Nat.add_sub_cancel, bind_ok] at read
    obtain ⟨fields, entries, _, _, last⟩ := read
    cases last
    exact ⟨inner, fields, rfl, entries, rfl⟩

variable {kind : Number → Prop} {depth : Nat}

theorem fits_noItems {vs : List Value} (read : valueItems depth [] = .ok vs) :
    ∀ v ∈ vs, v.Fits kind depth := by
  cases read
  exact fun _ member => absurd member List.not_mem_nil

theorem fits_items {t : Tree} {ts : List Tree} {vs : List Value}
    (first : ∀ v, t.value depth = .ok v → v.Fits kind depth)
    (later : ∀ vs, valueItems depth ts = .ok vs → ∀ v ∈ vs, v.Fits kind depth)
    (read : valueItems depth (t :: ts) = .ok vs) : ∀ v ∈ vs, v.Fits kind depth := by
  simp only [valueItems, bind_ok] at read
  obtain ⟨v, item, more, items, last⟩ := read
  cases last
  exact List.forall_mem_cons.mpr ⟨first v item, later more items⟩

theorem fits_noFields {fields : List (String × Value)} (read : valueEntries depth [] = .ok fields) :
    ∀ f ∈ fields, f.2.Fits kind depth := by
  cases read
  exact fun _ member => absurd member List.not_mem_nil

theorem fits_fields {k t : Tree} {entries : List (Tree × Tree)} {fields : List (String × Value)}
    (first : ∀ v, t.value depth = .ok v → v.Fits kind depth)
    (later : ∀ fields, valueEntries depth entries = .ok fields →
      ∀ f ∈ fields, f.2.Fits kind depth)
    (read : valueEntries depth ((k, t) :: entries) = .ok fields) :
    ∀ f ∈ fields, f.2.Fits kind depth := by
  simp only [valueEntries, bind_ok] at read
  obtain ⟨key, _, v, field, more, others, last⟩ := read
  cases last
  exact List.forall_mem_cons.mpr ⟨first v field, later more others⟩

end Tree

mutual

theorem readValue_fits {fuel depth : Nat} {cs : List Char} {v : Value}
    (read : (readValue fuel cs).value depth = .ok v) : v.Fits Number.IsRead depth := by
  cases fuel with
  | zero => cases read
  | succ fuel =>
    rw [readValue] at read
    split at read
    · exact Tree.fits_word read
    · exact Tree.fits_word read
    · exact Tree.fits_word read
    · exact Tree.fits_string read
    · obtain ⟨inner, vs, rfl, items, rfl⟩ := Tree.value_array read
      refine .array ?_
      split at items
      · exact Tree.fits_noItems items
      · exact readItems_fits items
    · obtain ⟨inner, fields, rfl, entries, rfl⟩ := Tree.value_object read
      rw [Value.ofFields_arrange]
      refine .object (Value.ordered_arrange fields) (Value.forall_arrange ?_)
      split at entries
      · exact Tree.fits_noFields entries
      · exact readEntries_fits entries
    · split at read
      · exact Tree.fits_number read
      · cases read
    · cases read

theorem readItems_fits {fuel depth : Nat} {cs : List Char} {vs : List Value}
    (read : Tree.valueItems depth (readItems fuel cs).1 = .ok vs) :
    ∀ v ∈ vs, v.Fits Number.IsRead depth := by
  cases fuel with
  | zero => exact Tree.fits_noItems read
  | succ fuel =>
    have first : ∀ v, (readValue fuel cs).value depth = .ok v → v.Fits Number.IsRead depth :=
      fun _ => readValue_fits
    rw [readItems] at read
    split at read
    · exact Tree.fits_items first (fun _ => Tree.fits_noItems) read
    · split at read
      · exact Tree.fits_items first (fun _ => readItems_fits) read
      · exact Tree.fits_items first (fun _ => Tree.fits_noItems) read
      · exact Tree.fits_items first (fun _ => Tree.fits_noItems) read

theorem readEntries_fits {fuel depth : Nat} {cs : List Char} {fields : List (String × Value)}
    (read : Tree.valueEntries depth (readEntries fuel cs).1 = .ok fields) :
    ∀ f ∈ fields, f.2.Fits Number.IsRead depth := by
  cases fuel with
  | zero => exact Tree.fits_noFields read
  | succ fuel =>
    rw [readEntries] at read
    split at read
    · exact Tree.fits_fields (fun _ absent => by cases absent) (fun _ => Tree.fits_noFields) read
    · split at read
      · dsimp only at read
        split at read
        · exact Tree.fits_fields (fun _ => readValue_fits) (fun _ => Tree.fits_noFields) read
        · split at read
          · exact Tree.fits_fields (fun _ => readValue_fits) (fun _ => readEntries_fits) read
          · exact Tree.fits_fields (fun _ => readValue_fits) (fun _ => Tree.fits_noFields) read
          · exact Tree.fits_fields (fun _ => readValue_fits) (fun _ => Tree.fits_noFields) read
      · exact Tree.fits_fields (fun _ absent => by cases absent) (fun _ => Tree.fits_noFields) read

end

/-- Every document gives a value that its reader could have. -/
theorem ofText?_fits {text : String} {v : Value} (read : Value.ofText? text = some v) :
    v.Fits Number.IsRead Tree.maxDepth := by
  simp only [Value.ofText?, Tree.ofText] at read
  cases value : (readValue (2 * text.toList.length + 2) text.toList).value Tree.maxDepth with
  | error flaw => rw [value] at read; cases read
  | ok w =>
    suffices w = v from this ▸ readValue_fits value
    rw [value] at read
    generalize (readValue (2 * text.toList.length + 2) text.toList).rest = rest at read
    cases rest with
    | error flaw => cases read
    | ok left =>
      by_cases blank : skipBlanks left = []
      · simpa [blank, bind, Except.bind, pure, Except.pure, Except.toOption] using read
      · simp [blank, bind, Except.bind, Except.toOption] at read

namespace Value

mutual

def floats : Value → List Binary64
  | number (.float x) => [x]
  | array items => floatsOfItems items
  | object fields => floatsOfFields fields
  | _ => []

def floatsOfItems : List Value → List Binary64
  | [] => []
  | v :: vs => floats v ++ floatsOfItems vs

def floatsOfFields : List (String × Value) → List Binary64
  | [] => []
  | (_, v) :: fields => floats v ++ floatsOfFields fields

end

theorem floats_item {v : Value} {items : List Value} (member : v ∈ items) :
    v.floats ⊆ floatsOfItems items := by
  induction items with
  | nil => cases member
  | cons w items ih =>
    rcases List.mem_cons.mp member with rfl | later
    · exact List.subset_append_left _ _
    · exact fun x among => List.mem_append_right _ (ih later among)

theorem floats_field {f : String × Value} {fields : List (String × Value)} (member : f ∈ fields) :
    f.2.floats ⊆ floatsOfFields fields := by
  induction fields with
  | nil => cases member
  | cons g fields ih =>
    rcases List.mem_cons.mp member with rfl | later
    · exact List.subset_append_left _ _
    · exact fun x among => List.mem_append_right _ (ih later among)

/-- What was read can be read back if the doubles in it can. -/
theorem Fits.readsBack {depth : Nat} {v : Value} (fits : v.Fits Number.IsRead depth)
    (floats : ∀ x ∈ v.floats, (Number.float x).ReadsBack) : v.Fits Number.ReadsBack depth := by
  induction fits with
  | null => exact .null
  | bool b => exact .bool b
  | @number _ n read =>
    cases n with
    | int k => exact .number read.isWord.readsBack
    | float x => exact .number (floats x List.mem_cons_self)
  | string s => exact .string s
  | array _ ih =>
    refine .array fun w member => ih w member fun x among => floats x ?_
    exact floats_item member among
  | object ordered _ ih =>
    refine .object ordered fun f member => ih f member fun x among => floats x ?_
    exact floats_field member among

end Value
end Printf.Json
