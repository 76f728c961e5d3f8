import Printf.Proofs.JsonRecords
import Printf.Proofs.JsonSpelling
import Printf.Report

/-! Documents that are written and read. The indented text of a value is one of its texts, so that a
reader recovers from a document what it recovers from every tree of the value. Records are recovered
field by field. -/
namespace Printf.Json

theorem blanks_newline (level : Nat) : Blanks (Value.newline level) := by
  intro c member
  rcases List.mem_cons.mp member with rfl | blank
  · rfl
  · rw [List.eq_of_mem_replicate blank]
    rfl

theorem blanks_space : Blanks [' '] := List.forall_mem_singleton.mpr rfl

theorem spells_prettyItems {level : Nat} {vs : List Value}
    (all : ∀ v ∈ vs, Spells v (v.prettyChars level)) :
    SpellsItems vs (Value.prettyItems level vs) := by
  induction vs with
  | nil => exact .none blanks_nil
  | cons v vs ih =>
    obtain ⟨first, later⟩ := List.forall_mem_cons.mp all
    cases vs with
    | nil =>
      simpa [Value.prettyItems] using
        SpellsItems.last (blanks_newline level) first (blanks_newline (level - 1))
    | cons w vs =>
      simpa [Value.prettyItems] using
        SpellsItems.more (blanks_newline level) first blanks_nil (ih later)

theorem spells_prettyFields {level : Nat} {fields : List (String × Value)}
    (all : ∀ f ∈ fields, Spells f.2 (f.2.prettyChars level)) :
    SpellsFields fields (Value.prettyFields level fields) := by
  induction fields with
  | nil => exact .none blanks_nil
  | cons f fields ih =>
    obtain ⟨first, later⟩ := List.forall_mem_cons.mp all
    obtain ⟨k, v⟩ := f
    cases fields with
    | nil =>
      simpa [Value.prettyFields] using
        SpellsFields.last (blanks_newline level) blanks_space first (blanks_newline (level - 1))
    | cons g fields =>
      simpa [Value.prettyFields] using
        SpellsFields.more (blanks_newline level) blanks_space first blanks_nil (ih later)

/-- The indented text of a value is one of its texts, too. -/
theorem Value.Numbers.spells_pretty {v : Value} (numbers : v.Numbers Number.ReadsBack) (level : Nat) :
    Spells v (v.prettyChars level) := by
  induction numbers generalizing level with
  | null => exact .null
  | bool b => cases b; exacts [.no, .yes]
  | number read => exact .number read
  | string s => exact .string s
  | @array items _ ih =>
    cases items with
    | nil => exact .array (.none blanks_nil)
    | cons v vs => exact .array (spells_prettyItems fun w member => ih w member (level + 1))
  | @object fields _ ih =>
    cases fields with
    | nil => exact .object (.none blanks_nil)
    | cons f fields => exact .object (spells_prettyFields fun g member => ih g member (level + 1))

variable {α : Type} {read : Reader α}

/-- A value stands for something to a reader: wherever it was read, the reader gives that, and its
numbers are read back. -/
structure Recovers (read : Reader α) (v : Value) (a : α) : Prop where
  numbers : v.Numbers Number.ReadsBack
  given : ∀ ⦃t : Tree⦄, t.Holds v → read t = .ok a

/-- What a value stands for is read from its document. -/
theorem Recovers.document {v : Value} {a : α} (recovers : Recovers read v a) :
    Reader.document read v.pretty = .ok a := by
  have spells : Spells v v.pretty.toList := by
    simpa [Value.pretty] using recovers.numbers.spells_pretty 0
  obtain ⟨t, tree, holds⟩ := Tree.ofText_spelled spells
  simp only [Reader.document, tree, recovers.given holds]
  rfl

namespace Recovers

theorem string (s : String) : Recovers .string (.string s) s where
  numbers := .string s
  given := by
    intro t holds
    cases holds
    rfl

theorem bool (b : Bool) : Recovers .bool (.bool b) b where
  numbers := .bool b
  given := by
    intro t holds
    cases holds
    rfl

theorem integer (low high : Int) {v : Int} (wanted : String) (above : low ≤ v) (below : v ≤ high)
    (word : (Number.int v).IsWord) : Recovers (.integer low high wanted) (.int v) v where
  numbers := .number word.readsBack
  given := by
    intro t holds
    cases holds
    exact if_pos ⟨above, below⟩

theorem map {β : Type} {v : Value} {a : α} (recovers : Recovers read v a) (f : α → β) :
    Recovers (fun t => (read t).map f) v (f a) where
  numbers := recovers.numbers
  given := by
    intro t holds
    rw [recovers.given holds]
    rfl

theorem int64 (v : Int64) : Recovers .int64 (.int v.toInt) v := by
  have least : Int64.minValue.toInt = -2 ^ 63 := by decide
  have greatest : Int64.maxValue.toInt = 2 ^ 63 - 1 := by decide
  have above := v.le_toInt
  have below := v.toInt_lt
  have word : (Number.int v.toInt).IsWord := ⟨by omega, by simp only [UInt64.size]; omega⟩
  have read := (integer Int64.minValue.toInt Int64.maxValue.toInt "i64" (by omega) (by omega)
    word).map Int64.ofInt
  rw [Int64.ofInt_toInt] at read
  exact read

/-- A number within bounds below the size of a machine word. -/
theorem natural (high : Int) (n : Nat) (bound : high < UInt64.size) (small : (n : Int) ≤ high)
    (wanted : String) : Recovers (.integer 0 high wanted) (.nat n) n :=
  integer 0 high wanted (Int.natCast_nonneg n) small
    ⟨(by decide : Int64.minValue.toInt ≤ 0).trans (Int.natCast_nonneg n), by omega⟩

theorem uint64 (wanted : String) (n : UInt64) :
    Recovers (.uint64Named wanted) (.nat n.toNat) n := by
  have small := n.toNat_lt_size
  have read := (natural (UInt64.size - 1) n.toNat (by omega) (by omega) wanted).map
    fun v : Int => v.toNat.toUInt64
  have word : (n.toNat : Int).toNat.toUInt64 = n := UInt64.ofNat_toNat
  rw [word] at read
  exact read

theorem size {n : Nat} (small : n < UInt64.size) : Recovers .size (.nat n) n := by
  have word : n.toUInt64.toNat = n := UInt64.toNat_ofNat_of_lt' small
  have read := (uint64 "usize" n.toUInt64).map UInt64.toNat
  rwa [word] at read

theorem uint8 (c : UInt8) : Recovers .uint8 (.nat c.toNat) c := by
  have small := c.toNat_lt
  have read := (natural 255 c.toNat (by decide) (by omega) "u8").map
    fun v : Int => v.toNat.toUInt8
  have byte : (c.toNat : Int).toNat.toUInt8 = c := UInt8.ofNat_toNat
  rw [byte] at read
  exact read

theorem null : Recovers (.option read) .null none where
  numbers := .null
  given := by
    intro t holds
    cases holds
    rfl

theorem some {v : Value} {a : α} (recovers : Recovers read v a) (other : v ≠ .null) :
    Recovers (.option read) v (some a) where
  numbers := recovers.numbers
  given := by
    intro t holds
    have read := recovers.given holds
    cases holds with
    | null => exact absurd rfl other
    | _ => exact congrArg (Except.map Option.some) read

variable {write : α → Value}

/-- A field that is null if there is no value. -/
theorem nullable {x : Option α} (recovers : ∀ a ∈ x, Recovers read (write a) a ∧ write a ≠ .null) :
    Recovers (.option read) (Json.nullable (x.map write)) x := by
  cases x with
  | none => exact null
  | some a =>
    obtain ⟨recovers, other⟩ := recovers a rfl
    exact recovers.some other

theorem items {as : List α} (recovers : ∀ a ∈ as, Recovers read (write a) a) {trees : List Tree}
    (holds : Tree.HoldItems trees (as.map write)) : trees.mapM read = .ok as := by
  induction as generalizing trees with
  | nil => cases holds; rfl
  | cons a as ih =>
    cases holds with
    | cons item items =>
      obtain ⟨first, later⟩ := List.forall_mem_cons.mp recovers
      rw [List.mapM_cons, first.given item, ih later items]
      rfl

theorem list {as : List α} (recovers : ∀ a ∈ as, Recovers read (write a) a) :
    Recovers (.list read) (.array (as.map write)) as where
  numbers := .array (List.forall_mem_map.mpr fun a member => (recovers a member).numbers)
  given := by
    intro t holds
    cases holds with
    | array start rest trees =>
      simp only [Reader.list, items recovers trees]
      rfl

theorem strings (texts : List String) : Recovers (.list .string) (Json.strings texts) texts :=
  list fun s _ => string s

/-- A choice with content, as the only entry of an object. -/
theorem choice {names : List String} {content : String → Reader.Content → Result α} {name : String}
    {v : Value} {a : α} (known : name ∈ names) (numbers : v.Numbers Number.ReadsBack)
    (given : ∀ t : Tree, t.Holds v → content name (.given t) = .ok a) :
    Recovers (.choice names content) (.object [(name, v)]) a where
  numbers := .object (List.forall_mem_singleton.mpr numbers)
  given := by
    intro t holds
    cases holds with
    | object start rest entries =>
      cases entries with
      | cons k left field more =>
        cases more
        have named (left : List Char) : Reader.known names name left = .ok name := if_pos known
        show (Reader.known names name left >>= fun name => _) = _
        rw [named]
        show (content name (.given _) >>= fun a => _) = _
        rw [given _ field]
        rfl

end Recovers

/-- What a field of a record gives, from the value that is written for it if there is one. -/
def FieldGives (unnamed : Option α) (read : Reader α) (a : α) : Option Value → Prop
  | none => unnamed = some a
  | some v => Recovers read v a

theorem FieldGives.numbers {unnamed : Option α} {a : α} {value : Option Value}
    (gives : FieldGives unnamed read a value) : ∀ v ∈ value, v.Numbers Number.ReadsBack := by
  rintro v ⟨⟩
  exact Recovers.numbers gives

/-- A text as a field of a record. -/
theorem FieldGives.text (unnamed : Option String) (s : String) :
    FieldGives unnamed .string s (some (.string s)) := Recovers.string s

/-- A size as a field of a record. -/
theorem FieldGives.size {n : Nat} (small : n < UInt64.size) :
    FieldGives none .size n (some (.nat n)) := Recovers.size small

/-- A field that is left out where there is no value. -/
theorem FieldGives.optional {write : α → Value} {x : Option α}
    (recovers : ∀ a ∈ x, Recovers read (write a) a ∧ write a ≠ .null) :
    FieldGives (some none) (.option read) x (x.map write) := by
  cases x with
  | none => rfl
  | some a => exact Recovers.nullable recovers

theorem Record.fieldOr_written {columns : List (String × Option Value)}
    (nodup : (columns.map Prod.fst).Nodup) {entries : List (Tree × Tree)}
    (holds : Tree.HoldFields entries (written columns)) {name : String} {value : Option Value}
    (column : columns.lookup name = some value) {unnamed : Option α} {a : α}
    (gives : FieldGives unnamed read a value) (short : Option α) (s : Schema) (rest : Rest) :
    fieldOr unnamed short name read (.named s entries rest) = pure a := by
  have entry := find_isNamed holds name
  rw [lookup_written nodup, column] at entry
  cases value with
  | none =>
    obtain rfl : unnamed = some a := gives
    simp only [fieldOr, show entries.findIdx? (isNamed name) = none from entry]
  | some v =>
    obtain ⟨i, k, t, index, found, held⟩ := entry
    simp only [fieldOr, index, found, Recovers.given gives held]
    rfl

def Record.Gives (r : Record) (columns : List (String × Option Value)) : Prop :=
  ∀ {β : Type} {read : Reader β} {b : β} {unnamed : Option β} (name : String) {value : Option Value},
    columns.lookup name = some value → FieldGives unnamed read b value → ∀ short,
    r.fieldOr unnamed short name read = pure b

/-- A record is recovered from the object of its columns. -/
theorem Recovers.record (columns : List (String × Option Value)) (s : Schema)
    (keys : columns.map Prod.fst = s.fields) (distinct : s.fields.Nodup)
    (numbers : ∀ column ∈ columns, ∀ v ∈ column.2, v.Numbers Number.ReadsBack)
    {fields : Record → Timed α} {a : α} (given : ∀ r : Record, r.Gives columns → fields r = pure a) :
    Recovers (.record s fields) (.object (written columns)) a where
  numbers := .object (forall_written numbers)
  given := by
    intro t holds
    have nodup : (columns.map Prod.fst).Nodup := keys ▸ distinct
    cases holds with
    | object start rest entries =>
      have gives : (Record.named s _ (.ok rest)).Gives columns := fun name _ column gives short =>
        Record.fieldOr_written nodup entries column gives short s (.ok rest)
      simp only [Reader.record, Reader.record.settle, given _ gives,
        Record.check_holds s entries (nodup_written nodup)]
      rfl

end Printf.Json
