import Mathlib.Logic.Basic
import Printf.Fixture
import Printf.Proofs.JsonValues

/-! Readers on trees without flaws. What a reader gives there depends on the value alone, so that a
record is read field by field from an object of values, in whatever order they stand. -/
namespace Printf.Json

variable {α : Type}

theorem toOption_bind {ε β : Type} (a : Except ε α) (f : α → Except ε β) :
    (a >>= f).toOption = a.toOption.bind fun a => (f a).toOption := by
  cases a <;> rfl

namespace Reader

/-- A reader gives on each tree that holds a value what a function gives on the value. -/
def Reads (P : Value → Prop) (read : Reader α) (f : Value → Option α) : Prop :=
  ∀ ⦃t : Tree⦄ ⦃v : Value⦄, t.Holds v → P v → (read t).toOption = f v

variable {P : Value → Prop}

theorem reads_string : Reads P Reader.string Value.string? := by
  intro t v holds _
  cases holds <;> rfl

def integer? (low high : Int) : Value → Option Int
  | .number (.int n) => if low ≤ n ∧ n ≤ high then some n else none
  | _ => none

theorem reads_integer (low high : Int) (wanted : String) :
    Reads P (integer low high wanted) (integer? low high) := by
  intro t v holds _
  cases holds with
  | number n rest =>
    cases n with
    | int n => by_cases inside : low ≤ n ∧ n ≤ high <;> simp [integer, integer?, inside] <;> rfl
    | float x => rfl
  | _ => rfl

theorem Reads.map {β : Type} {read : Reader α} {f : Value → Option α} (reads : Reads P read f)
    (g : α → β) : Reads P (fun t => (read t).map g) fun v => (f v).map g := by
  intro t v holds admitted
  dsimp only
  rw [← reads holds admitted]
  cases read t <;> rfl

def natural? (v : Value) : Option Nat := (integer? 0 (UInt64.size - 1) v).map Int.toNat

theorem natural?_iff {v : Value} {n : Nat} :
    natural? v = some n ↔ v = .nat n ∧ n < UInt64.size := by
  constructor
  · intro read
    obtain ⟨k, inside, rfl⟩ := Option.map_eq_some_iff.mp read
    match v, inside with
    | .number (.int m), inside =>
      obtain ⟨⟨low, high⟩, same⟩ := Option.ite_none_right_eq_some.mp inside
      cases same
      refine ⟨?_, by omega⟩
      rw [Value.nat, Value.int, Int.toNat_of_nonneg low]
  · rintro ⟨rfl, small⟩
    have inside : (0 : Int) ≤ n ∧ (n : Int) ≤ UInt64.size - 1 := by omega
    rw [natural?, Value.nat, Value.int, integer?, if_pos inside]
    rfl

theorem reads_natural (wanted : String) :
    Reads P (fun t => (Reader.uint64Named wanted t).map UInt64.toNat) natural? := by
  intro t v holds admitted
  have word : ∀ k ∈ integer? 0 (UInt64.size - 1) v, k.toNat.toUInt64.toNat = k.toNat := by
    intro k member
    have small := (natural?_iff.mp (Option.map_eq_some_iff.mpr ⟨k, member, rfl⟩)).2
    exact Nat.mod_eq_of_lt small
  simp only [natural?, ← reads_integer 0 (UInt64.size - 1) wanted holds admitted,
    Reader.uint64Named] at word ⊢
  cases read : Reader.integer 0 (UInt64.size - 1) wanted t with
  | error fault => rfl
  | ok k =>
    rw [read] at word
    exact congrArg some (word k rfl)

def option? (f : Value → Option α) : Value → Option (Option α)
  | .null => some none
  | v => (f v).map some

theorem Reads.option {read : Reader α} {f : Value → Option α} (reads : Reads P read f) :
    Reads P (Reader.option read) (option? f) := by
  intro t v holds admitted
  have given : ((read t).map some).toOption = (f v).map some := reads.map some holds admitted
  cases holds <;> first | rfl | exact given

def list? (f : Value → Option α) : Value → Option (List α)
  | .array vs => vs.mapM f
  | _ => none

theorem Reads.items {read : Reader α} {f : Value → Option α} (reads : Reads P read f)
    {items : List Tree} {vs : List Value} (holds : Tree.HoldItems items vs)
    (all : ∀ v ∈ vs, P v) : (items.mapM read).toOption = vs.mapM f := by
  induction vs generalizing items with
  | nil => cases holds; rfl
  | cons v vs ih =>
    cases holds with
    | cons item items =>
      rw [List.forall_mem_cons] at all
      simp only [List.mapM_cons, toOption_bind, reads item all.1, ih items all.2]
      rfl

theorem Reads.list {read : Reader α} {f : Value → Option α} {Q : Value → Prop}
    (reads : Reads Q read f) (inner : ∀ vs, P (.array vs) → ∀ v ∈ vs, Q v) :
    Reads P (Reader.list read) (list? f) := by
  intro t v holds admitted
  cases holds with
  | @array _ vs start rest items =>
    have all := reads.items items (inner _ admitted)
    simp only [Reader.list, list?, toOption_bind, all]
    cases vs.mapM f <;> rfl
  | _ => rfl

theorem list?_strings (texts : List String) :
    list? Value.string? (Json.strings texts) = some texts := by
  rw [Json.strings, list?]
  induction texts with
  | nil => rfl
  | cons s texts ih => rw [List.map_cons, List.mapM_cons, ih]; rfl

end Reader

namespace Timed

def toOption (a : Timed α) : Option α := Except.toOption a

theorem toOption_map {β : Type} (f : α → β) (a : Timed α) :
    (f <$> a).toOption = f <$> a.toOption := by
  cases a <;> rfl

theorem toOption_seq {β : Type} (f : Timed (α → β)) (a : Timed α) :
    (f <*> a).toOption = f.toOption <*> a.toOption := by
  cases f <;> cases a <;> rfl

theorem exists_seq {β : Type} (f : Timed (α → β)) (a : Timed α) (Q : β → Prop) :
    (∃ b, (f <*> a).toOption = some b ∧ Q b) ↔
      ∃ g, f.toOption = some g ∧ ∃ x, a.toOption = some x ∧ Q (g x) := by
  rw [toOption_seq]
  cases f.toOption <;> cases a.toOption <;> simp [Seq.seq]

theorem exists_map {β : Type} (f : α → β) (a : Timed α) (Q : β → Prop) :
    (∃ b, (f <$> a).toOption = some b ∧ Q b) ↔ ∃ x, a.toOption = some x ∧ Q (f x) := by
  rw [toOption_map]
  cases a.toOption <;> simp

end Timed

namespace Record

variable {P : Value → Prop} {entries : List (Tree × Tree)} {fields : List (String × Value)}

theorem isNamed_string (name k : String) (rest : Rest) (t : Tree) :
    isNamed name (.string ⟨.ok k, rest⟩, t) = (k == name) := rfl

/-- The first entry of a name holds what the name is looked up as. -/
theorem find_isNamed (holds : Tree.HoldFields entries fields) (name : String) :
    match fields.lookup name with
    | none => entries.findIdx? (isNamed name) = none
    | some v => ∃ i k t, entries.findIdx? (isNamed name) = some i ∧
        entries.find? (isNamed name) = some (k, t) ∧ t.Holds v := by
  induction fields generalizing entries with
  | nil => cases holds; rfl
  | cons f fields ih =>
    cases holds with
    | cons k rest field more =>
      have later := ih more
      rw [Value.lookup_field]
      by_cases same : name = k
      · subst same
        rw [if_pos rfl]
        exact ⟨0, .string ⟨.ok name, .ok rest⟩, _, by simp [List.findIdx?_cons, isNamed_string],
          by simp [isNamed_string], field⟩
      · have other : (k == name) = false := beq_false_of_ne (Ne.symm same)
        rw [if_neg same]
        simp only [List.findIdx?_cons, List.find?_cons, isNamed_string, other]
        split at later
        · simpa using later
        · obtain ⟨i, key, t, index, found, held⟩ := later
          exact ⟨i + 1, key, t, by simp [index], found, held⟩

theorem lookup_mem {name : String} {v : Value} (found : fields.lookup name = some v) :
    (name, v) ∈ fields := by
  obtain ⟨front, behind, rfl, _⟩ := List.lookup_eq_some_iff.mp found
  simp

/-- A field is read from the value that has its name, wherever that stands. -/
theorem toOption_fieldOr (holds : Tree.HoldFields entries fields) (all : ∀ f ∈ fields, P f.2)
    {read : Reader α} {f : Value → Option α} (reads : Reader.Reads P read f)
    (unnamed short : Option α) (name : String) (s : Schema) (rest : Rest) :
    (fieldOr unnamed short name read (.named s entries rest)).toOption =
      match fields.lookup name with
      | none => unnamed
      | some v => f v := by
  have entry := find_isNamed holds name
  cases found : fields.lookup name with
  | none =>
    rw [found] at entry
    simp only [fieldOr, entry]
    cases unnamed <;> rfl
  | some v =>
    rw [found] at entry
    obtain ⟨i, k, t, index, first, held⟩ := entry
    simp only [fieldOr, index, first]
    rw [← reads held (all _ (lookup_mem found))]
    cases read t <;> rfl

def required? (fields : List (String × Value)) (name : String) (f : Value → Option α) : Option α :=
  (fields.lookup name).bind f

def optional? (fields : List (String × Value)) (name : String) (f : Value → Option α) :
    Option (Option α) :=
  match fields.lookup name with
  | none => some none
  | some v => Reader.option? f v

theorem optional?_some_iff {name : String} {f : Value → Option α} {a : α} :
    optional? fields name f = some (some a) ↔
      ∃ v, fields.lookup name = some v ∧ v ≠ .null ∧ f v = some a := by
  rw [optional?]
  cases fields.lookup name with
  | none => simp
  | some v => cases v <;> simp [Reader.option?]

theorem optional?_none_iff {name : String} {f : Value → Option α} :
    optional? fields name f = some none ↔
      fields.lookup name = none ∨ fields.lookup name = some .null := by
  rw [optional?]
  cases fields.lookup name with
  | none => simp
  | some v => cases v <;> simp [Reader.option?]

theorem toOption_field (holds : Tree.HoldFields entries fields) (all : ∀ f ∈ fields, P f.2)
    {read : Reader α} {f : Value → Option α} (reads : Reader.Reads P read f) (name : String)
    (s : Schema) (rest : Rest) :
    (field name read (.named s entries rest)).toOption = required? fields name f := by
  rw [field, toOption_fieldOr holds all reads, required?]
  cases fields.lookup name <;> rfl

theorem toOption_optional (holds : Tree.HoldFields entries fields) (all : ∀ f ∈ fields, P f.2)
    {read : Reader α} {f : Value → Option α} (reads : Reader.Reads P read f) (name : String)
    (s : Schema) (rest : Rest) :
    (optional name read (.named s entries rest)).toOption = optional? fields name f :=
  toOption_fieldOr holds all reads.option (some none) none name s rest

theorem any_isNamed (holds : Tree.HoldFields entries fields) (name : String) :
    entries.any (isNamed name) = fields.any fun f => f.1 == name := by
  induction fields generalizing entries with
  | nil => cases holds; rfl
  | cons f fields ih =>
    cases holds with
    | cons k rest field more => rw [List.any_cons, List.any_cons, ih more, isNamed_string]

theorem holdFields_concat {k : String} {t : Tree} {v : Value} (holds : Tree.HoldFields entries fields)
    (rest : List Char) (field : t.Holds v) :
    Tree.HoldFields (entries ++ [(.string ⟨.ok k, .ok rest⟩, t)]) (fields ++ [(k, v)]) := by
  induction fields generalizing entries with
  | nil => cases holds; exact .cons k rest field .nil
  | cons f fields ih =>
    cases holds with
    | cons k rest first more => exact .cons k rest first (ih more)

theorem checkEntries_holds (s : Schema) {before : List (Tree × Tree)}
    {front : List (String × Value)} (checked : Tree.HoldFields before front)
    (holds : Tree.HoldFields entries fields)
    (nodup : ((front ++ fields).map Prod.fst).Nodup) :
    checkEntries s before entries = pure () := by
  induction fields generalizing entries before front with
  | nil => cases holds; rfl
  | cons f fields ih =>
    cases holds with
    | @cons t v entries _ k rest field more =>
      have fresh : before.any (isNamed k) = false := by
        rw [any_isNamed checked]
        refine List.any_eq_false.mpr fun g member same => ?_
        rw [List.map_append, List.nodup_append] at nodup
        exact nodup.2.2 g.1 (List.mem_map_of_mem member) k (by simp) (beq_iff_eq.mp same)
      have sound : checkEntry s before (.string ⟨.ok k, .ok rest⟩, t) = .ok () := by
        by_cases known : k ∈ s.fields
        · show (if k ∈ s.fields then if before.any (isNamed k) then _ else pure ()
            else _ : Result Unit) = .ok ()
          rw [if_pos known, fresh]
          rfl
        · show (if k ∈ s.fields then _ else Json.sound t.skip : Result Unit) = .ok ()
          rw [if_neg known, field.skip]
          rfl
      rw [checkEntries, sound]
      refine ih (holdFields_concat checked rest field) more ?_
      rwa [List.append_assoc]

/-- The entries of an object without doubled keys have no faults. -/
theorem check_holds (s : Schema) (holds : Tree.HoldFields entries fields)
    (nodup : (fields.map Prod.fst).Nodup) (rest : List Char) :
    check (.named s entries (.ok rest)) = pure () := by
  rw [check, checkEntries_holds s .nil holds (by simpa using nodup)]
  rfl

end Record

/-- A record is read from an object without doubled keys as its fields are. -/
theorem Reader.toOption_record {entries : List (Tree × Tree)} {fields : List (String × Value)}
    (holds : Tree.HoldFields entries fields) (nodup : (fields.map Prod.fst).Nodup) (s : Schema)
    (read : Record → Timed α) (start rest : List Char) :
    (Reader.record s read (.object start entries (.ok rest))).toOption =
      (read (.named s entries (.ok rest))).toOption := by
  simp only [Reader.record, Reader.record.settle, Record.check_holds s holds nodup]
  cases read (.named s entries (.ok rest)) <;> rfl

/-- The fields of a document, each of them if it has a value. -/
def written (columns : List (String × Option Value)) : List (String × Value) :=
  columns.flatMap fun (name, v) => optionalField name v

theorem written_cons (name : String) (v : Option Value) (columns : List (String × Option Value)) :
    written ((name, v) :: columns) = optionalField name v ++ written columns := rfl

theorem lookup_written {columns : List (String × Option Value)}
    (nodup : (columns.map Prod.fst).Nodup) (k : String) :
    (written columns).lookup k = (columns.lookup k).join := by
  induction columns with
  | nil => rfl
  | cons column columns ih =>
    obtain ⟨name, v⟩ := column
    obtain ⟨fresh, nodup⟩ := List.nodup_cons.mp nodup
    rw [written_cons, List.lookup_append, ih nodup, List.lookup_cons]
    by_cases same : k = name
    · subst same
      cases v <;> simp [optionalField, Value.lookup_fresh fresh]
    · have other : (k == name) = false := beq_false_of_ne same
      cases v <;> simp [optionalField, List.lookup_cons, other]

theorem nodup_written {columns : List (String × Option Value)}
    (nodup : (columns.map Prod.fst).Nodup) : ((written columns).map Prod.fst).Nodup := by
  refine nodup.sublist ?_
  clear nodup
  induction columns with
  | nil => exact .slnil
  | cons column columns ih =>
    obtain ⟨name, v⟩ := column
    cases v with
    | none => exact ih.cons name
    | some v => exact ih.cons_cons name

theorem forall_written {columns : List (String × Option Value)} {P : Value → Prop}
    (all : ∀ column ∈ columns, ∀ v ∈ column.2, P v) : ∀ f ∈ written columns, P f.2 := by
  intro f member
  obtain ⟨⟨name, v⟩, column, among⟩ := List.mem_flatMap.mp member
  obtain ⟨w, given, rfl⟩ := List.mem_map.mp among
  exact all _ column w (Option.mem_toList.mp given)

end Printf.Json
