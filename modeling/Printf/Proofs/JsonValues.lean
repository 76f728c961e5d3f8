import Printf.Json.Tree

/-! Objects in key order, and trees that hold a value. Wherever a tree was read, nothing in it is
flawed if it holds a value, and its value is that one. -/
namespace Printf.Json

namespace Value

/-- The fields of an object whose keys are in order, none of them twice. -/
def Ordered (fields : List (String × Value)) : Prop := fields.Pairwise (·.1 < ·.1)

/-- Fields in key order; of equal keys the last one counts. -/
def arrange (fields : List (String × Value)) : List (String × Value) :=
  fields.foldl (fun acc (k, v) => insertField k v acc) []

theorem ofFields_arrange (fields : List (String × Value)) :
    ofFields fields = object (arrange fields) := rfl

theorem lookup_field (k key : String) (v : Value) (fields : List (String × Value)) :
    ((key, v) :: fields).lookup k = if k = key then some v else fields.lookup k := by
  rw [List.lookup_cons]
  by_cases same : k = key
  · simp [same]
  · simp [same, beq_false_of_ne same]

theorem lookup_fresh {β : Type} {k : String} {fields : List (String × β)}
    (fresh : k ∉ fields.map Prod.fst) : fields.lookup k = none :=
  List.lookup_eq_none_iff.mpr fun f member =>
    bne_iff_ne.mpr fun equal => fresh (List.mem_map.mpr ⟨f, member, equal.symm⟩)

theorem lookup_insertField (k key : String) (v : Value) (fields : List (String × Value)) :
    (insertField key v fields).lookup k = if k = key then some v else fields.lookup k := by
  induction fields with
  | nil => exact lookup_field k key v []
  | cons f fields ih =>
    obtain ⟨k', w⟩ := f
    rw [insertField]
    split
    · exact lookup_field k key v _
    split
    · next same =>
      subst same
      simp only [lookup_field]
      split <;> rfl
    · next other =>
      simp only [lookup_field, ih]
      by_cases here : k = k'
      · simp [here, Ne.symm other]
      · simp [here]

theorem mem_insertField {key : String} {v : Value} {fields : List (String × Value)}
    {f : String × Value} (member : f ∈ insertField key v fields) : f = (key, v) ∨ f ∈ fields := by
  induction fields with
  | nil => simpa [insertField] using member
  | cons g fields ih =>
    rw [insertField] at member
    split at member
    · simpa using member
    split at member
    · rcases List.mem_cons.mp member with new | old
      · exact .inl new
      · exact .inr (List.mem_cons_of_mem _ old)
    · rcases List.mem_cons.mp member with first | later
      · exact .inr (first ▸ List.mem_cons_self)
      · exact (ih later).imp_right (List.mem_cons_of_mem _)

theorem ordered_insertField {fields : List (String × Value)} (ordered : Ordered fields)
    (key : String) (v : Value) : Ordered (insertField key v fields) := by
  induction fields with
  | nil => exact List.pairwise_singleton _ _
  | cons f fields ih =>
    obtain ⟨k, w⟩ := f
    obtain ⟨first, later⟩ := List.pairwise_cons.mp ordered
    rw [insertField]
    split
    · next below =>
      refine List.pairwise_cons.mpr ⟨fun g member => ?_, ordered⟩
      rcases List.mem_cons.mp member with rfl | member
      · exact below
      · exact String.lt_trans below (first g member)
    split
    · next same => exact List.pairwise_cons.mpr ⟨same ▸ first, later⟩
    · next notBelow other =>
      refine List.pairwise_cons.mpr ⟨fun g member => ?_, ih later⟩
      rcases mem_insertField member with rfl | member
      · have le : k ≤ key := String.not_lt.mp notBelow
        by_cases below : k < key
        · exact below
        · exact absurd (String.le_antisymm (String.not_lt.mp below) le) other
      · exact first g member

theorem insertField_last {key : String} {v : Value} {fields : List (String × Value)}
    (behind : ∀ f ∈ fields, f.1 < key) : insertField key v fields = fields ++ [(key, v)] := by
  induction fields with
  | nil => rfl
  | cons f fields ih =>
    rw [List.forall_mem_cons] at behind
    rw [insertField, if_neg (String.lt_asymm behind.1), if_neg (String.ne_of_lt behind.1).symm,
      ih behind.2]
    rfl

theorem ordered_arrange (fields : List (String × Value)) : Ordered (arrange fields) :=
  List.foldlRecOn fields _ List.Pairwise.nil
    fun _ ordered f _ => ordered_insertField ordered f.1 f.2

theorem forall_arrange {P : String × Value → Prop} {fields : List (String × Value)}
    (all : ∀ f ∈ fields, P f) : ∀ f ∈ arrange fields, P f :=
  List.foldlRecOn (motive := fun acc => ∀ f ∈ acc, P f) fields _
    (fun _ member => absurd member List.not_mem_nil) fun _ holds f member g inserted => by
      rcases mem_insertField inserted with rfl | old
      · exact all f member
      · exact holds g old

/-- Of fields with different keys each one is found wherever it is put. -/
theorem lookup_arrange {fields : List (String × Value)} (nodup : (fields.map Prod.fst).Nodup)
    (k : String) : (arrange fields).lookup k = fields.lookup k := by
  suffices ∀ acc, (fields.foldl (fun acc (k, v) => insertField k v acc) acc).lookup k =
      (fields.lookup k).or (acc.lookup k) by
    rw [arrange, this, List.lookup_nil, Option.or_none]
  induction fields with
  | nil => exact fun acc => rfl
  | cons f fields ih =>
    obtain ⟨key, v⟩ := f
    obtain ⟨fresh, nodup⟩ := List.nodup_cons.mp nodup
    intro acc
    rw [List.foldl_cons, ih nodup, lookup_insertField, lookup_field]
    by_cases same : k = key
    · subst same
      simp [lookup_fresh fresh]
    · simp [same]

theorem arrange_ordered {fields : List (String × Value)} (ordered : Ordered fields) :
    arrange fields = fields := by
  suffices ∀ front, Ordered (front ++ fields) →
      fields.foldl (fun acc (k, v) => insertField k v acc) front = front ++ fields from
    this [] ordered
  induction fields with
  | nil => exact fun front _ => (List.append_nil front).symm
  | cons f fields ih =>
    obtain ⟨k, v⟩ := f
    intro front ordered'
    have behind : ∀ g ∈ front, g.1 < k := fun g member =>
      (List.pairwise_append.mp ordered').2.2 g member (k, v) List.mem_cons_self
    have next : front ++ (k, v) :: fields = front ++ [(k, v)] ++ fields := by simp
    show fields.foldl _ (insertField k v front) = front ++ (k, v) :: fields
    rw [insertField_last behind, next]
    exact ih (List.pairwise_cons.mp ordered).2 _ (next ▸ ordered')

theorem Ordered.nodup {fields : List (String × Value)} (ordered : Ordered fields) :
    (fields.map Prod.fst).Nodup :=
  List.pairwise_map.mpr (ordered.imp fun below => String.ne_of_lt below)

/-- A value as a reader can have it: nested at most so many levels deep, with the keys of each object
in order and numbers of one kind. -/
inductive Fits (kind : Number → Prop) : Nat → Value → Prop where
  | null {depth : Nat} : Fits kind depth .null
  | bool {depth : Nat} (b : Bool) : Fits kind depth (.bool b)
  | number {depth : Nat} {n : Number} : kind n → Fits kind depth (.number n)
  | string {depth : Nat} (s : String) : Fits kind depth (.string s)
  | array {depth : Nat} {items : List Value} :
      (∀ v ∈ items, Fits kind depth v) → Fits kind (depth + 1) (.array items)
  | object {depth : Nat} {fields : List (String × Value)} :
      Ordered fields → (∀ f ∈ fields, Fits kind depth f.2) →
      Fits kind (depth + 1) (.object fields)

inductive Numbers (kind : Number → Prop) : Value → Prop where
  | null : Numbers kind .null
  | bool (b : Bool) : Numbers kind (.bool b)
  | number {n : Number} : kind n → Numbers kind (.number n)
  | string (s : String) : Numbers kind (.string s)
  | array {items : List Value} : (∀ v ∈ items, Numbers kind v) → Numbers kind (.array items)
  | object {fields : List (String × Value)} :
      (∀ f ∈ fields, Numbers kind f.2) → Numbers kind (.object fields)

theorem Fits.numbers {kind : Number → Prop} {depth : Nat} {v : Value} (fits : v.Fits kind depth) :
    v.Numbers kind := by
  induction fits with
  | null => exact .null
  | bool b => exact .bool b
  | number holds => exact .number holds
  | string s => exact .string s
  | array _ ih => exact .array ih
  | object _ _ ih => exact .object ih

theorem Fits.mono {kind kind' : Number → Prop} (le : ∀ n, kind n → kind' n) {depth : Nat}
    {v : Value} (fits : v.Fits kind depth) : v.Fits kind' depth := by
  induction fits with
  | null => exact .null
  | bool b => exact .bool b
  | number holds => exact .number (le _ holds)
  | string s => exact .string s
  | array _ ih => exact .array ih
  | object ordered _ ih => exact .object ordered ih

theorem Fits.deeper {kind : Number → Prop} {depth more : Nat} {v : Value}
    (fits : v.Fits kind depth) (le : depth ≤ more) : v.Fits kind more := by
  induction fits generalizing more with
  | null => exact .null
  | bool b => exact .bool b
  | number holds => exact .number holds
  | string s => exact .string s
  | array _ ih =>
    obtain ⟨inner, rfl⟩ := Nat.exists_eq_add_one.mpr (Nat.zero_lt_of_lt le)
    exact .array fun v member => ih v member (Nat.le_of_succ_le_succ le)
  | object ordered _ ih =>
    obtain ⟨inner, rfl⟩ := Nat.exists_eq_add_one.mpr (Nat.zero_lt_of_lt le)
    exact .object ordered fun f member => ih f member (Nat.le_of_succ_le_succ le)

theorem Fits.of_object {kind : Number → Prop} {depth : Nat} {fields : List (String × Value)}
    (fits : (Value.object fields).Fits kind depth) :
    Ordered fields ∧ ∀ f ∈ fields, f.2.Fits kind (depth - 1) := by
  cases fits with
  | object ordered inner => exact ⟨ordered, by simpa using inner⟩

end Value

namespace Tree

mutual

/-- A tree that holds a value: nothing in it is flawed, wherever it was read. -/
inductive Holds : Tree → Value → Prop where
  | null (rest : List Char) : Holds (.word ⟨.ok none, .ok rest⟩) .null
  | bool (b : Bool) (rest : List Char) : Holds (.word ⟨.ok (some b), .ok rest⟩) (.bool b)
  | number (n : Number) (rest : List Char) : Holds (.number ⟨.ok n, .ok rest⟩) (.number n)
  | string (s : String) (rest : List Char) : Holds (.string ⟨.ok s, .ok rest⟩) (.string s)
  | array {items : List Tree} {vs : List Value} (start rest : List Char) :
      HoldItems items vs → Holds (.array start items (.ok rest)) (.array vs)
  | object {entries : List (Tree × Tree)} {fields : List (String × Value)}
      (start rest : List Char) :
      HoldFields entries fields → Holds (.object start entries (.ok rest)) (.object fields)

inductive HoldItems : List Tree → List Value → Prop where
  | nil : HoldItems [] []
  | cons {t : Tree} {v : Value} {items : List Tree} {vs : List Value} :
      Holds t v → HoldItems items vs → HoldItems (t :: items) (v :: vs)

inductive HoldFields : List (Tree × Tree) → List (String × Value) → Prop where
  | nil : HoldFields [] []
  | cons {t : Tree} {v : Value} {entries : List (Tree × Tree)} {fields : List (String × Value)}
      (k : String) (rest : List Char) : Holds t v → HoldFields entries fields →
      HoldFields ((.string ⟨.ok k, .ok rest⟩, t) :: entries) ((k, v) :: fields)

end

mutual

theorem holds_ofValue : ∀ v : Value, (ofValue v).Holds v
  | .null => .null []
  | .bool b => .bool b []
  | .number n => .number n []
  | .string s => .string s []
  | .array items => .array [] [] (holdItems_ofItems items)
  | .object fields => .object [] [] (holdFields_ofFields fields)

theorem holdItems_ofItems : ∀ vs : List Value, HoldItems (ofItems vs) vs
  | [] => .nil
  | v :: vs => .cons (holds_ofValue v) (holdItems_ofItems vs)

theorem holdFields_ofFields : ∀ fields : List (String × Value), HoldFields (ofFields fields) fields
  | [] => .nil
  | (k, v) :: fields => .cons k [] (holds_ofValue v) (holdFields_ofFields fields)

end

mutual

theorem Holds.value {kind : Number → Prop} {t : Tree} {v : Value} {depth : Nat} (holds : t.Holds v)
    (fits : v.Fits kind depth) : t.value depth = .ok v :=
  match holds, fits with
  | .null _, _ => rfl
  | .bool _ _, _ => rfl
  | .number _ _, _ => rfl
  | .string _ _, _ => rfl
  | .array _ _ items, .array fit => by
    rw [Tree.value, Nat.add_sub_cancel, items.values fit]
    rfl
  | .object _ _ fields, .object ordered fit => by
    rw [Tree.value, Nat.add_sub_cancel, fields.values fit]
    exact congrArg (Except.ok ∘ Value.object) (Value.arrange_ordered ordered)

theorem HoldItems.values {kind : Number → Prop} {items : List Tree} {vs : List Value} {depth : Nat}
    (holds : HoldItems items vs) (fits : ∀ v ∈ vs, v.Fits kind depth) :
    valueItems depth items = .ok vs :=
  match holds with
  | .nil => rfl
  | .cons item items => by
    rw [List.forall_mem_cons] at fits
    rw [valueItems, item.value fits.1, items.values fits.2]
    rfl

theorem HoldFields.values {kind : Number → Prop} {entries : List (Tree × Tree)}
    {fields : List (String × Value)} {depth : Nat} (holds : HoldFields entries fields)
    (fits : ∀ f ∈ fields, f.2.Fits kind depth) : valueEntries depth entries = .ok fields :=
  match holds with
  | .nil => rfl
  | .cons _ _ field fields => by
    rw [List.forall_mem_cons] at fits
    rw [valueEntries, field.value fits.1, fields.values fits.2]
    rfl

end

mutual

/-- A value is passed over without a fault, however deep it is. -/
theorem Holds.skip {t : Tree} {v : Value} (holds : t.Holds v) : t.skip = .ok () :=
  match holds with
  | .null _ => rfl
  | .bool _ _ => rfl
  | .number _ _ => rfl
  | .string _ _ => rfl
  | .array _ _ items => by rw [Tree.skip, items.skip]; rfl
  | .object _ _ fields => by rw [Tree.skip, fields.skip]; rfl

theorem HoldItems.skip {items : List Tree} {vs : List Value} (holds : HoldItems items vs) :
    skipItems items = .ok () :=
  match holds with
  | .nil => rfl
  | .cons item items => by rw [skipItems, item.skip, items.skip]; rfl

theorem HoldFields.skip {entries : List (Tree × Tree)} {fields : List (String × Value)}
    (holds : HoldFields entries fields) : skipEntries entries = .ok () :=
  match holds with
  | .nil => rfl
  | .cons _ _ field fields => by rw [skipEntries, field.skip, fields.skip]; rfl

end

end Tree
end Printf.Json
