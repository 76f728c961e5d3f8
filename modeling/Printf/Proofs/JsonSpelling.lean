import Printf.Proofs.JsonScalars
import Printf.Proofs.JsonValues

/-! JSON texts of a value, with blanks wherever they may stand, are read back as that value whatever
follows them. The compact text is one of them, as long as the numbers in it read back, and it is a
single line. -/
namespace Printf.Json

open Text (isDecimal spanDigits)

def Blanks (cs : List Char) : Prop := ∀ c ∈ cs, isBlank c = true

mutual

/-- The texts of a value: its tokens, with blanks between them. -/
inductive Spells : Value → List Char → Prop where
  | null : Spells .null ['n', 'u', 'l', 'l']
  | yes : Spells (.bool true) ['t', 'r', 'u', 'e']
  | no : Spells (.bool false) ['f', 'a', 'l', 's', 'e']
  | number {n : Number} {cs : List Char} :
      readNumber cs = ⟨.ok n, .ok []⟩ → Spells (.number n) cs
  | string (s : String) : Spells (.string s) (quoted s)
  | array {vs : List Value} {cs : List Char} : SpellsItems vs cs → Spells (.array vs) ('[' :: cs)
  | object {fields : List (String × Value)} {cs : List Char} :
      SpellsFields fields cs → Spells (.object fields) ('{' :: cs)

inductive SpellsItems : List Value → List Char → Prop where
  | none {blanks : List Char} : Blanks blanks → SpellsItems [] (blanks ++ [']'])
  | last {v : Value} {before cs behind : List Char} : Blanks before → Spells v cs →
      Blanks behind → SpellsItems [v] (before ++ cs ++ behind ++ [']'])
  | more {v w : Value} {vs : List Value} {before cs behind later : List Char} : Blanks before →
      Spells v cs → Blanks behind → SpellsItems (w :: vs) later →
      SpellsItems (v :: w :: vs) (before ++ cs ++ behind ++ ',' :: later)

inductive SpellsFields : List (String × Value) → List Char → Prop where
  | none {blanks : List Char} : Blanks blanks → SpellsFields [] (blanks ++ ['}'])
  | last {k : String} {v : Value} {before inner cs behind : List Char} : Blanks before →
      Blanks inner → Spells v cs → Blanks behind →
      SpellsFields [(k, v)] (before ++ quoted k ++ ':' :: inner ++ cs ++ behind ++ ['}'])
  | more {k : String} {v : Value} {f : String × Value} {fields : List (String × Value)}
      {before inner cs behind later : List Char} : Blanks before → Blanks inner → Spells v cs →
      Blanks behind → SpellsFields (f :: fields) later →
      SpellsFields ((k, v) :: f :: fields)
        (before ++ quoted k ++ ':' :: inner ++ cs ++ behind ++ ',' :: later)

end

theorem skipBlanks_blanks {blanks : List Char} (all : Blanks blanks) (cs : List Char) :
    skipBlanks (blanks ++ cs) = skipBlanks cs := by
  rw [skipBlanks, List.dropWhile_append_of_pos all]; rfl

theorem skipBlanks_cons {c : Char} (solid : isBlank c = false) (cs : List Char) :
    skipBlanks (c :: cs) = c :: cs := by
  simp [skipBlanks, solid]

theorem skipBlanks_idem (cs : List Char) : skipBlanks (skipBlanks cs) = skipBlanks cs := by
  induction cs with
  | nil => rfl
  | cons c cs ih =>
    cases blank : isBlank c with
    | false => rw [skipBlanks_cons blank, skipBlanks_cons blank]
    | true => simpa [skipBlanks, blank] using ih

theorem readValue_skipBlanks (fuel : Nat) (cs : List Char) :
    readValue fuel (skipBlanks cs) = readValue fuel cs := by
  cases fuel with
  | zero => rfl
  | succ fuel => rw [readValue, readValue, skipBlanks_idem]

theorem readValue_blanks (fuel : Nat) {blanks : List Char} (all : Blanks blanks) (cs : List Char) :
    readValue fuel (blanks ++ cs) = readValue fuel cs := by
  rw [← readValue_skipBlanks, skipBlanks_blanks all, readValue_skipBlanks]

theorem readItems_skipBlanks (fuel : Nat) (cs : List Char) :
    readItems fuel (skipBlanks cs) = readItems fuel cs := by
  cases fuel with
  | zero => rfl
  | succ fuel => rw [readItems, readItems, readValue_skipBlanks]

theorem readEntries_skipBlanks (fuel : Nat) (cs : List Char) :
    readEntries fuel (skipBlanks cs) = readEntries fuel cs := by
  cases fuel with
  | zero => rfl
  | succ fuel => rw [readEntries, readEntries, readValue_skipBlanks]

theorem readNumber_head {cs : List Char} {n : Number} {rest : Rest}
    (read : readNumber cs = ⟨.ok n, rest⟩) :
    ∃ c more, cs = c :: more ∧ (c = '-' ∨ isDecimal c = true) := by
  cases cs with
  | nil => cases read
  | cons c more =>
    refine ⟨c, more, rfl, ?_⟩
    by_contra neither
    obtain ⟨plain, other⟩ := not_or.mp neither
    have span : spanDigits (c :: more) = ([], c :: more) := by simp [spanDigits, other]
    rw [readNumber, readLiteral_unsigned plain, readUnsigned, readWhole, span] at read
    cases read

/-- The first character of a number is no blank and no bracket. -/
theorem isBlank_start {c : Char} (start : c = '-' ∨ isDecimal c = true) :
    isBlank c = false ∧ c ≠ ']' := by
  rcases start with rfl | digit
  · decide
  · refine ⟨?_, fun bracket => absurd (bracket ▸ digit) (by decide)⟩
    simp only [isBlank, Bool.or_eq_false_iff, beq_eq_false_iff_ne]
    refine ⟨⟨⟨?_, ?_⟩, ?_⟩, ?_⟩ <;> exact fun same => absurd (same ▸ digit) (by decide)

theorem readValue_number {c : Char} (start : c = '-' ∨ isDecimal c = true) (fuel : Nat)
    (cs : List Char) : readValue (fuel + 1) (c :: cs) = .number (readNumber (c :: cs)) := by
  rw [readValue, skipBlanks_cons (isBlank_start start).1]
  rcases start with rfl | digit
  · rfl
  · split
    case h_7 => next same => cases same; simp [digit]
    all_goals next same => cases same; try cases digit

theorem readValue_string (fuel : Nat) (s : String) (rest : List Char) :
    readValue (fuel + 1) (quoted s ++ rest) = .string ⟨.ok s, .ok rest⟩ := by
  have text : quoted s ++ rest = '"' :: (s.toList.flatMap escape ++ '"' :: rest) := by
    simp [quoted]
  rw [text, readValue, skipBlanks_cons rfl]
  exact congrArg Tree.string (readString_escaped s rest)

/-- A text starts with something else than a blank or a closing bracket. -/
theorem Spells.head {v : Value} {cs : List Char} (spells : Spells v cs) :
    ∃ c more, cs = c :: more ∧ isBlank c = false ∧ c ≠ ']' := by
  cases spells with
  | number read =>
    obtain ⟨c, more, rfl, start⟩ := readNumber_head read
    exact ⟨c, more, rfl, isBlank_start start⟩
  | null => exact ⟨_, _, rfl, by decide⟩
  | yes => exact ⟨_, _, rfl, by decide⟩
  | no => exact ⟨_, _, rfl, by decide⟩
  | string s => exact ⟨_, _, rfl, by decide⟩
  | array items => exact ⟨_, _, rfl, by decide⟩
  | object fields => exact ⟨_, _, rfl, by decide⟩

theorem SpellsItems.head {vs : List Value} {cs : List Char} (spells : SpellsItems vs cs)
    (some : vs ≠ []) (rest : List Char) :
    ∃ c more, skipBlanks (cs ++ rest) = c :: more ∧ c ≠ ']' := by
  cases spells with
  | none _ => exact absurd rfl some
  | last before item _ | more before item _ _ =>
    obtain ⟨c, more, rfl, solid, inside⟩ := item.head
    simp only [List.append_assoc, skipBlanks_blanks before, List.cons_append, skipBlanks_cons solid]
    exact ⟨c, _, rfl, inside⟩

theorem SpellsFields.head {fields : List (String × Value)} {cs : List Char}
    (spells : SpellsFields fields cs) (some : fields ≠ []) (rest : List Char) :
    ∃ more, skipBlanks (cs ++ rest) = '"' :: more := by
  cases spells with
  | none _ => exact absurd rfl some
  | last before _ _ _ | more before _ _ _ _ =>
    simp only [List.append_assoc, skipBlanks_blanks before, quoted, List.cons_append]
    exact ⟨_, skipBlanks_cons rfl _⟩

theorem SpellsItems.read_none {cs : List Char} (spells : SpellsItems [] cs) (rest : List Char) :
    skipBlanks (cs ++ rest) = ']' :: rest := by
  cases spells with
  | none blanks =>
    rw [List.append_assoc, skipBlanks_blanks blanks]
    exact skipBlanks_cons rfl rest

theorem SpellsFields.read_none {cs : List Char} (spells : SpellsFields [] cs) (rest : List Char) :
    skipBlanks (cs ++ rest) = '}' :: rest := by
  cases spells with
  | none blanks =>
    rw [List.append_assoc, skipBlanks_blanks blanks]
    exact skipBlanks_cons rfl rest

theorem readValue_array {c : Char} {cs more : List Char} (head : skipBlanks cs = c :: more)
    (inside : c ≠ ']') (fuel : Nat) :
    readValue (fuel + 1) ('[' :: cs) =
      .array ('[' :: cs) (readItems fuel cs).1 (readItems fuel cs).2 := by
  simp [readValue, skipBlanks_cons (c := '[') rfl, ← readItems_skipBlanks fuel cs, head, inside]

theorem readValue_noItems {cs rest : List Char} (closed : skipBlanks cs = ']' :: rest)
    (fuel : Nat) : readValue (fuel + 1) ('[' :: cs) = .array ('[' :: cs) [] (.ok rest) := by
  simp only [readValue, skipBlanks_cons (c := '[') rfl, closed]

theorem readValue_object {cs more : List Char} (head : skipBlanks cs = '"' :: more) (fuel : Nat) :
    readValue (fuel + 1) ('{' :: cs) =
      .object ('{' :: cs) (readEntries fuel cs).1 (readEntries fuel cs).2 := by
  simp [readValue, skipBlanks_cons (c := '{') rfl, ← readEntries_skipBlanks fuel cs, head]

theorem readValue_noFields {cs rest : List Char} (closed : skipBlanks cs = '}' :: rest)
    (fuel : Nat) : readValue (fuel + 1) ('{' :: cs) = .object ('{' :: cs) [] (.ok rest) := by
  simp only [readValue, skipBlanks_cons (c := '{') rfl, closed]

theorem ends_blanks {blanks rest : List Char} (all : Blanks blanks) (ends : Ends rest) :
    Ends (blanks ++ rest) := by
  cases blanks with
  | nil => exact ends
  | cons c blanks =>
    have blank := all c List.mem_cons_self
    simp only [isBlank, Bool.or_eq_true, beq_iff_eq] at blank
    rw [List.cons_append, ends_cons]
    rcases blank with ((rfl | rfl) | rfl) | rfl <;> decide

theorem Tree.rest_string (s : Scan String) : (Tree.string s).rest = s.rest := rfl

mutual

/-- Whatever blanks stand in its text, a value is read back, and nothing of the text behind it. -/
theorem Spells.read {v : Value} {cs : List Char} (spells : Spells v cs) {rest : List Char}
    (ends : Ends rest) {fuel : Nat} (enough : 2 * cs.length ≤ fuel + 1) :
    (readValue fuel (cs ++ rest)).Holds v ∧ (readValue fuel (cs ++ rest)).rest = .ok rest := by
  obtain ⟨_, _, start, _, _⟩ := spells.head
  obtain ⟨fuel, rfl⟩ : ∃ less, fuel = less + 1 :=
    Nat.exists_eq_add_one.mpr (by simp [start] at enough; omega)
  match spells with
  | .null => exact ⟨.null rest, rfl⟩
  | .yes => exact ⟨.bool _ rest, rfl⟩
  | .no => exact ⟨.bool _ rest, rfl⟩
  | .number read =>
    obtain ⟨c, more, rfl, digit⟩ := readNumber_head read
    rw [List.cons_append, readValue_number digit, ← List.cons_append, readNumber_append read ends]
    exact ⟨.number _ rest, rfl⟩
  | .string s =>
    rw [readValue_string]
    exact ⟨.string s rest, rfl⟩
  | @Spells.array vs cs items =>
    have short : 2 * cs.length ≤ fuel := by simp only [List.length_cons] at enough; omega
    by_cases empty : vs = []
    · subst empty
      rw [List.cons_append, readValue_noItems (items.read_none rest)]
      exact ⟨.array _ rest .nil, rfl⟩
    · obtain ⟨c, more, head, inside⟩ := items.head empty rest
      obtain ⟨trees, read, holds⟩ := items.read empty rest short
      rw [List.cons_append, readValue_array head inside, read]
      exact ⟨.array _ rest holds, rfl⟩
  | @Spells.object fields cs entries =>
    have short : 2 * cs.length ≤ fuel := by simp only [List.length_cons] at enough; omega
    by_cases empty : fields = []
    · subst empty
      rw [List.cons_append, readValue_noFields (entries.read_none rest)]
      exact ⟨.object _ rest .nil, rfl⟩
    · obtain ⟨more, head⟩ := entries.head empty rest
      obtain ⟨trees, read, holds⟩ := entries.read empty rest short
      rw [List.cons_append, readValue_object head, read]
      exact ⟨.object _ rest holds, rfl⟩

theorem SpellsItems.read {vs : List Value} {cs : List Char} (spells : SpellsItems vs cs)
    (some : vs ≠ []) (rest : List Char) {fuel : Nat} (enough : 2 * cs.length ≤ fuel) :
    ∃ items, readItems fuel (cs ++ rest) = (items, .ok rest) ∧ Tree.HoldItems items vs := by
  match spells with
  | .none _ => exact absurd rfl some
  | @SpellsItems.last _ _ cs bs before item behind =>
    obtain ⟨fuel, rfl⟩ : ∃ less, fuel = less + 1 :=
      Nat.exists_eq_add_one.mpr (by simp at enough; omega)
    have ends : Ends (bs ++ ']' :: rest) := ends_blanks behind (ends_cons.mpr (by decide))
    have short : 2 * cs.length ≤ fuel + 1 := by simp at enough; omega
    obtain ⟨holds, left⟩ := item.read ends short
    simp only [List.append_assoc, List.singleton_append, readItems, readValue_blanks fuel before,
      left, skipBlanks_blanks behind, skipBlanks_cons (c := ']') rfl]
    exact ⟨_, rfl, .cons holds .nil⟩
  | @SpellsItems.more _ _ _ _ cs bs more before item behind later =>
    obtain ⟨fuel, rfl⟩ : ∃ less, fuel = less + 1 :=
      Nat.exists_eq_add_one.mpr (by simp at enough; omega)
    have ends : Ends (bs ++ ',' :: (more ++ rest)) := ends_blanks behind (ends_cons.mpr (by decide))
    have short : 2 * cs.length ≤ fuel + 1 := by simp at enough; omega
    obtain ⟨holds, left⟩ := item.read ends short
    have shorter : 2 * more.length ≤ fuel := by simp at enough; omega
    obtain ⟨items, read, held⟩ := later.read (List.cons_ne_nil _ _) rest shorter
    simp only [List.append_assoc, List.cons_append, readItems, readValue_blanks fuel before,
      left, skipBlanks_blanks behind, skipBlanks_cons (c := ',') rfl, read]
    exact ⟨_, rfl, .cons holds held⟩

theorem SpellsFields.read {fields : List (String × Value)} {cs : List Char}
    (spells : SpellsFields fields cs) (some : fields ≠ []) (rest : List Char) {fuel : Nat}
    (enough : 2 * cs.length ≤ fuel) :
    ∃ entries, readEntries fuel (cs ++ rest) = (entries, .ok rest) ∧
      Tree.HoldFields entries fields := by
  match spells with
  | .none _ => exact absurd rfl some
  | @SpellsFields.last _ _ _ _ cs bs before inner value behind =>
    obtain ⟨fuel, rfl⟩ : ∃ less, fuel = less + 2 :=
      Nat.exists_eq_add_of_le' (by simp at enough; omega)
    have ends : Ends (bs ++ '}' :: rest) := ends_blanks behind (ends_cons.mpr (by decide))
    have short : 2 * cs.length ≤ fuel + 1 + 1 := by simp at enough; omega
    obtain ⟨holds, left⟩ := value.read ends short
    rw [readEntries]
    simp only [List.append_assoc, List.cons_append, List.nil_append, readValue_blanks _ before,
      readValue_string, Tree.rest_string, skipBlanks_cons (c := ':') rfl, readValue_blanks _ inner,
      left, skipBlanks_blanks behind, skipBlanks_cons (c := '}') rfl]
    exact ⟨_, rfl, .cons _ _ holds .nil⟩
  | @SpellsFields.more _ _ _ _ _ _ cs bs more before inner value behind later =>
    obtain ⟨fuel, rfl⟩ : ∃ less, fuel = less + 2 :=
      Nat.exists_eq_add_of_le' (by simp at enough; omega)
    have ends : Ends (bs ++ ',' :: (more ++ rest)) := ends_blanks behind (ends_cons.mpr (by decide))
    have short : 2 * cs.length ≤ fuel + 1 + 1 := by simp at enough; omega
    obtain ⟨holds, left⟩ := value.read ends short
    have shorter : 2 * more.length ≤ fuel + 1 := by simp at enough; omega
    obtain ⟨entries, read, held⟩ := later.read (List.cons_ne_nil _ _) rest shorter
    rw [readEntries]
    simp only [List.append_assoc, List.cons_append, readValue_blanks _ before, readValue_string,
      Tree.rest_string, skipBlanks_cons (c := ':') rfl, readValue_blanks _ inner, left,
      skipBlanks_blanks behind, skipBlanks_cons (c := ',') rfl, read]
    exact ⟨_, rfl, .cons _ _ holds held⟩

end

theorem blanks_nil : Blanks [] := nofun

theorem spells_items {vs : List Value} (all : ∀ v ∈ vs, Spells v v.compactChars) :
    SpellsItems vs (Value.compactItems vs) := by
  induction vs with
  | nil => exact .none blanks_nil
  | cons v vs ih =>
    obtain ⟨first, later⟩ := List.forall_mem_cons.mp all
    cases vs with
    | nil => simpa [Value.compactItems] using SpellsItems.last blanks_nil first blanks_nil
    | cons w vs =>
      simpa [Value.compactItems] using SpellsItems.more blanks_nil first blanks_nil (ih later)

theorem spells_fields {fields : List (String × Value)}
    (all : ∀ f ∈ fields, Spells f.2 f.2.compactChars) :
    SpellsFields fields (Value.compactFields fields) := by
  induction fields with
  | nil => exact .none blanks_nil
  | cons f fields ih =>
    obtain ⟨first, later⟩ := List.forall_mem_cons.mp all
    obtain ⟨k, v⟩ := f
    cases fields with
    | nil =>
      simpa [Value.compactFields] using SpellsFields.last blanks_nil blanks_nil first blanks_nil
    | cons g fields =>
      simpa [Value.compactFields] using
        SpellsFields.more blanks_nil blanks_nil first blanks_nil (ih later)

/-- The compact text of a value is one of its texts, if the numbers in it read back. -/
theorem Value.Numbers.spells {v : Value} (numbers : v.Numbers Number.ReadsBack) :
    Spells v v.compactChars := by
  induction numbers with
  | null => exact .null
  | bool b => cases b; exacts [.no, .yes]
  | number read => exact .number read
  | string s => exact .string s
  | array _ ih => exact .array (spells_items ih)
  | object _ ih => exact .object (spells_fields ih)

theorem ends_nil : Ends [] := nofun

/-- A whole document is read as a tree of its value. -/
theorem Tree.ofText_spelled {v : Value} {text : String} (spells : Spells v text.toList) :
    ∃ t : Tree, Tree.ofText text = (t, .ok ()) ∧ t.Holds v := by
  have enough : 2 * text.toList.length ≤ 2 * text.toList.length + 2 + 1 := by omega
  obtain ⟨holds, left⟩ := spells.read ends_nil enough
  rw [List.append_nil] at holds left
  refine ⟨_, ?_, holds⟩
  simp only [Tree.ofText, left]
  rfl

/-- A whole document is read as the value of its tree. -/
theorem ofText?_spelled {v : Value} {text : String} (spells : Spells v text.toList) {w : Value}
    (value : ∀ t : Tree, t.Holds v → t.value Tree.maxDepth = .ok w) :
    Value.ofText? text = some w := by
  obtain ⟨t, read, holds⟩ := Tree.ofText_spelled spells
  simp only [Value.ofText?, read, value _ holds]
  rfl

/-- Values that fit are read back from their compact texts. -/
theorem Value.Fits.ofText? {v : Value} (fits : v.Fits Number.ReadsBack Tree.maxDepth) :
    Value.ofText? v.compact = some v :=
  ofText?_spelled (by simpa [compact] using fits.numbers.spells) fun _ holds => holds.value fits

/-- An object need not be in order to be read back, but it comes back in order. -/
theorem ofText?_object {fields : List (String × Value)}
    (fits : ∀ f ∈ fields, f.2.Fits Number.ReadsBack (Tree.maxDepth - 1)) :
    Value.ofText? (Value.object fields).compact = some (.ofFields fields) := by
  have spells : Spells (.object fields) (Value.object fields).compactChars :=
    .object (spells_fields fun f member => (fits f member).numbers.spells)
  refine ofText?_spelled (by simpa [Value.compact] using spells) fun t holds => ?_
  cases holds with
  | object start rest entries =>
    rw [Tree.value, entries.values fits]
    rfl

theorem digitChar_ne_newline : ∀ d < 16, Radix.digitChar d ≠ '\n' := by decide

theorem newline_digits {ds : List Nat} (small : ∀ d ∈ ds, d < 16) :
    '\n' ∉ ds.map Radix.digitChar := by
  intro member
  obtain ⟨d, digit, same⟩ := List.mem_map.mp member
  exact digitChar_ne_newline d (small d digit) same

theorem newline_numeral (n : Nat) : '\n' ∉ (Radix.numeral 10 n).map Radix.digitChar :=
  newline_digits fun d member => Nat.lt_trans (Radix.numeral_lt (by decide) n d member) (by decide)

theorem newline_escape (c : Char) : '\n' ∉ escape c := by
  have unit : '\n' ∉ (Radix.lastDigits 16 4 c.toNat).map Radix.digitChar := by
    refine newline_digits fun d member => ?_
    simp only [Radix.lastDigits, List.nil_append, List.cons_append, List.mem_cons,
      List.not_mem_nil, or_false] at member
    omega
  unfold escape
  split_ifs <;> simp_all [eq_comm]

theorem newline_quoted (s : String) : '\n' ∉ quoted s := by
  simp [quoted, newline_escape]

theorem newline_shortest (x : Binary64) : '\n' ∉ Shortest.text x := by
  have digits : '\n' ∉ (Shortest.digits x).1.map Radix.digitChar := by
    refine newline_digits fun d member => ?_
    rw [Shortest.digits] at member
    split at member
    · simp at member; omega
    · have kept := (List.dropWhile_sublist _).subset (List.mem_reverse.mp member)
      exact Nat.lt_trans (Radix.significant_lt _ _ d (List.mem_reverse.mp kept)) (by decide)
  have taken (n : Nat) : '\n' ∉ ((Shortest.digits x).1.map Radix.digitChar).take n :=
    fun member => digits (List.mem_of_mem_take member)
  have dropped (n : Nat) : '\n' ∉ ((Shortest.digits x).1.map Radix.digitChar).drop n :=
    fun member => digits (List.mem_of_mem_drop member)
  have exponent := newline_numeral (Shortest.digits x).2.natAbs
  simp only [Shortest.text, List.mem_append, not_or]
  refine ⟨by split <;> decide, ?_⟩
  split
  · split
    · simp [digits]
    · split
      · simp [digits]
      · simp [taken, dropped]
  · simp only [List.mem_append, not_or]
    refine ⟨⟨⟨taken 1, ?_⟩, by split <;> decide⟩, exponent⟩
    split
    · exact List.not_mem_nil
    · exact List.not_mem_cons_of_ne_of_not_mem (by decide) (dropped 1)

theorem newline_number (n : Number) : '\n' ∉ n.text := by
  match n with
  | .int (.ofNat k) =>
    simpa [Number.text, Radix.integerText, Radix.decimalText] using newline_numeral k
  | .int (.negSucc k) =>
    simpa [Number.text, Radix.integerText, Radix.decimalText] using newline_numeral (k + 1)
  | .float x => exact newline_shortest x

namespace Value

mutual

/-- A compact text is a single line. -/
theorem newline_compact : ∀ v : Value, '\n' ∉ v.compactChars
  | null => by decide
  | bool b => by cases b <;> decide
  | number n => newline_number n
  | string s => newline_quoted s
  | array items => by simpa [compactChars] using newline_compactItems items
  | object fields => by simpa [compactChars] using newline_compactFields fields

theorem newline_compactItems : ∀ vs : List Value, '\n' ∉ compactItems vs
  | [] => by decide
  | [v] => by simpa [compactItems] using newline_compact v
  | v :: w :: rest => by
    simpa [compactItems] using ⟨newline_compact v, newline_compactItems (w :: rest)⟩

theorem newline_compactFields : ∀ fields : List (String × Value), '\n' ∉ compactFields fields
  | [] => by decide
  | [(k, v)] => by simpa [compactFields] using ⟨newline_quoted k, newline_compact v⟩
  | (k, v) :: next :: rest => by
    simpa [compactFields] using
      ⟨newline_quoted k, newline_compact v, newline_compactFields (next :: rest)⟩

end

end Value
end Printf.Json
