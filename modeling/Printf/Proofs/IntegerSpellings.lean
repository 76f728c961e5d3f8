import Mathlib.Data.List.DropRight
import Mathlib.Data.List.Forall2
import Printf.Command
import Printf.Proofs.Digits

/-! Integers as a command line spells them. The texts are given by a grammar of their own; a text is
read as the integer that it spells, and any other text, also one whose number is too large, is refused
as a whole. -/
namespace Printf.Spelling

/-- A character is the digit `d` of a base. Digits from ten on are letters of either case. -/
def IsDigit (base : Nat) (c : Char) (d : Nat) : Prop :=
  d < base ∧ ("0123456789abcdef".toList[d]? = some c ∨ "0123456789ABCDEF".toList[d]? = some c)

def Digits (base : Nat) (cs : List Char) (m : Nat) : Prop :=
  ∃ ds, ds ≠ [] ∧ List.Forall₂ (IsDigit base) cs ds ∧ m = Nat.ofDigits base ds.reverse

def NumberText (base : Nat) (cs : List Char) (m : Nat) : Prop :=
  ∃ sign digits, cs = sign ++ digits ∧ (sign = [] ∨ sign = ['+']) ∧ Digits base digits m

inductive MagnitudeText : List Char → Nat → Prop where
  | decimal {cs : List Char} {m : Nat} : NumberText 10 cs m → MagnitudeText cs m
  | hex {cs : List Char} {m : Nat} : NumberText 16 cs m → MagnitudeText ('0' :: 'x' :: cs) m
  | upperHex {cs : List Char} {m : Nat} : NumberText 16 cs m → MagnitudeText ('0' :: 'X' :: cs) m

/-- A text between blanks with a minus sign in front or without one, and then, between blanks again
and with underscores anywhere, a magnitude. -/
def Spells (negative : Bool) (text : List Char) (m : Nat) : Prop :=
  ∃ rest, Text.trim text = (if negative then ['-'] else []) ++ rest ∧
    MagnitudeText ((Text.trim rest).filter (· != '_')) m

inductive SpellsSigned (text : String) : Int → Prop where
  | positive {m : Nat} : Spells false text.toList m → m ≤ 2 ^ 63 - 1 → SpellsSigned text m
  | negative {m : Nat} : Spells true text.toList m → m ≤ 2 ^ 63 → SpellsSigned text (-m)

inductive SpellsUnsigned (text : String) : Nat → Prop where
  | positive {m : Nat} : Spells false text.toList m → m ≤ 2 ^ 64 - 1 → SpellsUnsigned text m

theorem mapM_eq_some_iff {α β : Type} {f : α → Option β} {xs : List α} {ys : List β} :
    xs.mapM f = some ys ↔ List.Forall₂ (fun x y => f x = some y) xs ys := by
  induction xs generalizing ys with
  | nil => cases ys <;> simp
  | cons x xs ih =>
    rw [List.mapM_cons]
    cases read : f x with
    | none => cases ys <;> simp [read]
    | some y => cases rest : xs.mapM f <;> cases ys <;> simp [read, rest, ← ih]

/-- A fact about the first 128 characters holds if it does for their codes. -/
theorem forall_ascii {P : Char → Prop} (codes : ∀ n < 128, P (Char.ofNat n)) {c : Char}
    (ascii : c.toNat < 128) : P c := by
  have here := codes c.toNat ascii
  rwa [Char.ofNat_toNat] at here

/-- Only the characters of a list are looked at to decide what holds of all of them. -/
theorem forall_mem_of_all {P : Char → Prop} [DecidablePred P] {cs : List Char}
    (all : (cs.all fun c => decide (P c)) = true) : ∀ c ∈ cs, P c := fun c member =>
  of_decide_eq_true (List.all_eq_true.mp all c member)

instance (base : Nat) (c : Char) (d : Nat) : Decidable (IsDigit base c d) :=
  inferInstanceAs (Decidable (d < base ∧
    ("0123456789abcdef".toList[d]? = some c ∨ "0123456789ABCDEF".toList[d]? = some c)))

theorem IsDigit.mem {base d : Nat} {c : Char} (digit : IsDigit base c d) :
    c ∈ "0123456789abcdef".toList ++ "0123456789ABCDEF".toList :=
  List.mem_append.mpr (digit.2.imp List.mem_of_getElem? List.mem_of_getElem?)

theorem IsDigit.ascii {base d : Nat} {c : Char} (digit : IsDigit base c d) : c.toNat < 128 := by
  have table : ∀ c ∈ "0123456789abcdef".toList ++ "0123456789ABCDEF".toList, c.toNat < 128 :=
    forall_mem_of_all (by decide)
  exact table c digit.mem

/-- No digit is a sign, an underscore or a blank. -/
theorem IsDigit.proper {base d : Nat} {c : Char} (digit : IsDigit base c d) :
    c ≠ '+' ∧ c ≠ '-' ∧ c ≠ '_' ∧ Text.isBlank c = false := by
  have table : ∀ c ∈ "0123456789abcdef".toList ++ "0123456789ABCDEF".toList,
      c ≠ '+' ∧ c ≠ '-' ∧ c ≠ '_' ∧ Text.isBlank c = false := forall_mem_of_all (by decide)
  exact table c digit.mem

/-- A smaller base has the first digits of a larger one. -/
theorem digit?_small {base : Nat} (small : base ≤ 16) {c : Char} {d : Nat} :
    digit? base c = some d ↔ d < base ∧ digit? 16 c = some d := by
  simp only [digit?]
  split_ifs <;> simp <;> omega

theorem digit?_ascii {c : Char} {d : Nat} (digit : digit? 16 c = some d) :
    c.toNat < 128 ∧ d < 16 := by
  have below {bound : Char} (small : bound.toNat < 128) (le : c ≤ bound) : c.toNat < 128 :=
    Nat.lt_of_le_of_lt (Char.le_def.mp le) small
  rw [digit?] at digit
  obtain ⟨lt, same⟩ := Option.ite_none_right_eq_some.mp digit
  cases Option.some.inj same
  refine ⟨?_, lt⟩
  split_ifs at lt with decimal letter capital
  · exact below (by decide) (of_decide_eq_true (Bool.and_eq_true_iff.mp decimal).2)
  · exact below (by decide) letter.2
  · exact below (by decide) capital.2
  · exact absurd lt (Nat.lt_irrefl 16)

theorem digit?_iff {base : Nat} (small : base ≤ 16) {c : Char} {d : Nat} :
    digit? base c = some d ↔ IsDigit base c d := by
  have table : ∀ n < 128, ∀ d < 16, digit? 16 (Char.ofNat n) = some d ↔
      IsDigit 16 (Char.ofNat n) d := by decide +kernel
  have same (ascii : c.toNat < 128) (lt : d < 16) : digit? 16 c = some d ↔ IsDigit 16 c d :=
    forall_ascii (P := fun c => digit? 16 c = some d ↔ IsDigit 16 c d)
      (fun n code => table n code d lt) ascii
  rw [digit?_small small]
  constructor
  · rintro ⟨lt, digit⟩
    obtain ⟨ascii, hex⟩ := digit?_ascii digit
    exact ⟨lt, ((same ascii hex).mp digit).2⟩
  · intro digit
    have hex : d < 16 := Nat.lt_of_lt_of_le digit.1 small
    exact ⟨digit.1, (same digit.ascii hex).mpr ⟨hex, digit.2⟩⟩

theorem digits_iff {base : Nat} (small : base ≤ 16) {cs : List Char} {m : Nat} :
    (if cs = [] then none else (cs.mapM (digit? base)).map (Radix.value base)) = some m ↔
      Digits base cs m := by
  rw [Option.ite_none_left_eq_some, Option.map_eq_some_iff]
  simp only [mapM_eq_some_iff, digit?_iff small]
  constructor
  · rintro ⟨nonempty, ds, digits, rfl⟩
    refine ⟨ds, ?_, digits, Directive.value_ofDigits base ds⟩
    rintro rfl
    exact nonempty (List.forall₂_nil_right_iff.mp digits)
  · rintro ⟨ds, nonempty, digits, rfl⟩
    refine ⟨?_, ds, digits, Directive.value_ofDigits base ds⟩
    rintro rfl
    exact nonempty (List.forall₂_nil_left_iff.mp digits)

theorem Digits.cons {base : Nat} {c : Char} {cs : List Char} {m : Nat}
    (digits : Digits base (c :: cs) m) : ∃ d, IsDigit base c d := by
  obtain ⟨ds, _, digits, _⟩ := digits
  obtain ⟨d, _, first, _⟩ := List.forall₂_cons_left_iff.mp digits
  exact ⟨d, first⟩

theorem numberText_plus {base : Nat} {cs : List Char} {m : Nat} :
    NumberText base ('+' :: cs) m ↔ Digits base cs m := by
  constructor
  · rintro ⟨_, _, text, rfl | rfl, digits⟩
    · rw [List.nil_append] at text
      obtain ⟨_, first⟩ := (text ▸ digits).cons
      exact absurd rfl first.proper.1
    · cases text
      exact digits
  · exact fun digits => ⟨['+'], cs, rfl, .inr rfl, digits⟩

theorem numberText_bare {base : Nat} {cs : List Char} {m : Nat} (bare : ∀ rest, cs ≠ '+' :: rest) :
    NumberText base cs m ↔ Digits base cs m := by
  constructor
  · rintro ⟨_, _, rfl, rfl | rfl, digits⟩
    · exact digits
    · exact absurd rfl (bare _)
  · exact fun digits => ⟨[], cs, rfl, .inl rfl, digits⟩

theorem natural?_iff {base : Nat} (small : base ≤ 16) {cs : List Char} {m : Nat} :
    natural? base cs = some m ↔ NumberText base cs m := by
  by_cases plus : ∃ rest, cs = '+' :: rest
  · obtain ⟨rest, rfl⟩ := plus
    exact (digits_iff small).trans numberText_plus.symm
  · have bare : ∀ rest, cs ≠ '+' :: rest := fun rest same => plus ⟨rest, same⟩
    rw [numberText_bare bare, ← digits_iff small, natural?]
    exact bare

/-- A decimal number has no mark of a base behind its first zero. -/
theorem NumberText.unmarked {cs : List Char} {mark : Char} {m : Nat}
    (other : digit? 10 mark = none) : ¬ NumberText 10 ('0' :: mark :: cs) m := by
  intro number
  obtain ⟨ds, _, digits, _⟩ := (numberText_bare (by simp)).mp number
  obtain ⟨_, _, _, digits, _⟩ := List.forall₂_cons_left_iff.mp digits
  obtain ⟨d, _, second, _⟩ := List.forall₂_cons_left_iff.mp digits
  rw [← digit?_iff (by decide), other] at second
  cases second

theorem unsigned?_iff {text : List Char} {m : Nat} : unsigned? text = some m ↔
    MagnitudeText ((Text.trim text).filter (· != '_')) m ∧ m < 2 ^ 64 := by
  have decimal {cs : List Char} (number : NumberText 10 cs m) : natural? 10 cs = some m :=
    (natural?_iff (by decide)).mpr number
  rw [unsigned?, Option.filter_eq_some_iff, decide_eq_true_iff]
  refine and_congr ?_ Iff.rfl
  generalize (Text.trim text).filter (· != '_') = cs
  split
  · rw [natural?_iff (by decide)]
    refine ⟨.hex, ?_⟩
    rintro (number | number)
    · exact absurd number (NumberText.unmarked (by decide))
    · exact number
  · rw [natural?_iff (by decide)]
    refine ⟨.upperHex, ?_⟩
    rintro (number | number | number)
    · exact absurd number (NumberText.unmarked (by decide))
    · exact number
  · next small capital =>
    rw [natural?_iff (by decide)]
    refine ⟨.decimal, ?_⟩
    rintro (number | number | number)
    · exact number
    · exact absurd rfl (small _)
    · exact absurd rfl (capital _)

theorem trim_eq (cs : List Char) :
    Text.trim cs = (cs.dropWhile Text.isBlank).rdropWhile Text.isBlank := rfl

/-- What blanks are trimmed from has none at its front. -/
theorem trim_front (cs : List Char) : (Text.trim cs).dropWhile Text.isBlank = Text.trim cs := by
  refine List.dropWhile_eq_self_iff.mpr fun some => ?_
  have front : Text.trim cs <+: cs.dropWhile Text.isBlank := List.rdropWhile_prefix _ _
  rw [front.getElem some]
  exact List.dropWhile_get_zero_not _ _ _

theorem trim_trim (cs : List Char) : Text.trim (Text.trim cs) = Text.trim cs := by
  rw [trim_eq (Text.trim cs), trim_front, trim_eq, List.rdropWhile_idempotent]

theorem spells_bare {text : List Char} {m : Nat} :
    Spells false text m ↔ MagnitudeText ((Text.trim text).filter (· != '_')) m := by
  constructor
  · rintro ⟨rest, trimmed, magnitude⟩
    have same : Text.trim rest = Text.trim text := by rw [← trim_trim text, trimmed]; rfl
    rwa [same] at magnitude
  · intro magnitude
    exact ⟨Text.trim text, rfl, by rwa [trim_trim]⟩

theorem spells_negative {text rest : List Char} {m : Nat} (minus : Text.trim text = '-' :: rest) :
    Spells true text m ↔ MagnitudeText ((Text.trim rest).filter (· != '_')) m := by
  constructor
  · rintro ⟨_, trimmed, magnitude⟩
    cases minus.symm.trans trimmed
    exact magnitude
  · exact fun magnitude => ⟨rest, minus, magnitude⟩

theorem MagnitudeText.unsigned {cs : List Char} {m : Nat} : ¬ MagnitudeText ('-' :: cs) m := by
  rintro ⟨number⟩
  obtain ⟨_, first⟩ := ((numberText_bare (by simp)).mp number).cons
  exact absurd rfl first.proper.2.1

theorem signed?_iff {text : String} {z : Int} :
    signed? text.toList = some z ↔ SpellsSigned text z := by
  have least : Int64.minValue.toInt = -(2 : Int) ^ 63 := by decide
  have greatest : Int64.maxValue.toInt = (2 : Int) ^ 63 - 1 := by decide
  rw [signed?, least, greatest]
  split
  · next rest minus =>
    simp only [bind_pure_comp, Option.map_eq_map, Option.map_map, Option.filter_eq_some_iff,
      Option.map_eq_some_iff, unsigned?_iff, decide_eq_true_iff, ← spells_negative minus]
    constructor
    · rintro ⟨⟨m, ⟨spelled, _⟩, rfl⟩, bound⟩
      exact .negative spelled (by simp only [Function.comp_apply] at bound; omega)
    · rintro (⟨spelled, bound⟩ | ⟨spelled, bound⟩)
      · have magnitude := spells_bare.mp spelled
        rw [minus, List.filter_cons_of_pos (by decide)] at magnitude
        exact absurd magnitude MagnitudeText.unsigned
      · exact ⟨⟨_, ⟨spelled, by omega⟩, rfl⟩, by omega⟩
  · next bare =>
    simp only [Option.filter_eq_some_iff, Option.map_eq_some_iff, unsigned?_iff,
      decide_eq_true_iff, ← spells_bare]
    constructor
    · rintro ⟨⟨m, ⟨spelled, _⟩, rfl⟩, bound⟩
      exact .positive spelled (by simp only [Int.ofNat_eq_natCast] at bound; omega)
    · rintro (⟨spelled, bound⟩ | ⟨spelled, bound⟩)
      · exact ⟨⟨_, ⟨spelled, by omega⟩, rfl⟩, by omega⟩
      · obtain ⟨rest, minus, _⟩ := spelled
        exact absurd minus (bare rest)

theorem unsigned?_spells {text : String} {n : Nat} :
    unsigned? text.toList = some n ↔ SpellsUnsigned text n := by
  rw [unsigned?_iff, ← spells_bare]
  constructor
  · rintro ⟨spelled, bound⟩
    exact .positive spelled (by omega)
  · rintro ⟨spelled, bound⟩
    exact ⟨spelled, by omega⟩

theorem readArgument_ok {text : String} {a : FixtureArg} :
    Command.readArgument text = .ok a ↔ FixtureArg.ofText? text = some a := by
  rw [Command.readArgument]
  split <;> simp_all

theorem readArgument_error {text : String} :
    Command.readArgument text = .error (.invalidArgument text) ↔ FixtureArg.ofText? text = none := by
  rw [Command.readArgument]
  split <;> simp_all

theorem ofText?_kind {kind : Char} (apart : kind ≠ ':') (raw : String) :
    FixtureArg.ofText? (String.ofList [kind, ':'] ++ raw) = value? [kind] raw.toList := by
  simp [FixtureArg.ofText?, apart]

/-- A kind whose values are those that a text spells reads each of them exactly and refuses any other
text. -/
theorem readArgument_kind {α γ : Type} {kind : Char} {raw : String} {read : Option γ}
    {S : γ → Prop} {f : γ → FixtureArg} {wrap : α → FixtureArg} {g : α → γ} (apart : kind ≠ ':')
    (value : value? [kind] raw.toList = read.map f) (spells : ∀ z, read = some z ↔ S z)
    (exact : ∀ z v, S z → (f z = wrap v ↔ z = g v)) :
    (∀ v, Command.readArgument (String.ofList [kind, ':'] ++ raw) = .ok (wrap v) ↔ S (g v)) ∧
    (Command.readArgument (String.ofList [kind, ':'] ++ raw) =
      .error (.invalidArgument (String.ofList [kind, ':'] ++ raw)) ↔ ¬ ∃ z, S z) := by
  rw [readArgument_error, ofText?_kind apart, value, Option.map_eq_none_iff,
    Option.eq_none_iff_forall_ne_some]
  simp only [readArgument_ok, ofText?_kind apart, value, Option.map_eq_some_iff, ne_eq, spells,
    not_exists, and_true]
  refine fun v => ⟨?_, fun spelled => ⟨g v, spelled, (exact _ v spelled).mpr rfl⟩⟩
  rintro ⟨z, spelled, same⟩
  exact (exact z v spelled).mp same ▸ spelled

theorem SpellsSigned.bounds {text : String} {z : Int} (spelled : SpellsSigned text z) :
    -2 ^ 63 ≤ z ∧ z < 2 ^ 63 := by
  cases spelled <;> omega

theorem SpellsUnsigned.bound {text : String} {n : Nat} (spelled : SpellsUnsigned text n) :
    n < 2 ^ 64 := by
  cases spelled
  omega

theorem ofInt_eq_iff {z : Int} (low : -2 ^ 63 ≤ z) (high : z < 2 ^ 63) (v : Int64) :
    Int64.ofInt z = v ↔ z = v.toInt := by
  constructor
  · rintro rfl
    exact (Int64.toInt_ofInt_of_le low high).symm
  · rintro rfl
    exact Int64.ofInt_toInt v

theorem toUInt64_eq_iff {n : Nat} (small : n < 2 ^ 64) (v : UInt64) :
    n.toUInt64 = v ↔ n = v.toNat := by
  rw [← UInt64.toNat_inj, Nat.toUInt64, UInt64.toNat_ofNat_of_lt' small]

theorem trim_solid {cs : List Char} (solid : ∀ c ∈ cs, Text.isBlank c = false) :
    Text.trim cs = cs := by
  have front : cs.dropWhile Text.isBlank = cs := List.dropWhile_eq_self_iff.mpr fun some => by
    simp [solid _ (List.getElem_mem some)]
  rw [trim_eq, front]
  exact List.rdropWhile_eq_self_iff.mpr fun some => by simp [solid _ (List.getLast_mem some)]

def markedDigits (base : Nat) (mark : String) (n : Nat) : List Char :=
  mark.toList ++ (Radix.numeral base n).map Radix.digitChar

def spelling (base : Nat) (mark : String) (v : Int) : String :=
  (if v < 0 then "-" else "") ++ String.ofList (markedDigits base mark v.natAbs)

theorem numberText_numeral {base : Nat} (least : 2 ≤ base) (small : base ≤ 16) (n : Nat) :
    NumberText base ((Radix.numeral base n).map Radix.digitChar) n := by
  have table : ∀ d < 16, IsDigit 16 (Radix.digitChar d) d := by decide
  refine ⟨[], _, rfl, .inl rfl, Radix.numeral base n, Radix.numeral_ne_nil least n, ?_, ?_⟩
  · rw [List.forall₂_map_left_iff, List.forall₂_same]
    intro d digit
    have lt := Radix.numeral_lt least n d digit
    exact ⟨lt, (table d (Nat.lt_of_lt_of_le lt small)).2⟩
  · rw [← Directive.value_ofDigits, Radix.value_numeral least]

inductive Mark : Nat → String → Prop where
  | decimal : Mark 10 ""
  | hex : Mark 16 "0x"
  | upperHex : Mark 16 "0X"

variable {base : Nat} {mark : String}

theorem Mark.magnitude (known : Mark base mark) (n : Nat) :
    MagnitudeText (markedDigits base mark n) n := by
  cases known with
  | decimal => exact .decimal (numberText_numeral (by decide) (by decide) n)
  | hex => exact .hex (numberText_numeral (by decide) (by decide) n)
  | upperHex => exact .upperHex (numberText_numeral (by decide) (by decide) n)

/-- Nothing is trimmed or deleted from a magnitude. -/
theorem Mark.proper (known : Mark base mark) (n : Nat) :
    ∀ c ∈ markedDigits base mark n, c ≠ '_' ∧ Text.isBlank c = false := by
  have digits {base : Nat} (least : 2 ≤ base) (small : base ≤ 16) :
      ∀ c ∈ (Radix.numeral base n).map Radix.digitChar, c ≠ '_' ∧ Text.isBlank c = false := by
    have table : ∀ d < 16, Radix.digitChar d ≠ '_' ∧ Text.isBlank (Radix.digitChar d) = false := by
      decide
    rw [List.forall_mem_map]
    exact fun d digit => table d (Nat.lt_of_lt_of_le (Radix.numeral_lt least n d digit) small)
  cases known with
  | decimal => exact digits (by decide) (by decide)
  | hex =>
    exact List.forall_mem_append.mpr
      ⟨forall_mem_of_all (by decide), digits (by decide) (by decide)⟩
  | upperHex =>
    exact List.forall_mem_append.mpr
      ⟨forall_mem_of_all (by decide), digits (by decide) (by decide)⟩

theorem Mark.spells (known : Mark base mark) (negative : Bool) (n : Nat) :
    Spells negative ((if negative then ['-'] else []) ++ markedDigits base mark n) n := by
  have proper := known.proper n
  have solid := trim_solid fun c member => (proper c member).2
  refine ⟨markedDigits base mark n, trim_solid ?_, ?_⟩
  · refine List.forall_mem_append.mpr ⟨?_, fun c member => (proper c member).2⟩
    cases negative <;> exact forall_mem_of_all (by decide)
  · rw [solid, List.filter_eq_self.mpr fun c member => bne_iff_ne.mpr (proper c member).1]
    exact known.magnitude n

theorem toList_spelling (base : Nat) (mark : String) (z : Int) : (spelling base mark z).toList =
    (if decide (z < 0) then ['-'] else []) ++ markedDigits base mark z.natAbs := by
  rw [spelling, String.toList_append, String.toList_ofList]
  split <;> simp_all

theorem Mark.spellsSigned (known : Mark base mark) (v : Int64) :
    SpellsSigned (spelling base mark v.toInt) v.toInt := by
  have low := v.le_toInt
  have high := v.toInt_lt
  have spelled := known.spells (decide (v.toInt < 0)) v.toInt.natAbs
  rw [← toList_spelling] at spelled
  by_cases negative : v.toInt < 0
  · rw [decide_eq_true negative] at spelled
    have signed := SpellsSigned.negative spelled (by omega)
    rwa [Int.ofNat_natAbs_of_nonpos (by omega), Int.neg_neg] at signed
  · rw [decide_eq_false negative] at spelled
    have signed := SpellsSigned.positive spelled (by omega)
    rwa [Int.natAbs_of_nonneg (by omega)] at signed

end Printf.Spelling

namespace Printf

open Command (readArgument)
open Spelling

/-- An integer of a command line is read as the integer that its text spells, within the bounds of its
kind, and if the text spells none, it is refused as a whole. Every integer of 64 bits is read back from
its decimal and its hexadecimal text. -/
theorem command_integers_read_exactly :
    (∀ raw : String,
      ((∀ v, readArgument ("i:" ++ raw) = .ok (.int v) ↔ SpellsSigned raw v.toInt) ∧
        (readArgument ("i:" ++ raw) = .error (.invalidArgument ("i:" ++ raw)) ↔
          ¬ ∃ z, SpellsSigned raw z)) ∧
      ((∀ v, readArgument ("u:" ++ raw) = .ok (.uint v) ↔ SpellsUnsigned raw v.toNat) ∧
        (readArgument ("u:" ++ raw) = .error (.invalidArgument ("u:" ++ raw)) ↔
          ¬ ∃ n, SpellsUnsigned raw n)) ∧
      ((∀ v, readArgument ("p:" ++ raw) = .ok (.ptr v) ↔ SpellsUnsigned raw v.toNat) ∧
        (readArgument ("p:" ++ raw) = .error (.invalidArgument ("p:" ++ raw)) ↔
          ¬ ∃ n, SpellsUnsigned raw n))) ∧
    ∀ v : Int64, readArgument ("i:" ++ spelling 10 "" v.toInt) = .ok (.int v) ∧
      readArgument ("i:" ++ spelling 16 "0x" v.toInt) = .ok (.int v) ∧
      readArgument ("i:" ++ spelling 16 "0X" v.toInt) = .ok (.int v) := by
  have integers (raw : String) :
      (∀ v, readArgument ("i:" ++ raw) = .ok (.int v) ↔ SpellsSigned raw v.toInt) ∧
        (readArgument ("i:" ++ raw) = .error (.invalidArgument ("i:" ++ raw)) ↔
          ¬ ∃ z, SpellsSigned raw z) :=
    readArgument_kind (by decide) rfl (fun _ => signed?_iff) fun z v spelled => by
      rw [FixtureArg.int.injEq, ofInt_eq_iff spelled.bounds.1 spelled.bounds.2 v]
  refine ⟨fun raw => ⟨integers raw, ?_, ?_⟩, fun v => ⟨?_, ?_, ?_⟩⟩
  · exact readArgument_kind (by decide) rfl (fun _ => unsigned?_spells) fun n v spelled => by
      rw [FixtureArg.uint.injEq, toUInt64_eq_iff spelled.bound v]
  · exact readArgument_kind (by decide) rfl (fun _ => unsigned?_spells) fun n v spelled => by
      rw [FixtureArg.ptr.injEq, toUInt64_eq_iff spelled.bound v]
  · exact ((integers _).1 v).mpr (Mark.decimal.spellsSigned v)
  · exact ((integers _).1 v).mpr (Mark.hex.spellsSigned v)
  · exact ((integers _).1 v).mpr (Mark.upperHex.spellsSigned v)

end Printf
