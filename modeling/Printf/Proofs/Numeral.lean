import Mathlib.Algebra.Order.Field.Rat
import Mathlib.Data.List.DropRight
import Mathlib.Data.Nat.Digits.Lemmas
import Printf.Proofs.Digits

/-! Numbers as they are written, and what they denote. A numeral is a text in its parts: digits, a
point, digits behind it and an exponent. Its value is read off the bytes by place value, whatever
wrote them, and no two numerals have the same text. -/
namespace Printf

def digitSet (upper : Bool) : Bytes :=
  utf8 (if upper then "0123456789ABCDEF" else "0123456789abcdef")

def IsDigits (base : Nat) (upper : Bool) (ds : Bytes) : Prop :=
  ∀ b ∈ ds, b ∈ (digitSet upper).take base

instance (base : Nat) (upper : Bool) (ds : Bytes) : Decidable (IsDigits base upper ds) :=
  inferInstanceAs (Decidable (∀ b ∈ ds, b ∈ (digitSet upper).take base))

def readDigits (base : Nat) (upper : Bool) (ds : Bytes) : Nat :=
  Nat.ofDigits base (ds.reverse.map fun b => (digitSet upper).idxOf b)

/-- A way to write numbers: the base and the letter case of the digits, and the base that an exponent
is an exponent of. -/
structure Positional where
  base : Nat
  upper : Bool
  scale : Nat

def Positional.decimal : Positional := ⟨10, false, 10⟩

def Positional.hex (upper : Bool) : Positional := ⟨16, upper, 2⟩

structure Exponent where
  marker : UInt8
  negative : Bool
  digits : Bytes

def Exponent.text (e : Exponent) : Bytes :=
  e.marker :: (if e.negative then byte '-' else byte '+') :: e.digits

def Exponent.value (e : Exponent) : Int :=
  if e.negative then -readDigits 10 false e.digits else readDigits 10 false e.digits

theorem Exponent.value_of_natAbs (marker : UInt8) {X : Int} {digits : Bytes}
    (spelled : readDigits 10 false digits = X.natAbs) :
    (Exponent.mk marker (X < 0) digits).value = X := by
  rw [value, spelled]
  simp only [decide_eq_true_eq]
  split <;> omega

structure Numeral where
  whole : Bytes
  point : Bool
  fraction : Bytes
  exponent : Option Exponent

namespace Numeral

def text (t : Numeral) : Bytes :=
  t.whole ++ ((if t.point then [byte '.'] else []) ++ (t.fraction ++ t.exponent.elim [] Exponent.text))

/-- All digits as a whole number, moved by the digits behind the point and by the exponent. -/
def value (w : Positional) (t : Numeral) : ℚ :=
  readDigits w.base w.upper (t.whole ++ t.fraction) / (w.base : ℚ) ^ t.fraction.length *
    (w.scale : ℚ) ^ t.exponent.elim 0 Exponent.value

structure WellFormed (w : Positional) (t : Numeral) : Prop where
  whole : t.whole ≠ []
  digits : IsDigits w.base w.upper (t.whole ++ t.fraction)
  point : t.fraction ≠ [] → t.point = true
  exponent : ∀ e ∈ t.exponent, e.digits ≠ [] ∧ IsDigits 10 false e.digits
  marker : ∀ e ∈ t.exponent, e.marker ∉ byte '.' :: (digitSet w.upper).take w.base

end Numeral

theorem digitByte_set : ∀ d < 16, ∀ upper,
    (digitSet upper).idxOf (Radix.digitByte upper d) = d ∧
    ∀ base ≤ 16, d < base → Radix.digitByte upper d ∈ (digitSet upper).take base := by
  decide

theorem isDigits_map {base : Nat} (small : base ≤ 16) (upper : Bool) {ds : List Nat}
    (lt : ∀ d ∈ ds, d < base) : IsDigits base upper (ds.map (Radix.digitByte upper)) := by
  intro b member
  obtain ⟨d, digit, rfl⟩ := List.mem_map.mp member
  have bound := lt d digit
  exact (digitByte_set d (by omega) upper).2 base small bound

theorem readDigits_map {ds : List Nat} (lt : ∀ d ∈ ds, d < 16) (base : Nat) (upper : Bool) :
    readDigits base upper (ds.map (Radix.digitByte upper)) = Radix.value base ds := by
  have read : (ds.map (Radix.digitByte upper)).map (fun b => (digitSet upper).idxOf b) = ds := by
    rw [List.map_map]
    refine (List.map_congr_left fun d digit => ?_).trans (List.map_id _)
    exact (digitByte_set d (lt d digit) upper).1
  rw [readDigits, List.map_reverse, read, Directive.value_ofDigits]

@[simp] theorem readDigits_nil (base : Nat) (upper : Bool) : readDigits base upper [] = 0 := rfl

theorem readDigits_append (base : Nat) (upper : Bool) (a b : Bytes) :
    readDigits base upper (a ++ b) =
      readDigits base upper a * base ^ b.length + readDigits base upper b := by
  rw [readDigits, List.reverse_append, List.map_append, Nat.ofDigits_append, List.length_map,
    List.length_reverse, Nat.add_comm, Nat.mul_comm]
  rfl

theorem readDigits_zeros (base : Nat) (upper : Bool) (n : Nat) :
    readDigits base upper (List.replicate n (byte '0')) = 0 := by
  induction n with
  | zero => rfl
  | succ n ih =>
    have zero : readDigits base upper [byte '0'] = 0 := by cases upper <;> rfl
    rw [List.replicate_succ', readDigits_append, ih, zero, Nat.zero_mul]

/-- Zeros at the end of a fraction make no difference to the number. -/
theorem readDigits_div_zeros {base : Nat} (positive : 0 < base) (upper : Bool) (whole ds : Bytes)
    (n : Nat) : (readDigits base upper (whole ++ (ds ++ List.replicate n (byte '0'))) : ℚ) /
        (base : ℚ) ^ (ds ++ List.replicate n (byte '0')).length =
      readDigits base upper (whole ++ ds) / (base : ℚ) ^ ds.length := by
  have unit : (base : ℚ) ^ n ≠ 0 := pow_ne_zero n (by exact_mod_cast positive.ne')
  rw [← List.append_assoc, readDigits_append, readDigits_zeros, List.length_append,
    List.length_replicate, Nat.add_zero, Nat.cast_mul, Nat.cast_pow, pow_add,
    mul_div_mul_right _ _ unit]

theorem isDigits_zeros {base : Nat} (positive : 0 < base) (small : base ≤ 16) (upper : Bool)
    (n : Nat) : IsDigits base upper (List.replicate n (byte '0')) := by
  intro b member
  rw [List.eq_of_mem_replicate member]
  exact (digitByte_set 0 (by decide) upper).2 base small positive

theorem IsDigits.append {base : Nat} {upper : Bool} {a b : Bytes} (front : IsDigits base upper a)
    (behind : IsDigits base upper b) : IsDigits base upper (a ++ b) :=
  List.forall_mem_append.mpr ⟨front, behind⟩

theorem isDigits_decimal (n : Nat) : IsDigits 10 false (Radix.decimal n) :=
  isDigits_map (by decide) false (Radix.numeral_lt (by decide) n)

theorem readDigits_decimal (n : Nat) : readDigits 10 false (Radix.decimal n) = n := by
  refine (readDigits_map (fun d digit => ?_) 10 false).trans (Radix.value_numeral (by decide) n)
  have := Radix.numeral_lt (by decide) n d digit
  omega

theorem length_decimal (n : Nat) : (Radix.decimal n).length = max 1 (Nat.digits 10 n).length := by
  rw [Radix.decimal, Radix.text, List.length_map, Radix.length_numeral (by decide)]

theorem idxOf_lt {base : Nat} {upper : Bool} {b : UInt8} (digit : b ∈ (digitSet upper).take base) :
    (digitSet upper).idxOf b < base := by
  have inside := (List.idxOf_lt_length_of_mem digit).trans_le (List.length_take_le _ _)
  rwa [← List.take_append_drop base (digitSet upper), List.idxOf_append_of_mem digit]

theorem IsDigits.places_lt {base : Nat} {upper : Bool} {ds : Bytes}
    (digits : IsDigits base upper ds) :
    ∀ d ∈ ds.reverse.map fun b => (digitSet upper).idxOf b, d < base := by
  intro d member
  obtain ⟨b, digit, rfl⟩ := List.mem_map.mp member
  exact idxOf_lt (digits b (List.mem_reverse.mp digit))

/-- Digits in a given number are told by the number that they spell. -/
theorem IsDigits.unique {base : Nat} (radix : 1 < base) {upper : Bool} {a b : Bytes}
    (digits : IsDigits base upper a) (digits' : IsDigits base upper b) (length : a.length = b.length)
    (value : readDigits base upper a = readDigits base upper b) : a = b := by
  have unread {ds : Bytes} (digits : IsDigits base upper ds) :
      (ds.reverse.map fun b => (digitSet upper).idxOf b).map ((digitSet upper)[·]?) =
        ds.reverse.map some := by
    rw [List.map_map]
    apply List.map_congr_left
    exact fun b member => List.getElem?_idxOf
      (List.mem_of_mem_take (digits b (List.mem_reverse.mp member)))
  have places := Nat.ofDigits_inj_of_len_eq radix (by simp [length]) digits.places_lt
    digits'.places_lt value
  have same : a.reverse.map some = b.reverse.map some := by
    rw [← unread digits, ← unread digits', places]
  exact List.reverse_injective (List.map_injective_iff.mpr (Option.some_injective _) same)

/-- Digits in front of which no zero stands are as many as the number has significant ones. -/
theorem IsDigits.length_eq {base : Nat} (radix : 1 < base) {upper : Bool} {ds : Bytes}
    (digits : IsDigits base upper ds) (noZero : ds.head? ≠ some (byte '0')) :
    ds.length = (base.digits (readDigits base upper ds)).length := by
  have first : ∀ b ∈ digitSet upper, (digitSet upper).idxOf b = 0 → b = byte '0' := by
    cases upper <;> decide +kernel
  have unread := Nat.digits_ofDigits base radix
    (ds.reverse.map fun b => (digitSet upper).idxOf b) digits.places_lt ?_
  · rw [readDigits, unread, List.length_map, List.length_reverse]
  · intro full zero
    have some : ds ≠ [] := by
      rintro rfl
      exact full rfl
    obtain ⟨b, rest, rfl⟩ := List.exists_cons_of_ne_nil some
    rw [List.getLast_map, List.getLast_reverse] at zero
    have digit := List.mem_of_mem_take (digits b List.mem_cons_self)
    exact noZero (congrArg Option.some (first b digit zero))

/-- Digits without the zeros in front of them spell the same number. -/
theorem readDigits_dropWhile (base : Nat) (upper : Bool) (ds : Bytes) :
    readDigits base upper (ds.dropWhile (· == byte '0')) = readDigits base upper ds := by
  induction ds with
  | nil => rfl
  | cons b ds ih =>
    rw [List.dropWhile_cons]
    split
    · next zero =>
      have single : readDigits base upper [b] = 0 := by
        rw [eq_of_beq zero]
        exact readDigits_zeros base upper 1
      rw [ih, ← List.singleton_append, readDigits_append, single, Nat.zero_mul, Nat.zero_add]
    · rfl

/-- How many digits there are from the first that is not zero. -/
theorem IsDigits.length_significant {base : Nat} (radix : 1 < base) {upper : Bool} {ds : Bytes}
    (digits : IsDigits base upper ds) :
    (ds.dropWhile (· == byte '0')).length = (base.digits (readDigits base upper ds)).length := by
  have kept : IsDigits base upper (ds.dropWhile (· == byte '0')) :=
    fun b member => digits b ((List.dropWhile_suffix _).subset member)
  rw [kept.length_eq radix, readDigits_dropWhile]
  intro zero
  have stop := Directive.stops_dropWhile (· == byte '0') ds _ zero
  cases stop

/-- A longest run of a class and what follows it can be told from the whole text. -/
theorem run_unique {p : UInt8 → Bool} {a a' b b' : Bytes} (all : ∀ x ∈ a, p x = true)
    (all' : ∀ x ∈ a', p x = true) (stops : Directive.Stops p b) (stops' : Directive.Stops p b')
    (same : a ++ b = a' ++ b') : a = a' ∧ b = b' := by
  obtain ⟨front, behind⟩ := stops.run all
  obtain ⟨front', behind'⟩ := stops'.run all'
  rw [same] at front behind
  exact ⟨front.symm.trans front', behind.symm.trans behind'⟩

theorem Exponent.text_injective {e f : Exponent} (same : e.text = f.text) : e = f := by
  obtain ⟨marker, negative, digits⟩ := e
  obtain ⟨marker', negative', digits'⟩ := f
  simp only [text, List.cons.injEq] at same
  obtain ⟨rfl, sign, rfl⟩ := same
  have minus : byte '-' ≠ byte '+' := by decide
  cases negative <;> cases negative' <;> simp_all [eq_comm]

namespace Numeral

variable {w : Positional} {t u : Numeral}

/-- What follows the digits of a numeral begins with neither a digit nor a point. -/
theorem WellFormed.stops (form : t.WellFormed w) :
    Directive.Stops (· ∈ byte '.' :: (digitSet w.upper).take w.base)
      (t.exponent.elim [] Exponent.text) := by
  intro b first
  cases letter : t.exponent with
  | none =>
    rw [letter] at first
    cases first
  | some e =>
    rw [letter] at first
    cases first
    apply decide_eq_false
    exact form.marker e letter

theorem WellFormed.stops_digits (form : t.WellFormed w) :
    Directive.Stops (· ∈ (digitSet w.upper).take w.base) (t.exponent.elim [] Exponent.text) := by
  intro b first
  have other := of_decide_eq_false (form.stops b first)
  exact decide_eq_false fun digit => other (List.mem_cons_of_mem _ digit)

theorem point_not_digit (base : Nat) (upper : Bool) : byte '.' ∉ (digitSet upper).take base := by
  intro member
  have other : byte '.' ∉ digitSet upper := by cases upper <;> decide
  exact other (List.mem_of_mem_take member)

theorem WellFormed.stops_whole (form : t.WellFormed w) :
    Directive.Stops (· ∈ (digitSet w.upper).take w.base) ((if t.point then [byte '.'] else []) ++
      (t.fraction ++ t.exponent.elim [] Exponent.text)) := by
  cases point : t.point with
  | true =>
    apply Directive.stops_cons.mpr
    exact decide_eq_false (point_not_digit _ _)
  | false =>
    have none : t.fraction = [] := by
      by_contra full
      rw [form.point full] at point
      cases point
    rw [none]
    exact form.stops_digits

theorem exponent_injective {e f : Option Exponent}
    (same : e.elim [] Exponent.text = f.elim [] Exponent.text) : e = f := by
  cases e with
  | none =>
    cases f with
    | none => rfl
    | some f => cases same
  | some e =>
    cases f with
    | none => cases same
    | some f => exact congrArg some (Exponent.text_injective same)

/-- A text is that of one numeral at most. -/
theorem text_injective (form : t.WellFormed w) (form' : u.WellFormed w)
    (same : t.text = u.text) : t = u := by
  have digits (v : Numeral) (form : v.WellFormed w) (part : Bytes)
      (inside : ∀ b ∈ part, b ∈ v.whole ++ v.fraction) :
      ∀ b ∈ part, decide (b ∈ (digitSet w.upper).take w.base) = true :=
    fun b member => decide_eq_true (form.digits b (inside b member))
  obtain ⟨whole, rest⟩ := run_unique
    (digits t form t.whole fun _ => List.mem_append_left _)
    (digits u form' u.whole fun _ => List.mem_append_left _) form.stops_whole form'.stops_whole same
  have point : t.point = u.point := by
    -- a point on one side only would stand where the other side ends or has its exponent
    have apart {v v' : Numeral} (form' : v'.WellFormed w) (on : v.point = true)
        (off : v'.point = false) (same : (if v.point then [byte '.'] else []) ++
          (v.fraction ++ v.exponent.elim [] Exponent.text) =
          (if v'.point then [byte '.'] else []) ++
          (v'.fraction ++ v'.exponent.elim [] Exponent.text)) : False := by
      have none : v'.fraction = [] := by
        by_contra full
        rw [form'.point full] at off
        cases off
      have stop := form'.stops (byte '.')
      simp only [on, off, none, if_true, Bool.false_eq_true, if_false, List.nil_append] at same
      rw [← same] at stop
      simp at stop
    cases on : t.point <;> cases on' : u.point
    · rfl
    · exact (apart form on' on rest.symm).elim
    · exact (apart form' on on' rest).elim
    · rfl
  rw [point] at rest
  obtain ⟨fraction, exponent⟩ := run_unique
    (digits t form t.fraction fun _ => List.mem_append_right _)
    (digits u form' u.fraction fun _ => List.mem_append_right _) form.stops_digits
    form'.stops_digits (List.append_cancel_left rest)
  obtain ⟨_, _, _, _⟩ := t
  obtain ⟨_, _, _, _⟩ := u
  simp only [mk.injEq]
  exact ⟨whole, point, fraction, exponent_injective exponent⟩

end Numeral
end Printf
