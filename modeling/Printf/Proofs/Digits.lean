import Mathlib.Data.Nat.Digits.Lemmas
import Printf.Proofs.Grammar
import Printf.Text.Digits

/-! Digits of numbers as bytes and as characters. The decimal text of a number is a run of digits that
reads back as the number, and only that of zero begins with a zero, unless zeros fill it up to a
width. -/
namespace Printf

theorem isDigit_apart {b c : UInt8} (digit : isDigit b = true) (other : isDigit c = false) :
    b ≠ c := by
  rintro rfl
  rw [digit] at other
  cases other

theorem not_mem_of_isDigit {b : UInt8} {bs : Bytes} (digit : isDigit b = true)
    (apart : bs.all (!isDigit ·) = true) : b ∉ bs := by
  intro member
  have other := List.all_eq_true.mp apart b member
  rw [digit] at other
  cases other

namespace Radix

theorem numeral_lt {b : Nat} (base : 2 ≤ b) (n : Nat) : ∀ d ∈ numeral b n, d < b := by
  intro d member
  rw [numeral] at member
  split at member
  · rw [List.mem_singleton] at member
    omega
  · exact significant_lt b n d member

theorem value_numeral {b : Nat} (base : 2 ≤ b) (n : Nat) : value b (numeral b n) = n := by
  rw [numeral]
  split
  · next zero => rw [zero, value, List.foldl_cons, List.foldl_nil, Nat.zero_mul]
  · exact value_significant b n base

/-- Significant digits are those of the number, the highest first. -/
theorem significant_eq {b : Nat} (base : 2 ≤ b) (n : Nat) :
    significant b n = (b.digits n).reverse := by
  induction n using Nat.strongRecOn with
  | ind n ih =>
    rw [significant]
    split
    · next h =>
      rw [ih _ (Nat.div_lt_self h.2 h.1), Nat.digits_of_two_le_of_pos base h.2, List.reverse_cons]
    · next h =>
      have zero : n = 0 := by omega
      rw [zero, Nat.digits_zero, List.reverse_nil]

theorem size_eq {b : Nat} (base : 2 ≤ b) (n : Nat) : size b n = (b.digits n).length := by
  rw [← length_significant, significant_eq base, List.length_reverse]

theorem lt_pow_size {b : Nat} (base : 2 ≤ b) (n : Nat) : n < b ^ size b n := by
  rw [size_eq base]
  exact Nat.lt_base_pow_length_digits base

theorem size_pos {b n : Nat} (base : 2 ≤ b) (positive : 0 < n) : 0 < size b n := by
  rw [size, dif_pos ⟨base, positive⟩]
  exact Nat.succ_pos _

theorem pow_size_le {b n : Nat} (base : 2 ≤ b) (positive : 0 < n) : b ^ (size b n - 1) ≤ n := by
  have times := Nat.base_pow_length_digits_le b n base positive.ne'
  rw [← size_eq base, ← Nat.sub_add_cancel (size_pos base positive), Nat.pow_succ'] at times
  exact Nat.le_of_mul_le_mul_left times (by omega)

theorem length_numeral {b : Nat} (base : 2 ≤ b) (n : Nat) :
    (numeral b n).length = max 1 (b.digits n).length := by
  rw [numeral]
  split
  · next zero => simp [zero]
  · next positive =>
    have some := List.length_pos_iff.mpr (Nat.digits_ne_nil_iff_ne_zero (b := b).mpr positive)
    rw [significant_eq base, List.length_reverse]
    omega

theorem significant_ne_nil {b n : Nat} (base : 2 ≤ b) (positive : 0 < n) :
    significant b n ≠ [] := by
  rw [significant, dif_pos ⟨base, positive⟩]
  exact List.append_ne_nil_of_right_ne_nil _ (List.cons_ne_nil _ _)

theorem numeral_ne_nil {b : Nat} (base : 2 ≤ b) (n : Nat) : numeral b n ≠ [] := by
  rw [numeral]
  split
  · exact List.cons_ne_nil _ _
  · next positive => exact significant_ne_nil base (Nat.pos_of_ne_zero positive)

theorem head_significant {b : Nat} (base : 2 ≤ b) (n : Nat) :
    (significant b n).head? ≠ some 0 := by
  induction n using Nat.strongRecOn with
  | ind n ih =>
    rw [significant]
    split
    · next h =>
      by_cases last : n / b = 0
      · have small : n % b = n := Nat.mod_eq_of_lt ((Nat.div_eq_zero_iff_lt (by omega)).mp last)
        rw [last, significant_zero, small]
        simp only [List.nil_append, List.head?_cons, ne_eq, Option.some.injEq]
        omega
      · rw [List.head?_append_of_ne_nil _
          (significant_ne_nil base (Nat.pos_of_ne_zero last))]
        exact ih _ (Nat.div_lt_self h.2 h.1)
    · simp

theorem digitByte_decimal :
    ∀ d < 10, isDigit (digitByte false d) = true ∧ digitOf (digitByte false d) = d := by
  decide

theorem isDigit_decimal (n : Nat) : ∀ b ∈ decimal n, isDigit b = true := by
  intro b member
  obtain ⟨d, digit, rfl⟩ := List.mem_map.mp member
  exact (digitByte_decimal d (numeral_lt (by decide) n d digit)).1

theorem decimal_ne_nil (n : Nat) : decimal n ≠ [] := by
  simpa [decimal, text] using numeral_ne_nil (by decide) n

theorem digitOf_decimal (n : Nat) : (decimal n).map digitOf = numeral 10 n := by
  rw [decimal, text, List.map_map]
  refine (List.map_congr_left fun d digit => ?_).trans (List.map_id _)
  exact (digitByte_decimal d (numeral_lt (by decide) n d digit)).2

theorem head_decimal {n : Nat} (positive : 0 < n) : (decimal n).head? ≠ some (byte '0') := by
  intro zero
  have digits : numeral 10 n = significant 10 n := if_neg (Nat.ne_of_gt positive)
  have first : (numeral 10 n).head? = some 0 := by
    rw [← digitOf_decimal, List.head?_map, zero]
    rfl
  exact head_significant (by decide) n (digits ▸ first)

theorem head_decimal_iff (n : Nat) : (decimal n).head? = some (byte '0') ↔ n = 0 := by
  constructor
  · intro zero
    by_contra positive
    exact head_decimal (Nat.pos_of_ne_zero positive) zero
  · rintro rfl
    rfl

theorem value_cons (b d : Nat) (ds : List Nat) :
    value b (d :: ds) = d * b ^ ds.length + value b ds := by
  rw [Directive.value_ofDigits, Directive.value_ofDigits, List.reverse_cons, Nat.ofDigits_append,
    Nat.ofDigits_singleton, List.length_reverse, Nat.add_comm, Nat.mul_comm]

theorem value_lt {b : Nat} (base : 1 < b) {ds : List Nat} (small : ∀ d ∈ ds, d < b) :
    value b ds < b ^ ds.length := by
  rw [Directive.value_ofDigits, ← List.length_reverse]
  exact Nat.ofDigits_lt_base_pow_length base fun d digit => small d (List.mem_reverse.mp digit)

theorem digitChar_decimal : ∀ d < 10,
    Text.isDecimal (digitChar d) = true ∧ Text.decimalValue (digitChar d) = d := by decide

theorem isDecimal_digitChars {ds : List Nat} (small : ∀ d ∈ ds, d < 10) :
    ∀ c ∈ ds.map digitChar, Text.isDecimal c = true :=
  List.forall_mem_map.mpr fun d digit => (digitChar_decimal d (small d digit)).1

/-- Decimal digits are read back from their characters. -/
theorem decimalValues_digitChars {ds : List Nat} (small : ∀ d ∈ ds, d < 10) :
    (ds.map digitChar).map Text.decimalValue = ds := by
  rw [List.map_map]
  exact (List.map_congr_left fun d digit => (digitChar_decimal d (small d digit)).2).trans
    (List.map_id _)

theorem isDecimal_decimalText (n : Nat) :
    ∀ c ∈ (decimalText n).toList, Text.isDecimal c = true := by
  rw [decimalText, String.toList_ofList]
  exact isDecimal_digitChars (numeral_lt (by decide) n)

theorem decimalText_injective : Function.Injective decimalText := by
  have read (n : Nat) : value 10 ((decimalText n).toList.map Text.decimalValue) = n := by
    rw [decimalText, String.toList_ofList,
      decimalValues_digitChars (numeral_lt (by decide) n), value_numeral (by decide)]
  exact fun n m same => by rw [← read n, same, read]

def paddedDigits (width n : Nat) : List Nat :=
  List.replicate (width - (numeral 10 n).length) 0 ++ numeral 10 n

theorem toList_paddedText (width n : Nat) :
    (paddedText width n).toList = (paddedDigits width n).map digitChar := String.toList_ofList

theorem paddedDigits_lt (width n : Nat) : ∀ d ∈ paddedDigits width n, d < 10 := by
  intro d member
  rcases List.mem_append.mp member with zero | digit
  · rw [List.eq_of_mem_replicate zero]
    decide
  · exact numeral_lt (by decide) n d digit

theorem value_paddedDigits (width n : Nat) : value 10 (paddedDigits width n) = n := by
  have zeros (k : Nat) : (List.replicate k 0).foldl (fun v d => v * 10 + d) 0 = 0 := by
    induction k with
    | zero => rfl
    | succ k ih => exact ih
  rw [value, paddedDigits, List.foldl_append, zeros]
  exact value_numeral (by decide) n

theorem length_paddedDigits (width n : Nat) :
    (paddedDigits width n).length = max width (max 1 (Nat.digits 10 n).length) := by
  rw [paddedDigits, List.length_append, List.length_replicate, length_numeral (by decide)]
  omega

end Radix

theorem Directive.decimalValue_decimal (n : Nat) : decimalValue (Radix.decimal n) = n := by
  rw [decimalValue, List.map_reverse, ← value_ofDigits, Radix.digitOf_decimal]
  exact Radix.value_numeral (by decide) n

end Printf
