import Printf.Proofs.Words

/-! Digits of a number written into a buffer from its end. The loop over the places of the buffer
stops at the front of it or when no digit is left. A word of 64 bits has at most 22 digits in bases
from eight on, so that the loop ends with no digit left and the buffer has room. -/
namespace Printf.Machine

def digitPlaces : Nat := 24

def digit (upper : Bool) (d : Nat) : Checked UInt8 :=
  if d < 10 then fitByte (48 + d) else do
    let letter ← sub d 10
    fitByte ((if upper then 65 else 97) + letter)

/-- A buffer that is filled down to a place, and what is left of the number then. -/
structure Filling where
  place : Nat
  left : Nat
  buffer : Bytes
  deriving DecidableEq, Repr

/-- Writes digits in front of a place, the last one first. -/
def fill (base : Nat) (upper : Bool) : (place left : Nat) → (buffer : Bytes) → Checked Filling
  | 0, left, buffer => .ok ⟨0, left, buffer⟩
  | place + 1, left, buffer =>
    if left = 0 then .ok ⟨place + 1, left, buffer⟩ else do
      let byte ← digit upper (left % base)
      let buffer ← store buffer place byte
      fill base upper place (left / base) buffer

def fillDigits (base : Nat) (upper : Bool) (n : Nat) : Checked Filling := do
  let buffer := List.replicate digitPlaces 0
  if n = 0 then
    let place ← sub digitPlaces 1
    return ⟨place, 0, ← store buffer place (byte '0')⟩
  else fill base upper digitPlaces n buffer

def digitText (base : Nat) (upper : Bool) (n : Nat) : Checked Bytes := do
  let filling ← fillDigits base upper n
  let count ← sub digitPlaces filling.place
  behind filling.buffer (← sub digitPlaces count)

theorem digit_ok (upper : Bool) {d : Nat} (small : d < 16) :
    digit upper d = .ok (Radix.digitByte upper d) := by
  rw [digit, Radix.digitByte]
  by_cases decimal : d < 10
  · rw [if_pos decimal, if_pos decimal, fitByte_ok (by omega)]
  · have letter : (if upper then 65 else 97) + (d - 10) = (if upper then 55 else 87) + d := by
      cases upper <;> simp only [Bool.false_eq_true, if_true, if_false] <;> omega
    have byte : (if upper then 55 else 87) + d < 256 := by
      cases upper <;> simp only [Bool.false_eq_true, if_true, if_false] <;> omega
    rw [if_neg decimal, if_neg decimal, sub_ok (Nat.le_of_not_lt decimal), ok_bind, letter,
      fitByte_ok byte]

theorem drop_set {buffer : Bytes} {i : Nat} {b : UInt8} (inside : i < buffer.length) :
    (buffer.set i b).drop i = b :: buffer.drop (i + 1) := by
  rw [List.drop_eq_getElem_cons (by rwa [List.length_set]), List.getElem_set_self,
    List.drop_set_of_lt (Nat.lt_succ_self i)]

/-- A loop with places enough writes all digits and leaves none. -/
theorem fill_ok {base : Nat} (least : 2 ≤ base) (most : base ≤ 16) (upper : Bool)
    {place n : Nat} {buffer : Bytes} (inside : place ≤ buffer.length)
    (enough : Radix.size base n ≤ place) :
    fill base upper place n buffer = .ok
      ⟨place - Radix.size base n, 0, buffer.take (place - Radix.size base n) ++
        ((Radix.significant base n).map (Radix.digitByte upper) ++ buffer.drop place)⟩ := by
  induction place generalizing n buffer with
  | zero =>
    have none : n = 0 := by
      by_contra some
      exact absurd (Radix.size_pos least (Nat.pos_of_ne_zero some)) (by omega)
    simp [fill, none, Radix.size]
  | succ place ih =>
    rw [fill]
    by_cases none : n = 0
    · simp [none, Radix.size]
    · have positive := Nat.pos_of_ne_zero none
      have size : Radix.size base n = Radix.size base (n / base) + 1 := by
        rw [Radix.size, dif_pos ⟨least, positive⟩]
      have digits : Radix.significant base n =
          Radix.significant base (n / base) ++ [n % base] := by
        rw [Radix.significant, dif_pos ⟨least, positive⟩]
      have last : n % base < 16 := Nat.lt_of_lt_of_le (Nat.mod_lt n (by omega)) most
      rw [if_neg none, digit_ok upper last, ok_bind, store_ok _ inside, ok_bind,
        ih (by rw [List.length_set]; omega) (by omega), size, digits]
      have front : place + 1 - (Radix.size base (n / base) + 1) =
        place - Radix.size base (n / base) := by omega
      rw [front, List.take_set_of_le (by omega), drop_set inside, List.map_append,
        List.append_assoc]
      rfl

/-- The digits of a word with digits in base eight or a greater one. -/
theorem size_le_places {base : Nat} (least : 8 ≤ base) {n : Nat} (word : n < 2 ^ 64) :
    Radix.size base n ≤ 22 := by
  rw [Radix.size_eq (by omega)]
  apply (Nat.digits_length_le_iff (by omega) n).mpr
  calc n < 8 ^ 22 := Nat.lt_trans word (by decide)
    _ ≤ base ^ 22 := Nat.pow_le_pow_left least 22

/-- The digits of a word are its last ones in the buffer, and none is left out. -/
theorem fillDigits_ok {base : Nat} (least : 8 ≤ base) (most : base ≤ 16) (upper : Bool) {n : Nat}
    (word : n < 2 ^ 64) : ∃ filling, fillDigits base upper n = .ok filling ∧ filling.left = 0 ∧
      filling.place + (Radix.numeral base n).length = digitPlaces ∧
      (Radix.numeral base n).length ≤ 22 ∧ filling.buffer.length = digitPlaces ∧
      filling.buffer.drop filling.place = Radix.text base upper n := by
  have few := size_le_places least word
  by_cases zero : n = 0
  · subst zero
    exact ⟨_, rfl, rfl, rfl, Nat.le_of_ble_eq_true rfl, rfl, rfl⟩
  · have numeral : Radix.numeral base n = Radix.significant base n := if_neg zero
    have length := Radix.length_significant base n
    have room : digitPlaces ≤ (List.replicate digitPlaces (0 : UInt8)).length :=
      Nat.le_of_eq List.length_replicate.symm
    have enough : Radix.size base n ≤ digitPlaces := few.trans (by decide)
    have filled := fill_ok (by omega) most upper room enough
    refine ⟨_, (if_neg zero).trans filled, rfl, ?_, ?_, ?_, ?_⟩
    · rw [numeral, length]
      exact Nat.sub_add_cancel (Nat.le_trans few (by decide))
    · rw [numeral, length]
      exact few
    · simp [digitPlaces, length]
      omega
    · rw [Radix.text, numeral]
      simp [digitPlaces]

/-- A word has at most 22 digits. -/
theorem length_text {base : Nat} (least : 8 ≤ base) (most : base ≤ 16) (upper : Bool) {n : Nat}
    (word : n < 2 ^ 64) : (Radix.text base upper n).length ≤ 22 := by
  obtain ⟨-, -, -, -, few, -⟩ := fillDigits_ok least most upper word
  rwa [Radix.text, List.length_map]

theorem length_decimal_le {n : Nat} (word : n < 2 ^ 64) : (Radix.decimal n).length ≤ 22 :=
  length_text (by decide) (by decide) false word

theorem digitText_ok {base : Nat} (least : 8 ≤ base) (most : base ≤ 16) (upper : Bool) {n : Nat}
    (word : n < 2 ^ 64) : digitText base upper n = .ok (Radix.text base upper n) := by
  obtain ⟨filling, filled, -, count, few, size, text⟩ := fillDigits_ok least most upper word
  have place : digitPlaces - (digitPlaces - filling.place) = filling.place := by omega
  rw [digitText, filled, ok_bind, sub_ok (by omega), ok_bind, sub_ok (Nat.sub_le _ _), ok_bind,
    place, behind_ok (by omega), text]

theorem digitText_decimal {n : Nat} (word : n < 2 ^ 64) :
    digitText 10 false n = .ok (Radix.decimal n) :=
  digitText_ok (by decide) (by decide) false word

end Printf.Machine
