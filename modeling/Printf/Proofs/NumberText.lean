import Printf.Float
import Printf.Proofs.Digits

/-! What the texts of numbers begin with and consist of. Reshaping a plain text keeps its first
digit in front and adds only points, zeros, and the letter, sign and digits of an exponent. No text
of a number has a sign in front of its digits or an x among them, so that its sign and its radix
mark can be told from the text. -/
namespace Printf

/-- Bytes that are no part of a radix mark behind its zero. -/
def Plain (b : UInt8) : Prop := b ∉ utf8 "xX"

instance (b : UInt8) : Decidable (Plain b) := inferInstanceAs (Decidable (b ∉ utf8 "xX"))

namespace Radix

theorem lastDigits_lt {b : Nat} (base : 0 < b) (width n : Nat) :
    ∀ d ∈ lastDigits b width n, d < b := by
  induction width generalizing n with
  | zero => simp [lastDigits]
  | succ width ih =>
    intro d member
    rcases List.mem_append.mp member with higher | last
    · exact ih _ d higher
    · rw [List.mem_singleton] at last
      exact last ▸ Nat.mod_lt n base

theorem digitByte_plain :
    ∀ d < 16, ∀ upper, Plain (digitByte upper d) ∧ digitByte upper d ∉ utf8 "-+ " := by
  decide

theorem decimal_plain (n : Nat) : ∀ b ∈ decimal n, Plain b :=
  fun b member => not_mem_of_isDigit (isDigit_decimal n b member) (by decide)

end Radix

namespace Decimal

theorem pointed_plain (n places : Nat) : ∀ b ∈ pointed n places, Plain b := by
  intro b member
  rcases List.mem_append.mp member with whole | behind
  · exact Radix.decimal_plain _ b whole
  · split at behind
    · cases behind
    · rcases List.mem_cons.mp behind with rfl | digit
      · decide
      · obtain ⟨d, last, rfl⟩ := List.mem_map.mp digit
        have small := Radix.lastDigits_lt (by decide) places n d last
        exact (Radix.digitByte_plain d (by omega) false).1

theorem pointed_digit (n places : Nat) :
    ∃ b rest, pointed n places = b :: rest ∧ isDigit b = true := by
  obtain ⟨b, digits, whole⟩ :=
    List.exists_cons_of_ne_nil (Radix.decimal_ne_nil (n / Nat.pow 10 places))
  have digit := Radix.isDigit_decimal _ b (whole ▸ List.mem_cons_self)
  exact ⟨b, _, by rw [pointed, whole, List.cons_append], digit⟩

theorem scientificText_plain (r : Ratio) (places : Nat) :
    ∀ b ∈ scientificText r places, Plain b := by
  intro b member
  rcases List.mem_append.mp member with front | exponent
  · rcases List.mem_append.mp front with mantissa | mark
    · exact pointed_plain _ _ b mantissa
    · rcases List.mem_cons.mp mark with rfl | sign
      · decide
      · split at sign
        · rw [List.mem_singleton] at sign
          subst sign
          decide
        · cases sign
  · exact Radix.decimal_plain _ b exponent

theorem scientificText_digit (r : Ratio) (places : Nat) :
    ∃ b rest, scientificText r places = b :: rest ∧ isDigit b = true := by
  obtain ⟨b, rest, mantissa, digit⟩ := pointed_digit (scientific r places).digits places
  exact ⟨b, _, by rw [scientificText, mantissa]; rfl, digit⟩

end Decimal

namespace Reshape

/-- The first digit of a text is written at once. -/
theorem feed_digit (o : Options) {b : UInt8} (digit : isDigit b = true) :
    Output.toList (feed o {} b).1 = [b] := by
  have noMark : ¬(b = byte 'e' ∨ b = byte 'E') :=
    not_or.mpr ⟨isDigit_apart digit (by decide), isDigit_apart digit (by decide)⟩
  have noPoint : b ≠ byte '.' := isDigit_apart digit (by decide)
  simp [feed, noMark, noPoint, State.held, Chunk.toList]

theorem reshape_digit (o : Options) {b : UInt8} (digit : isDigit b = true) (rest : Bytes) :
    ∃ behind, Output.toList (reshape o (b :: rest)) = b :: behind := by
  simp only [reshape, feedAll, Output.toList_append, feed_digit o digit]
  exact ⟨_, rfl⟩

/-- Both held and final text of a fraction is a point, or none, and zeros. -/
theorem pointZeros_plain (point : Bool) (zeros : Nat) :
    ∀ b ∈ Output.toList [.text (if point then [byte '.'] else []), .fill zeros (byte '0')],
      Plain b := by
  intro b member
  simp only [Output.toList_cons, Output.toList_nil, Chunk.toList, List.append_nil,
    List.mem_append, List.mem_replicate] at member
  rcases member with point | ⟨-, rfl⟩
  · split at point
    · rw [List.mem_singleton.mp point]
      decide
    · cases point
  · decide

theorem feed_plain (o : Options) (s : State) {b : UInt8} (plain : Plain b) :
    ∀ x ∈ Output.toList (feed o s b).1, Plain x := by
  have own : ∀ x ∈ Output.toList [Chunk.text [b]], Plain x := by
    simpa [Chunk.toList] using plain
  intro x member
  unfold feed at member
  split at member
  · split at member
    · cases member
    · split at member <;> cases member
  · split at member
    · exact pointZeros_plain _ _ x member
    · split at member
      · split at member
        · cases member
        · exact own x member
      · split at member
        · cases member
        · rw [Output.toList_append] at member
          rcases List.mem_append.mp member with held | now
          · exact pointZeros_plain _ _ x held
          · exact own x now

theorem feedAll_plain (o : Options) (s : State) {text : Bytes} (plain : ∀ b ∈ text, Plain b) :
    ∀ x ∈ Output.toList (feedAll o s text).1, Plain x := by
  induction text generalizing s with
  | nil => intro x member; cases member
  | cons b text ih =>
    intro x member
    rw [feedAll, Output.toList_append] at member
    rcases List.mem_append.mp member with now | later
    · exact feed_plain o s (plain b List.mem_cons_self) x now
    · exact ih _ (fun y inside => plain y (List.mem_cons_of_mem _ inside)) x later

theorem finish_plain (o : Options) (s : State) (marker : ∀ m ∈ o.marker, Plain m) :
    ∀ x ∈ Output.toList (finish o s), Plain x := by
  intro x member
  rw [finish, Output.toList_append] at member
  rcases List.mem_append.mp member with mantissa | exponent
  · split at mantissa
    · cases mantissa
    · exact pointZeros_plain _ _ x mantissa
  · split at exponent
    · cases exponent
    · next m found =>
      simp only [Output.toList_cons, Output.toList_nil, Chunk.toList, List.append_nil,
        List.mem_append, List.mem_cons, List.not_mem_nil, or_false] at exponent
      rcases exponent with ((rfl | sign) | zero) | digit
      · exact marker x found
      · split at sign <;> (subst sign; decide)
      · split at zero
        · rw [List.mem_singleton.mp zero]
          decide
        · cases zero
      · exact Radix.decimal_plain _ x digit

theorem reshape_plain (o : Options) {text : Bytes} (plain : ∀ b ∈ text, Plain b)
    (marker : ∀ m ∈ o.marker, Plain m) : ∀ x ∈ Output.toList (reshape o text), Plain x := by
  intro x member
  rw [reshape, Output.toList_append] at member
  rcases List.mem_append.mp member with written | ending
  · exact feedAll_plain o {} plain x written
  · exact finish_plain o _ marker x ending

end Reshape
end Printf
