import Printf.Json.Parser
import Printf.Json.Printer
import Printf.Proofs.Digits

/-! Strings and numbers of JSON texts read back. A string is read up to its closing quote whatever
characters it holds. A number is read back in front of any text that does not continue it, if it is
read back alone; every integer of 64 bits is. -/
namespace Printf.Json

open Text (isDecimal spanDigits decimalValue)

def codeOf (c : Char) : Code :=
  if c = '\x08' ∨ c = '\x0c' ∨ c = '\n' ∨ c = '\r' ∨ c = '\t' then .char c
  else if c.toNat < 32 then .unit c.toNat else .char c

theorem hexValue?_digitChar : ∀ d < 16, hexValue? (Radix.digitChar d) = some d := by decide

theorem readUnit_lastDigits (n : Nat) (rest : List Char) :
    readUnit ((Radix.lastDigits 16 4 n).map Radix.digitChar ++ rest) = .ok (n % 65536, rest) := by
  have digit (m : Nat) : hexValue? (Radix.digitChar (m % 16)) = some (m % 16) :=
    hexValue?_digitChar _ (Nat.mod_lt _ (by decide))
  simp only [Radix.lastDigits, List.nil_append, List.cons_append, List.map_cons, List.map_nil,
    readUnit, digit]
  congr 2
  omega

theorem readCodes_escape (c : Char) (rest : List Char) :
    readCodes (escape c ++ rest) = (codeOf c :: (readCodes rest).1, (readCodes rest).2) := by
  by_cases quote : c = '"'
  · subst quote; simp [escape, readCodes, escaped?, codeOf]
  by_cases backslash : c = '\\'
  · subst backslash; simp [escape, readCodes, escaped?, codeOf]
  by_cases letter : c = '\x08' ∨ c = '\x0c' ∨ c = '\n' ∨ c = '\r' ∨ c = '\t'
  · rcases letter with rfl | rfl | rfl | rfl | rfl <;> simp [escape, readCodes, escaped?, codeOf]
  · have plain : codeOf c = if c.toNat < 32 then .unit c.toNat else .char c := if_neg letter
    simp only [not_or] at letter
    obtain ⟨h1, h2, h3, h4, h5⟩ := letter
    by_cases control : c.toNat < 32
    · have unit := readUnit_lastDigits c.toNat rest
      rw [Nat.mod_eq_of_lt (by omega)] at unit
      simp only [escape, quote, backslash, h1, h2, h3, h4, h5, control, plain, if_true, if_false]
      rw [List.cons_append, List.cons_append, readCodes]
      split
      · next bad => rw [unit] at bad; cases bad
      · next ok => rw [unit] at ok; cases ok; rfl
    · simp only [escape, quote, backslash, h1, h2, h3, h4, h5, control, plain, if_false]
      rw [List.singleton_append, readCodes, if_neg control]
      · exact quote
      · exact fun same => absurd same backslash
      · exact fun _ same => absurd same backslash
      · exact fun _ _ same => absurd same backslash

theorem readCodes_escaped (cs rest : List Char) :
    readCodes (cs.flatMap escape ++ '"' :: rest) = (cs.map codeOf, .ok rest) := by
  induction cs with
  | nil => simp [readCodes]
  | cons c cs ih => rw [List.flatMap_cons, List.append_assoc, readCodes_escape, ih, List.map_cons]

theorem decodeCodes_unit {n : Nat} (low : n < 32) (codes : List Code) (close : Except Flaw Unit) :
    decodeCodes (.unit n :: codes) close = (decodeCodes codes close).map (Char.ofNat n :: ·) := by
  have apart : isTrail n = false ∧ isLead n = false := by
    simp only [isTrail, isLead, Bool.and_eq_false_iff, decide_eq_false_iff_not]
    omega
  rw [decodeCodes.eq_def]
  simp [apart]

theorem decodeCodes_map (cs : List Char) : decodeCodes (cs.map codeOf) (.ok ()) = .ok cs := by
  induction cs with
  | nil => rfl
  | cons c cs ih =>
    rw [List.map_cons, codeOf]
    split
    · rw [decodeCodes, ih]; rfl
    · split
      · next control =>
        rw [decodeCodes_unit control, ih, Char.ofNat_toNat]
        rfl
      · rw [decodeCodes, ih]; rfl

theorem readString_escaped (s : String) (rest : List Char) :
    readString (s.toList.flatMap escape ++ '"' :: rest) = ⟨.ok s, .ok rest⟩ := by
  have decoded : decodeCodes (s.toList.map codeOf) (discard (.ok rest : Rest)) = .ok s.toList :=
    decodeCodes_map s.toList
  simp only [readString, readCodes_escaped, decoded, Except.map, String.ofList_toList]

/-- A text that does not continue a number in front of it. -/
def Ends (rest : List Char) : Prop :=
  ∀ c ∈ rest.head?, isDecimal c = false ∧ c ≠ '.' ∧ c ≠ 'e' ∧ c ≠ 'E'

theorem ends_cons {c : Char} {rest : List Char} :
    Ends (c :: rest) ↔ isDecimal c = false ∧ c ≠ '.' ∧ c ≠ 'e' ∧ c ≠ 'E' := by simp [Ends]

variable {cs left rest : List Char}

theorem spanDigits_append (cs : List Char) (ends : Ends rest) :
    spanDigits (cs ++ rest) = ((spanDigits cs).1, (spanDigits cs).2 ++ rest) := by
  induction cs with
  | nil =>
    cases rest with
    | nil => rfl
    | cons c rest => simp [spanDigits, (ends_cons.mp ends).1]
  | cons c cs ih =>
    simp only [spanDigits, Prod.mk.injEq] at ih
    by_cases digit : isDecimal c = true
    · simp [spanDigits, digit, ih]
    · simp [spanDigits, digit]

theorem readWhole_append {ds : List Nat} (read : readWhole cs = .ok (ds, left))
    (ends : Ends rest) : readWhole (cs ++ rest) = .ok (ds, left ++ rest) := by
  simp only [readWhole, spanDigits_append cs ends] at read ⊢
  generalize spanDigits cs = span at read ⊢
  obtain ⟨_ | ⟨_ | d, _ | ⟨e, ds⟩⟩, behind⟩ := span <;> cases read <;> rfl

theorem readFraction_append {ds : List Nat} (read : readFraction cs = .ok (ds, left))
    (ends : Ends rest) : readFraction (cs ++ rest) = .ok (ds, left ++ rest) := by
  cases cs with
  | nil =>
    cases read
    cases rest with
    | nil => rfl
    | cons c rest => simp [readFraction, (ends_cons.mp ends).2.1]
  | cons c cs =>
    by_cases point : c = '.'
    · subst point
      simp only [List.cons_append, readFraction, spanDigits_append cs ends] at read ⊢
      generalize spanDigits cs = span at read ⊢
      obtain ⟨_ | ⟨d, ds⟩, behind⟩ := span
      · cases read
      · cases read
        rfl
    · have other (cs : List Char) : readFraction (c :: cs) = .ok ([], c :: cs) := by
        simp [readFraction, point]
      rw [other] at read
      rw [List.cons_append, other]
      cases read
      rfl

theorem readExponentDigits_append {negative : Bool} {exponent : Option Int}
    (read : readExponentDigits negative cs = .ok (exponent, left)) (ends : Ends rest) :
    readExponentDigits negative (cs ++ rest) = .ok (exponent, left ++ rest) := by
  simp only [readExponentDigits, spanDigits_append cs ends] at read ⊢
  generalize spanDigits cs = span at read ⊢
  obtain ⟨_ | ⟨d, ds⟩, behind⟩ := span
  · cases read
  · cases read
    rfl

theorem readExponent_append {exponent : Option Int} (read : readExponent cs = .ok (exponent, left))
    (ends : Ends rest) : readExponent (cs ++ rest) = .ok (exponent, left ++ rest) := by
  cases cs with
  | nil =>
    cases read
    cases rest with
    | nil => rfl
    | cons c rest => simp [readExponent, (ends_cons.mp ends).2.2]
  | cons c cs =>
    by_cases mark : (c == 'e' || c == 'E') = true
    · cases cs with
      | nil => simp [readExponent, mark, readExponentDigits, spanDigits] at read
      | cons d cs =>
        by_cases minus : d = '-'
        · subst minus
          simp only [List.cons_append, readExponent, mark, if_true] at read ⊢
          exact readExponentDigits_append read ends
        by_cases plus : d = '+'
        · subst plus
          simp only [List.cons_append, readExponent, mark, if_true] at read ⊢
          exact readExponentDigits_append read ends
        · have digits (cs : List Char) :
              readExponent (c :: d :: cs) = readExponentDigits false (d :: cs) := by
            simp only [readExponent, mark, if_true]
            split
            · next same => cases same; exact absurd rfl minus
            · next same => cases same; exact absurd rfl plus
            · rfl
          rw [digits] at read
          rw [List.cons_append, List.cons_append, digits]
          exact readExponentDigits_append read ends
    · simp only [List.cons_append, readExponent, mark] at read ⊢
      cases read
      rfl

theorem bind_ok {ε α β} {x : Except ε α} {f : α → Except ε β} {b : β} :
    (x >>= f) = .ok b ↔ ∃ a, x = .ok a ∧ f a = .ok b := by
  cases x <;> simp [bind, Except.bind]

def readUnsigned (negative : Bool) (cs : List Char) : Except Flaw (Literal × List Char) := do
  let (whole, cs) ← readWhole cs
  let (fraction, cs) ← readFraction cs
  let (exponent, cs) ← readExponent cs
  return ({ negative, whole, fraction, exponent }, cs)

theorem readLiteral_unsigned {c : Char} (plain : c ≠ '-') (cs : List Char) :
    readLiteral (c :: cs) = readUnsigned false (c :: cs) := by
  rw [readLiteral]
  · rfl
  · rintro _ ⟨⟩
    exact plain rfl

theorem readUnsigned_append {negative : Bool} {l : Literal}
    (read : readUnsigned negative cs = .ok (l, left)) (ends : Ends rest) :
    readUnsigned negative (cs ++ rest) = .ok (l, left ++ rest) := by
  simp only [readUnsigned, bind_ok, Prod.exists] at read ⊢
  obtain ⟨ds, _, whole, fs, _, fraction, e, _, exponent, literal⟩ := read
  cases literal
  exact ⟨ds, _, readWhole_append whole ends, fs, _, readFraction_append fraction ends, e, _,
    readExponent_append exponent ends, rfl⟩

theorem readLiteral_append {l : Literal} (read : readLiteral cs = .ok (l, left))
    (ends : Ends rest) : readLiteral (cs ++ rest) = .ok (l, left ++ rest) := by
  cases cs with
  | nil => simp [readLiteral, readWhole, spanDigits, bind, Except.bind] at read
  | cons c cs =>
    by_cases minus : c = '-'
    · subst minus
      have unsigned : readUnsigned true cs = .ok (l, left) := read
      exact readUnsigned_append unsigned ends
    · rw [readLiteral_unsigned minus] at read
      rw [List.cons_append, readLiteral_unsigned minus]
      exact readUnsigned_append read ends

def Number.ReadsBack (n : Number) : Prop := readNumber n.text = ⟨.ok n, .ok []⟩

theorem readNumber_append {n : Number} (read : readNumber cs = ⟨.ok n, .ok []⟩)
    (ends : Ends rest) : readNumber (cs ++ rest) = ⟨.ok n, .ok rest⟩ := by
  cases literal : readLiteral cs with
  | error flaw => simp [readNumber, literal] at read
  | ok found =>
    obtain ⟨l, left⟩ := found
    simp only [readNumber, literal, Scan.mk.injEq, Except.ok.injEq] at read
    obtain ⟨content, rfl⟩ := read
    simp only [readNumber, readLiteral_append literal ends, content, List.nil_append]

theorem spanDigits_digits {ds : List Nat} (small : ∀ d ∈ ds, d < 10) :
    spanDigits (ds.map Radix.digitChar) = (ds, []) := by
  induction ds with
  | nil => rfl
  | cons d ds ih =>
    rw [List.forall_mem_cons] at small
    obtain ⟨digit, value⟩ := Radix.digitChar_decimal d small.1
    have behind := ih small.2
    simp only [spanDigits, Prod.mk.injEq] at behind
    simp [spanDigits, digit, value, behind]

theorem readWhole_numeral (n : Nat) :
    readWhole ((Radix.numeral 10 n).map Radix.digitChar) = .ok (Radix.numeral 10 n, []) := by
  rw [readWhole, spanDigits_digits (Radix.numeral_lt (by decide) n)]
  by_cases zero : n = 0
  · rw [zero]
    rfl
  · have numeral : Radix.numeral 10 n = Radix.significant 10 n := if_neg zero
    have head := Radix.head_significant (b := 10) (by decide) n
    obtain ⟨d, ds, digits⟩ := List.exists_cons_of_ne_nil
      (Radix.significant_ne_nil (b := 10) (by decide) (Nat.pos_of_ne_zero zero))
    rw [digits] at head
    rw [numeral, digits]
    cases d with
    | zero => exact absurd rfl head
    | succ d => rfl

theorem readUnsigned_numeral (negative : Bool) (n : Nat) :
    readUnsigned negative ((Radix.numeral 10 n).map Radix.digitChar) =
      .ok ({ negative, whole := Radix.numeral 10 n }, []) := by
  simp [readUnsigned, readWhole_numeral, readFraction, readExponent, bind, Except.bind]
  rfl

/-- Digits only make a number greater. -/
theorem le_foldl_digits (ds : List Nat) (s : Nat) : s ≤ ds.foldl (fun v d => v * 10 + d) s := by
  induction ds generalizing s with
  | nil => exact Nat.le_refl s
  | cons d ds ih =>
    have more := ih (s * 10 + d)
    rw [List.foldl_cons]
    omega

theorem appendFitting_all {ds : List Nat} {s : Nat}
    (fits : ds.foldl (fun v d => v * 10 + d) s < UInt64.size) :
    appendFitting s ds = (ds.foldl (fun v d => v * 10 + d) s, []) := by
  induction ds generalizing s with
  | nil => rfl
  | cons d ds ih =>
    rw [List.foldl_cons] at fits ⊢
    have first := Nat.lt_of_le_of_lt (le_foldl_digits ds (s * 10 + d)) fits
    rw [appendFitting, if_pos first, ih fits]

theorem number?_numeral (negative : Bool) {n : Nat} (fits : n < UInt64.size) {v : Int}
    (integer : Literal.integer? negative n = some v) :
    Literal.number? { negative, whole := Radix.numeral 10 n } = some (.int v) := by
  have value : (Radix.numeral 10 n).foldl (fun v d => v * 10 + d) 0 = n :=
    Radix.value_numeral (by decide) n
  have appended := appendFitting_all (s := 0) (value ▸ fits)
  rw [value] at appended
  simp [Literal.number?, appended, integer]

/-- An integer that a machine word holds, with or without a sign. -/
def Number.IsWord : Number → Prop
  | .int v => Int64.minValue.toInt ≤ v ∧ v < UInt64.size
  | .float _ => False

theorem readLiteral_numeral (n : Nat) :
    readLiteral ((Radix.numeral 10 n).map Radix.digitChar) =
      .ok ({ negative := false, whole := Radix.numeral 10 n }, []) := by
  obtain ⟨d, ds, digits⟩ := List.exists_cons_of_ne_nil (Radix.numeral_ne_nil (b := 10) (by decide) n)
  have small : d < 10 := Radix.numeral_lt (by decide) n d (by rw [digits]; exact List.mem_cons_self)
  have plain : Radix.digitChar d ≠ '-' := by
    intro minus
    have digit := (Radix.digitChar_decimal d small).1
    rw [minus] at digit
    exact absurd digit (by decide)
  have unsigned := readUnsigned_numeral false n
  rw [digits, List.map_cons] at unsigned ⊢
  rw [readLiteral_unsigned plain, unsigned]

theorem Number.IsWord.readsBack {n : Number} (word : n.IsWord) : n.ReadsBack := by
  cases n with
  | float x => cases word
  | int v =>
    obtain ⟨low, high⟩ := word
    cases v with
    | ofNat k =>
      have fits : k < UInt64.size := by simpa using high
      have value : Literal.number? { negative := false, whole := Radix.numeral 10 k } =
          some (.int (.ofNat k)) := number?_numeral false fits rfl
      simp only [ReadsBack, text, Radix.integerText, Radix.decimalText, String.toList_ofList,
        readNumber, readLiteral_numeral, value]
    | negSucc k =>
      have fits : k + 1 < UInt64.size := by
        have lowest : Int64.minValue.toInt = -9223372036854775808 := by decide
        simp only [lowest, UInt64.size] at low ⊢
        omega
      have integer : Literal.integer? true (k + 1) = some (.negSucc k) := by
        have bound : Int64.minValue.toInt ≤ -((k + 1 : Nat) : Int) := low
        rw [Literal.integer?, if_pos rfl, if_pos ⟨Nat.succ_pos k, bound⟩]
        rfl
      have value : Literal.number? { negative := true, whole := Radix.numeral 10 (k + 1) } =
          some (.int (.negSucc k)) := number?_numeral true fits integer
      have literal : readLiteral ('-' :: (Radix.numeral 10 (k + 1)).map Radix.digitChar) =
          .ok ({ negative := true, whole := Radix.numeral 10 (k + 1) }, []) :=
        readUnsigned_numeral true (k + 1)
      have minus : "-".toList = ['-'] := rfl
      simp only [ReadsBack, text, Radix.integerText, Radix.decimalText, String.toList_append,
        String.toList_ofList, minus, List.singleton_append, readNumber, literal, value]

end Printf.Json
