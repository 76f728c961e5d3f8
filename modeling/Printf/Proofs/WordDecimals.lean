import Printf.Proofs.FloatText
import Printf.Proofs.WordLayout

/-! Decimal texts of doubles reshaped in machine words. An exponent is read back digit by digit, held
zeros are counted, and places past the exact ones are told by a difference. The decimal exponent of a
double has at most three digits, so that none of these counters leaves its word. -/
namespace Printf

namespace FloatStyle

variable {x : Binary64} (finite : x.isFinite = true) (places : Nat)

include finite

/-- The decimal exponent of a rounded double. -/
theorem roundedExponent_bounds :
    -324 ≤ roundedExponent x places ∧ roundedExponent x places ≤ 309 := by
  rw [roundedExponent]
  cases zero : x.isZero with
  | true =>
    rw [Binary64.scientific_zero zero]
    decide
  | false =>
    have positive := Binary64.magnitude_pos zero
    obtain ⟨low, high⟩ := x.magnitude.floorLog_bounds (b := 10) (by decide) positive
    rw [Binary64.toRat_magnitude, Nat.cast_ofNat] at low high
    have least := Binary64.le_exponent finite zero high
    have most := Binary64.exponent_lt finite low
    rw [Decimal.scientific, if_neg positive.ne']
    dsimp only
    split <;> dsimp only <;> omega

/-- A rounded double has at most 309 digits in front of the point. -/
theorem length_whole : (Radix.decimal ((x.magnitude.timesPow 10 (places : Nat)).round /
    10 ^ places)).length ≤ 309 := by
  have below : x.magnitude.num < 2 ^ 1024 * x.magnitude.den := by
    have less := Binary64.abs_toRat_lt_two_pow finite
    rw [← Binary64.toRat_magnitude, Ratio.toRat, div_lt_iff₀ x.magnitude.den_pos_rat] at less
    exact_mod_cast less
  have round : (x.magnitude.timesPow 10 (places : Nat)).round ≤ 10 ^ places * 2 ^ 1024 := by
    refine (Ratio.round_le _).trans (Nat.succ_le_of_lt ?_)
    apply Nat.div_lt_of_lt_mul
    calc x.magnitude.num * 10 ^ places
        < 2 ^ 1024 * x.magnitude.den * 10 ^ places :=
          Nat.mul_lt_mul_of_pos_right below (Nat.pow_pos (by decide))
      _ = x.magnitude.den * (10 ^ places * 2 ^ 1024) := by
          rw [Nat.mul_comm (2 ^ 1024), Nat.mul_assoc, Nat.mul_comm (2 ^ 1024)]
  have tens : 2 ^ 1024 < 10 ^ 309 := by decide +kernel
  have small := (Nat.div_le_of_le_mul round).trans_lt tens
  have few := (Nat.digits_length_le_iff (by decide) _).mpr small
  rw [length_decimal]
  exact max_le (by decide) few

end FloatStyle

namespace Reshape

/-- Bytes that may still be written for what a state holds back and for the end of its mantissa. -/
def State.pending (o : Options) (s : State) : Nat :=
  s.heldZeros + (if s.heldPoint then 1 else 0) + if s.inExponent then 0 else 1 + o.tail

theorem size_append (a b : Output) : Output.size (a ++ b) = Output.size a + Output.size b := by
  rw [← Output.length_toList, Output.toList_append, List.length_append, Output.length_toList,
    Output.length_toList]

theorem size_endMantissa (o : Options) (s : State) :
    Output.size (endMantissa o s) ≤ 1 + o.tail := by
  rw [endMantissa]
  split <;> simp [Output.size, Chunk.size]

/-- A byte adds at most one to the counters of a state and to what is written for it in all, and an
exponent only grows. -/
theorem feed_bounds (o : Options) (s : State) (b : UInt8) :
    (feed o s b).2.heldZeros ≤ s.heldZeros + 1 ∧ s.exponent ≤ (feed o s b).2.exponent ∧
    Output.size (feed o s b).1 + (feed o s b).2.pending o ≤ s.pending o + 1 := by
  have held : Output.size s.held = s.heldZeros + if s.heldPoint then 1 else 0 := by
    cases point : s.heldPoint <;> simp [State.held, Output.size, Chunk.size, point, Nat.add_comm]
  have ending := size_endMantissa o s
  have one : Output.size [.text [b]] = 1 := rfl
  have none : Output.size [] = 0 := rfl
  simp only [feed, State.pending]
  split
  · grind
  · split
    · grind
    · split
      · grind
      · split
        · grind
        · grind [size_append]

theorem feedAll_exponent_le (o : Options) (s : State) (bs : Bytes) :
    s.exponent ≤ (feedAll o s bs).2.exponent := by
  induction bs generalizing s with
  | nil => exact Nat.le_refl _
  | cons b bs ih => exact (feed_bounds o s b).2.1.trans (ih _)

theorem feedAll_heldZeros_le (o : Options) (s : State) (bs : Bytes) :
    (feedAll o s bs).2.heldZeros ≤ s.heldZeros + bs.length := by
  induction bs generalizing s with
  | nil => exact Nat.le_refl _
  | cons b bs ih =>
    obtain ⟨now, -, -⟩ := feed_bounds o s b
    have later := ih (feed o s b).2
    rw [feedAll_cons, List.length_cons]
    dsimp only
    omega

theorem feedAll_size (o : Options) (s : State) (bs : Bytes) :
    Output.size (feedAll o s bs).1 + (feedAll o s bs).2.pending o ≤ s.pending o + bs.length := by
  induction bs generalizing s with
  | nil => exact Nat.le_of_eq (Nat.zero_add _)
  | cons b bs ih =>
    obtain ⟨-, -, now⟩ := feed_bounds o s b
    have later := ih (feed o s b).2
    rw [feedAll_cons, size_append, List.length_cons]
    dsimp only
    omega

end Reshape

namespace Machine

def appendDigit (bits n : Nat) (b : UInt8) : Checked Nat := do
  add bits (← mul bits n 10) (← sub b.toNat 48)

/-- What is known of an exponent in a text read up to some byte. -/
structure Probe where
  inExponent : Bool := false
  negative : Bool := false
  value : Nat := 0

def Probe.feed (p : Probe) (b : UInt8) : Checked Probe :=
  if !p.inExponent then .ok { p with inExponent := b == byte 'e' }
  else if b = byte '-' then .ok { p with negative := true }
  else if isDigit b then do return { p with value := ← appendDigit 63 p.value b }
  else .ok p

def readExponent (text : Bytes) : Checked Int := do
  let p ← text.foldlM Probe.feed {}
  fitSigned 64 (if p.negative then -(p.value : Int) else p.value)

/-- Reshapes a text with the counters of each state in their words. The exponent grows with every
digit appended to it, so that its word holds what is computed on the way if it holds the result. -/
def shape (word : Nat) (o : Reshape.Options) :
    Reshape.State → Bytes → Checked (Output × Reshape.State)
  | s, [] => .ok ([], s)
  | s, b :: bs => do
    let (now, next) := Reshape.feed o s b
    let _ ← fit word next.heldZeros
    let _ ← fit 64 next.exponent
    let (later, last) ← shape word o next bs
    return (now ++ later, last)

def close (o : Reshape.Options) (s : Reshape.State) : Checked Output := do
  let mantissa := if s.inExponent then [] else Reshape.endMantissa o s
  match o.marker with
  | none => return mantissa
  | some marker =>
    let digits ← digitText 10 false s.exponent
    return mantissa ++ [.text ([marker, if s.exponentNegative then byte '-' else byte '+'] ++
      (if s.exponent < 10 then [byte '0'] else []) ++ digits)]

def reshape (word : Nat) (o : Reshape.Options) (plain : Bytes) : Checked Output := do
  let (out, s) ← shape word o {} plain
  return out ++ (← close o s)

def splitPlaces (places : Nat) (strip : Bool) : Checked (Nat × Nat) := do
  let exact := min places exactPlaces
  if strip then return (exact, 0) else return (exact, ← sub places exact)

theorem appendDigit_ok {bits n : Nat} {b : UInt8} (digit : isDigit b = true)
    (small : n * 10 + digitOf b < 2 ^ bits) :
    appendDigit bits n b = .ok (n * 10 + digitOf b) := by
  have least : 48 ≤ b.toNat := by
    rw [isDigit, Bool.and_eq_true] at digit
    exact UInt8.le_iff_toNat_le.mp (of_decide_eq_true digit.1)
  rw [appendDigit, mul_ok (by omega), ok_bind, sub_ok least, ok_bind, ← digitOf, add_ok small]

def appended (n : Nat) (ds : Bytes) : Nat := ds.foldl (fun v b => v * 10 + digitOf b) n

theorem le_appended (n : Nat) (ds : Bytes) : n ≤ appended n ds := by
  induction ds generalizing n with
  | nil => exact Nat.le_refl n
  | cons b ds ih =>
    have more := ih (n * 10 + digitOf b)
    rw [appended, List.foldl_cons, ← appended]
    omega

theorem appended_decimal (n : Nat) : appended 0 (Radix.decimal n) = n := by
  have value := Radix.value_numeral (b := 10) (by decide) n
  rwa [← Radix.digitOf_decimal, Radix.value, List.foldl_map] at value

/-- Bytes of a mantissa. -/
theorem mem_pointed {n places : Nat} {b : UInt8} (member : b ∈ Decimal.pointed n places) :
    isDigit b = true ∨ b = byte '.' := by
  rcases List.mem_append.mp member with whole | behind
  · exact Or.inl (Radix.isDigit_decimal _ b whole)
  · split at behind
    · cases behind
    · rcases List.mem_cons.mp behind with point | digit
      · exact Or.inr point
      · obtain ⟨d, last, rfl⟩ := List.mem_map.mp digit
        have small := Radix.lastDigits_lt (by decide) places n d last
        exact Or.inl (Radix.digitByte_decimal d small).1

/-- Nothing of an exponent is read in a mantissa. -/
theorem probe_mantissa {bs : Bytes} (mantissa : ∀ b ∈ bs, b ≠ byte 'e') :
    bs.foldlM Probe.feed {} = .ok {} := by
  induction bs with
  | nil => rfl
  | cons b bs ih =>
    obtain ⟨other, behind⟩ := List.forall_mem_cons.mp mantissa
    have fed : Probe.feed {} b = .ok {} := by simp [Probe.feed, other]
    rw [List.foldlM_cons, fed, ok_bind, ih behind]

theorem probe_digits {p : Probe} (inside : p.inExponent = true) {ds : Bytes}
    (digits : ∀ b ∈ ds, isDigit b = true) (small : appended p.value ds < 2 ^ 63) :
    ds.foldlM Probe.feed p = .ok { p with value := appended p.value ds } := by
  induction ds generalizing p with
  | nil => rfl
  | cons b ds ih =>
    obtain ⟨digit, behind⟩ := List.forall_mem_cons.mp digits
    have first := (le_appended (p.value * 10 + digitOf b) ds).trans_lt small
    have minus : b ≠ byte '-' := isDigit_apart digit (by decide)
    have fed : p.feed b = .ok { p with value := p.value * 10 + digitOf b } := by
      simp [Probe.feed, inside, minus, digit, appendDigit_ok digit first]
    rw [List.foldlM_cons, fed, ok_bind]
    exact ih inside behind small

/-- The exponent that is read is the one that was written. -/
theorem readExponent_ok (r : Ratio) (places : Nat)
    (small : (Decimal.scientific r places).exponent.natAbs < 2 ^ 63) :
    readExponent (Decimal.scientificText r places) =
      .ok (Decimal.scientific r places).exponent := by
  rw [Decimal.scientificText]
  generalize Decimal.scientific r places = s at small ⊢
  have mantissa : ∀ b ∈ Decimal.pointed s.digits places, b ≠ byte 'e' := by
    rintro b member rfl
    rcases mem_pointed member with digit | point
    · exact isDigit_apart digit (c := byte 'e') (by decide) rfl
    · exact absurd point (by decide)
  have value := appended_decimal s.exponent.natAbs
  have magnitude (negative : Bool) := probe_digits (p := ⟨true, negative, 0⟩) rfl
    (Radix.isDigit_decimal s.exponent.natAbs) (value.symm ▸ small)
  have exponent : ((if s.exponent < 0 then [byte '-'] else []) ++
      Radix.decimal s.exponent.natAbs).foldlM Probe.feed ⟨true, false, 0⟩ =
        .ok ⟨true, s.exponent < 0, s.exponent.natAbs⟩ := by
    rw [List.foldlM_append]
    split
    · next negative =>
      have minus : Probe.feed ⟨true, false, 0⟩ (byte '-') = .ok ⟨true, true, 0⟩ := rfl
      simpa [negative, value, minus] using magnitude true
    · next positive => simpa [positive, value] using magnitude false
  have sign : (if s.exponent < 0 then -(s.exponent.natAbs : Int) else s.exponent.natAbs) =
      s.exponent := by
    split <;> omega
  rw [readExponent, List.append_assoc, List.foldlM_append, probe_mantissa mantissa, ok_bind,
    List.cons_append, List.foldlM_cons]
  have letter : Probe.feed {} (byte 'e') = .ok ⟨true, false, 0⟩ := rfl
  rw [letter, ok_bind, exponent, ok_bind]
  simp only [decide_eq_true_eq, sign]
  exact fitSigned_ok (by omega) (by omega)

/-- Counters that fit their words at the end of a text fit them all the way. -/
theorem shape_ok {word : Nat} {o : Reshape.Options} {s : Reshape.State} {bs : Bytes}
    (zeros : s.heldZeros + bs.length < 2 ^ word)
    (exponent : (Reshape.feedAll o s bs).2.exponent < 2 ^ 64) :
    shape word o s bs = .ok (Reshape.feedAll o s bs) := by
  induction bs generalizing s with
  | nil => rfl
  | cons b bs ih =>
    obtain ⟨more, -, -⟩ := Reshape.feed_bounds o s b
    rw [List.length_cons] at zeros
    rw [Reshape.feedAll_cons] at exponent ⊢
    have collected := (Reshape.feedAll_exponent_le o _ bs).trans_lt exponent
    have later := ih (s := (Reshape.feed o s b).2) (by omega) exponent
    simp only [shape, fit_ok collected, fit_ok (show (Reshape.feed o s b).2.heldZeros < 2 ^ word by
      omega), ok_bind, later]
    rfl

theorem close_ok (o : Reshape.Options) {s : Reshape.State} (exponent : s.exponent < 2 ^ 64) :
    close o s = .ok (Reshape.finish o s) := by
  rw [close, Reshape.finish]
  cases o.marker with
  | none => exact congrArg _ (List.append_nil _).symm
  | some marker =>
    rw [digitText_decimal exponent]
    rfl

theorem reshape_ok {word : Nat} (o : Reshape.Options) {plain : Bytes}
    (zeros : plain.length < 2 ^ word)
    (exponent : (Reshape.feedAll o {} plain).2.exponent < 2 ^ 64) :
    reshape word o plain = .ok (Reshape.reshape o plain) := by
  have shaped := shape_ok (s := {}) ((Nat.zero_add _).trans_lt zeros) exponent
  rw [reshape, shaped, ok_bind]
  simp only [close_ok o exponent, ok_bind]
  rfl

theorem splitPlaces_ok (places : Nat) (strip : Bool) :
    splitPlaces places strip = .ok (min places exactPlaces, FloatStyle.tail places strip) := by
  cases strip with
  | true => rfl
  | false =>
    have rest : places - min places exactPlaces = places - exactPlaces := by omega
    rw [splitPlaces, if_neg Bool.false_ne_true, sub_ok (Nat.min_le_left _ _), ok_bind, rest]
    rfl

end Machine

namespace Reshape

/-- The exponent that is collected is the one in the text. -/
theorem feedAll_exponent_eq (o : Options) {p : Parts} (digits : p.AllDigits) :
    (feedAll o {} p.text).2.exponent = p.exponent.elim 0 fun e => Directive.decimalValue e.2 := by
  obtain ⟨-, mantissa, negative, zero⟩ :=
    feedAll_mantissa o digits.whole.isDigit fun ds found => (digits.fraction ds found).isDigit
  rw [Parts.text, ← List.append_assoc, feedAll_append]
  cases exponent : p.exponent with
  | none => exact zero
  | some e =>
    obtain ⟨minus, ds⟩ := e
    rw [Option.elim_some, feedAll_exponentText o mantissa ⟨negative, zero⟩ minus
      (digits.exponent _ exponent).isDigit]
    rfl

/-- A text grows by a point, the tail and the layout of its exponent at most. -/
theorem size_reshape (o : Options) {plain : Bytes}
    (word64 : (feedAll o {} plain).2.exponent < 2 ^ 64) :
    Output.size (reshape o plain) ≤ plain.length + o.tail + 26 := by
  have fed := feedAll_size o {} plain
  have start : State.pending o {} = 1 + o.tail := Nat.zero_add _
  have digits := Machine.length_decimal_le word64
  rw [start] at fed
  rw [reshape, size_append]
  generalize feedAll o {} plain = run at fed digits ⊢
  obtain ⟨out, s⟩ := run
  have ending : Output.size (if s.inExponent then [] else endMantissa o s) ≤ s.pending o := by
    rw [State.pending]
    split
    · exact Nat.zero_le _
    · exact (size_endMantissa o s).trans (Nat.le_add_left _ _)
  have closed : Output.size (finish o s) ≤ s.pending o + 25 := by
    rw [finish, size_append]
    cases o.marker with
    | none => exact ending.trans (Nat.le_add_right _ _)
    | some marker =>
      have two : (if s.exponent < 10 then [byte '0'] else []).length ≤ 1 := by split <;> simp
      simp only [Output.size, Chunk.size, List.length_append, List.length_cons, List.length_nil]
      dsimp only at digits
      omega
  dsimp only at fed ⊢
  omega

end Reshape

/-- A plain text whose counters fit every word. -/
structure Reshape.Small (o : Options) (plain : Bytes) : Prop where
  length : plain.length ≤ 1500
  exponent : (feedAll o {} plain).2.exponent < 2 ^ 63

namespace Decimal

theorem length_pointed (n places : Nat) :
    (pointed n places).length ≤ (Radix.decimal (n / 10 ^ places)).length + (1 + places) := by
  rw [pointed, List.length_append, Nat.pow_eq]
  split
  · exact Nat.add_le_add_left (Nat.zero_le _) _
  · simp [Nat.add_comm]

theorem digits_lt (r : Ratio) (places : Nat) :
    (scientific r places).digits < 10 ^ (places + 1) := by
  rw [scientific]
  split
  · exact Nat.pow_pos (by decide)
  · dsimp only
    split
    · next small => exact small
    · exact Nat.pow_lt_pow_right (by decide) (Nat.lt_succ_self places)

variable {x : Binary64} (finite : x.isFinite = true) (o : Reshape.Options) {places : Nat}
  (few : places ≤ exactPlaces)

include finite few

theorem scientific_exponent_bounds : -324 ≤ (scientific x.magnitude places).exponent ∧
    (scientific x.magnitude places).exponent ≤ 309 := by
  have bounds := FloatStyle.roundedExponent_bounds finite places
  rwa [FloatStyle.roundedExponent, Nat.min_eq_left few] at bounds

theorem small_fixedText : Reshape.Small o (fixedText x.magnitude places) where
  length := by
    have whole := FloatStyle.length_whole finite places
    have text := length_pointed (x.magnitude.timesPow 10 places).round places
    rw [exactPlaces] at few
    rw [fixedText]
    omega
  exponent := by
    rw [fixedText_parts, Reshape.feedAll_exponent_eq o (parts_digits _ _ _)]
    exact Nat.two_pow_pos 63

theorem small_scientificText : Reshape.Small o (scientificText x.magnitude places) where
  length := by
    obtain ⟨least, most⟩ := scientific_exponent_bounds finite few
    have digit : (scientific x.magnitude places).digits / 10 ^ places < 10 :=
      Nat.div_lt_of_lt_mul (pow_succ 10 places ▸ digits_lt x.magnitude places)
    have whole := Machine.length_decimal_le (digit.trans (by decide))
    have text := length_pointed (scientific x.magnitude places).digits places
    have exponent := Machine.length_decimal_le
      (show (scientific x.magnitude places).exponent.natAbs < 2 ^ 64 by omega)
    have sign : (if (scientific x.magnitude places).exponent < 0 then [byte '-'] else []).length ≤
        1 := by split <;> simp
    rw [exactPlaces] at few
    rw [scientificText]
    simp only [List.length_append, List.length_cons]
    omega
  exponent := by
    obtain ⟨least, most⟩ := scientific_exponent_bounds finite few
    rw [scientificText_parts, Reshape.feedAll_exponent_eq o (parts_digits _ _ _), parts,
      Option.map_some, Option.elim_some, Directive.decimalValue_decimal]
    omega

end Decimal

namespace Machine

def decimalBody (word places : Nat) (strip point : Bool) (marker : Option UInt8)
    (text : Nat → Bytes) : Checked Output := do
  let (exact, tail) ← splitPlaces places strip
  reshape word ⟨strip, point, marker, tail⟩ (text exact)

/-- The body of a decimal layout fits a word of 32 bits together with a sign. -/
theorem decimalBody_ok {word : Nat} (wide : 32 ≤ word) {places : Nat} (strip point : Bool)
    (marker : Option UInt8) {text : Nat → Bytes} (bounded : places ≤ maxField + 3)
    (small : ∀ o, Reshape.Small o (text (min places exactPlaces))) :
    let out := Reshape.reshape ⟨strip, point, marker, FloatStyle.tail places strip⟩
      (text (min places exactPlaces))
    decimalBody word places strip point marker text = .ok out ∧ Output.size out < 2 ^ 32 - 3 := by
  intro out
  obtain ⟨length, exponent⟩ := small ⟨strip, point, marker, FloatStyle.tail places strip⟩
  have word64 := exponent.trans (show 2 ^ 63 < 2 ^ 64 by decide)
  have tail : FloatStyle.tail places strip ≤ maxField + 3 := by
    rw [FloatStyle.tail]
    split
    · exact Nat.zero_le _
    · exact (Nat.sub_le _ _).trans bounded
  have size := Reshape.size_reshape _ word64
  constructor
  · rw [decimalBody, splitPlaces_ok, ok_bind]
    exact reshape_ok _ (small_word wide (length.trans_lt (by decide))) word64
  · refine Nat.lt_of_le_of_lt size ?_
    rw [maxField] at tail
    dsimp only
    omega

end Machine
end Printf
