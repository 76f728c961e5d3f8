import Printf.Proofs.Numeral
import Printf.Proofs.Padding

/-! Reshaping of a whole text. A plain text is digits, a fraction and an exponent; what is written
for it is a numeral with the same digits in front of the point, a fraction that differs in zeros at
its end only, and the exponent in the wanted layout. So it denotes the same number. -/
namespace Printf

theorem IsDigits.isDigit {ds : Bytes} (digits : IsDigits 10 false ds) :
    ∀ b ∈ ds, isDigit b = true := by
  have each : ∀ b ∈ (digitSet false).take 10, Printf.isDigit b = true := by decide +kernel
  exact fun b member => each b (digits b member)

theorem IsDigits.decimalValue {ds : Bytes} (digits : IsDigits 10 false ds) :
    Directive.decimalValue ds = readDigits 10 false ds := by
  have each : ∀ b ∈ (digitSet false).take 10, digitOf b = (digitSet false).idxOf b := by
    decide +kernel
  rw [Directive.decimalValue, readDigits]
  congr 1
  apply List.map_congr_left
  exact fun b member => each b (digits b (List.mem_reverse.mp member))

namespace Reshape

/-- A plain text `I[.D][e[-]K]` in its parts. -/
structure Parts where
  whole : Bytes
  fraction : Option Bytes
  exponent : Option (Bool × Bytes)

namespace Parts

def exponentText (e : Bool × Bytes) : Bytes :=
  byte 'e' :: ((if e.1 then [byte '-'] else []) ++ e.2)

def text (p : Parts) : Bytes :=
  p.whole ++ (p.fraction.elim [] (byte '.' :: ·) ++ p.exponent.elim [] exponentText)

structure AllDigits (p : Parts) : Prop where
  whole : IsDigits 10 false p.whole
  fraction : ∀ ds ∈ p.fraction, IsDigits 10 false ds
  exponent : ∀ e ∈ p.exponent, IsDigits 10 false e.2

end Parts

def isZero (b : UInt8) : Bool := b == byte '0'

def Options.kept (o : Options) (ds : Bytes) : Bytes :=
  if o.strip then ds.rdropWhile isZero else ds

def twoDigits (n : Nat) : Bytes := (if n < 10 then [byte '0'] else []) ++ Radix.decimal n

/-- The layout of an exponent; a text without one has the exponent zero. -/
def Options.exponent (o : Options) (e : Option (Bool × Bytes)) : Option Exponent :=
  o.marker.map fun marker => ⟨marker, e.elim false (·.1),
    twoDigits (e.elim 0 fun e => Directive.decimalValue e.2)⟩

/-- A point is left out where all of the fraction is, and put behind digits without a fraction if it
is forced. -/
def Options.pointed (o : Options) (fraction : Option Bytes) : Bool :=
  fraction.elim o.point fun ds => !o.strip || o.kept ds != []

def Options.fraction (o : Options) (fraction : Option Bytes) : Bytes :=
  fraction.elim [] o.kept ++ zeros o.tail

def Parts.numeral (o : Options) (p : Parts) : Numeral where
  whole := p.whole
  point := o.pointed p.fraction
  fraction := o.fraction p.fraction
  exponent := o.exponent p.exponent

theorem fraction_kept {o : Options} (strip : o.strip = false) (fraction : Option Bytes) :
    o.fraction fraction = fraction.getD [] ++ zeros o.tail := by
  cases fraction with
  | none => rfl
  | some ds => simp [Options.fraction, Options.kept, strip]

theorem pointed_kept {o : Options} (strip : o.strip = false) (fraction : Option Bytes) :
    o.pointed fraction = (fraction.isSome || o.point) := by
  cases fraction <;> simp [Options.pointed, strip]

theorem feed_other (o : Options) {s : State} (mantissa : s.inExponent = false) {b : UInt8}
    (digit : isDigit b = true) (counts : ¬(b = byte '0' ∧ o.strip ∧ s.seenPoint)) :
    feed o s b = (s.held ++ [.text [b]], { s with heldPoint := false, heldZeros := 0 }) := by
  have noMark : ¬(b = byte 'e' ∨ b = byte 'E') :=
    not_or.mpr ⟨isDigit_apart digit (by decide), isDigit_apart digit (by decide)⟩
  have noPoint : b ≠ byte '.' := isDigit_apart digit (by decide)
  rw [feed, if_neg (by rw [mantissa]; exact Bool.false_ne_true), if_neg noMark, if_neg noPoint,
    if_neg counts]

/-- Digits are copied as long as nothing is held back and none of them can be. -/
theorem feedAll_copy (o : Options) {s : State} (mantissa : s.inExponent = false)
    (counts : (o.strip && s.seenPoint) = false) (free : s.heldPoint = false ∧ s.heldZeros = 0)
    {ds : Bytes} (digits : ∀ b ∈ ds, isDigit b = true) :
    Output.toList (feedAll o s ds).1 = ds ∧ (feedAll o s ds).2 = s := by
  induction ds with
  | nil => exact ⟨rfl, rfl⟩
  | cons b ds ih =>
    have now := feed_other o mantissa (digits b List.mem_cons_self)
      (fun zero => by simp [zero.2] at counts)
    have same : { s with heldPoint := false, heldZeros := 0 } = s := by
      rw [← free.1, ← free.2]
    rw [same] at now
    obtain ⟨later, final⟩ := ih fun b member => digits b (List.mem_cons_of_mem _ member)
    have held : Output.toList s.held = [] := by simp [State.held, free, Chunk.toList]
    rw [feedAll, now]
    constructor
    · simp only [Output.toList_append, held, later]
      rfl
    · exact final

theorem feedAll_cons (o : Options) (s : State) (b : UInt8) (bs : Bytes) :
    feedAll o s (b :: bs) = ((feed o s b).1 ++ (feedAll o (feed o s b).2 bs).1,
      (feedAll o (feed o s b).2 bs).2) := rfl

theorem feedAll_singleton (o : Options) (s : State) (b : UInt8) :
    feedAll o s [b] = feed o s b := by
  simp [feedAll]

def pointedFraction (ds : Bytes) : Bytes := if ds = [] then [] else byte '.' :: ds

/-- The state behind a fraction whose zeros may be dropped. -/
def strippedState (ds : Bytes) : State where
  seenPoint := true
  heldPoint := ds.rdropWhile isZero = []
  heldZeros := (ds.rtakeWhile isZero).length

/-- A fraction is what stays of it and the zeros at its end. -/
theorem rdropWhile_zeros (ds : Bytes) :
    ds.rdropWhile isZero ++ zeros (ds.rtakeWhile isZero).length = ds := by
  have tail : ds.rtakeWhile isZero = zeros (ds.rtakeWhile isZero).length :=
    List.eq_replicate_of_mem fun _ member =>
      eq_of_beq (List.mem_rtakeWhile_imp (p := isZero) member)
  rw [← tail]
  exact List.rdropWhile_append_rtakeWhile

/-- What is written and what is held back are the point and the fraction together. -/
theorem written_held (ds : Bytes) : pointedFraction (ds.rdropWhile isZero) ++
    Output.toList (strippedState ds).held = byte '.' :: ds := by
  have whole := rdropWhile_zeros ds
  have held : Output.toList (strippedState ds).held =
      (if ds.rdropWhile isZero = [] then [byte '.'] else []) ++
        zeros (ds.rtakeWhile isZero).length := by
    simp [State.held, strippedState, Chunk.toList, zeros]
  rw [held, pointedFraction]
  split
  · next none =>
    rw [none, List.nil_append] at whole
    rw [whole]
    rfl
  · rw [List.nil_append, List.cons_append, whole]

theorem strippedState_zero (ds : Bytes) {b : UInt8} (zero : isZero b = true) :
    strippedState (ds ++ [b]) =
      { strippedState ds with heldZeros := (strippedState ds).heldZeros + 1 } := by
  simp [strippedState, List.rdropWhile_concat_pos _ _ _ zero, List.rtakeWhile_concat_pos _ _ _ zero]

theorem strippedState_digit (ds : Bytes) {b : UInt8} (digit : ¬isZero b = true) :
    strippedState (ds ++ [b]) = { strippedState ds with heldPoint := false, heldZeros := 0 } := by
  simp [strippedState, List.rdropWhile_concat_neg _ _ _ digit,
    List.rtakeWhile_concat_neg _ _ _ digit]

theorem feed_zero (o : Options) (strip : o.strip = true) {s : State} (mantissa : s.inExponent = false)
    (seen : s.seenPoint = true) :
    feed o s (byte '0') = ([], { s with heldZeros := s.heldZeros + 1 }) := by
  rw [feed, if_neg (by rw [mantissa]; exact Bool.false_ne_true), if_neg (by decide),
    if_neg (by decide), if_pos ⟨rfl, strip, seen⟩]

/-- Of a fraction that may lose its zeros, those at the end are held back, and the point if there
is nothing else. -/
theorem feedAll_strip (o : Options) (strip : o.strip = true) {ds : Bytes}
    (digits : ∀ b ∈ ds, isDigit b = true) :
    Output.toList (feedAll o (strippedState []) ds).1 = pointedFraction (ds.rdropWhile isZero) ∧
    (feedAll o (strippedState []) ds).2 = strippedState ds := by
  induction ds using List.reverseRecOn with
  | nil => exact ⟨rfl, rfl⟩
  | append_singleton ds b ih =>
    obtain ⟨front, last⟩ := List.forall_mem_append.mp digits
    obtain ⟨written, state⟩ := ih front
    simp only [feedAll_append, feedAll_singleton, state, Output.toList_append, written]
    by_cases zero : isZero b = true
    · rw [eq_of_beq zero, feed_zero o strip rfl rfl, ← eq_of_beq zero, strippedState_zero ds zero,
        List.rdropWhile_concat_pos _ _ _ zero]
      exact ⟨List.append_nil _, rfl⟩
    · have next : pointedFraction (ds ++ [b]) = byte '.' :: (ds ++ [b]) :=
        if_neg (List.append_ne_nil_of_right_ne_nil _ (List.cons_ne_nil _ _))
      rw [feed_other o rfl (last b List.mem_cons_self) fun both => zero (beq_of_eq both.1),
        strippedState_digit ds zero, List.rdropWhile_concat_neg _ _ _ zero, next,
        Output.toList_append, ← List.append_assoc, written_held]
      exact ⟨rfl, rfl⟩

theorem feedAll_pointStrip (o : Options) (strip : o.strip = true) {ds : Bytes}
    (digits : ∀ b ∈ ds, isDigit b = true) :
    Output.toList (feedAll o {} (byte '.' :: ds)).1 = pointedFraction (ds.rdropWhile isZero) ∧
    (feedAll o {} (byte '.' :: ds)).2 = strippedState ds := by
  have point : feed o {} (byte '.') = ([], strippedState []) := by
    rw [feed, if_neg (by decide), if_neg (by decide), if_pos rfl, if_pos strip]
    rfl
  rw [feedAll_cons, point]
  exact feedAll_strip o strip digits

theorem feedAll_pointKeep (o : Options) (strip : o.strip = false) {ds : Bytes}
    (digits : ∀ b ∈ ds, isDigit b = true) :
    Output.toList (feedAll o {} (byte '.' :: ds)).1 = byte '.' :: ds ∧
    (feedAll o {} (byte '.' :: ds)).2 = { seenPoint := true } := by
  have point : feed o {} (byte '.') = ([.text [byte '.']], { seenPoint := true }) := by
    rw [feed, if_neg (by decide), if_neg (by decide), if_pos rfl,
      if_neg (by rw [strip]; exact Bool.false_ne_true)]
  obtain ⟨written, state⟩ :=
    feedAll_copy o (s := { seenPoint := true }) rfl (by rw [strip]; rfl) ⟨rfl, rfl⟩ digits
  rw [feedAll_cons, point, Output.toList_append, written]
  exact ⟨rfl, state⟩

/-- The mantissa is written as the parts of the numeral say. What is still held back then, it ends
without. -/
theorem feedAll_mantissa (o : Options) {whole : Bytes} (digits : ∀ b ∈ whole, isDigit b = true)
    {fraction : Option Bytes} (behind : ∀ ds ∈ fraction, ∀ b ∈ ds, isDigit b = true) :
    let run := feedAll o {} (whole ++ fraction.elim [] (byte '.' :: ·))
    Output.toList (run.1 ++ endMantissa o run.2) =
      whole ++ ((if o.pointed fraction then [byte '.'] else []) ++ o.fraction fraction) ∧
    run.2.inExponent = false ∧ run.2.exponentNegative = false ∧ run.2.exponent = 0 := by
  obtain ⟨copied, start⟩ := feedAll_copy o (s := {}) rfl (Bool.and_false _) ⟨rfl, rfl⟩ digits
  have ending (s : State) : Output.toList (endMantissa o s) =
      (if o.point && !s.seenPoint then [byte '.'] else []) ++ zeros o.tail := by
    simp [endMantissa, Chunk.toList, zeros]
  simp only [feedAll_append, start, Output.toList_append, copied, ending]
  cases fraction with
  | none =>
    have unseen : (o.point && !(feedAll o {} []).2.seenPoint) = o.pointed none := Bool.and_true _
    refine ⟨?_, rfl, rfl, rfl⟩
    rw [Option.elim_none, unseen, feedAll, Output.toList_nil, List.append_nil]
    rfl
  | some ds =>
    cases strip : o.strip with
    | true =>
      obtain ⟨written, state⟩ := feedAll_pointStrip o strip (behind ds rfl)
      have seen : (strippedState ds).seenPoint = true := rfl
      have kept : o.kept ds = ds.rdropWhile isZero := if_pos strip
      have mark : o.pointed (some ds) = (o.kept ds != []) := by simp [Options.pointed, strip]
      rw [Option.elim_some, written, state, seen, mark, Options.fraction, Option.elim_some, kept,
        pointedFraction]
      refine ⟨?_, rfl, rfl, rfl⟩
      by_cases none : ds.rdropWhile isZero = [] <;> simp [none]
    | false =>
      obtain ⟨written, state⟩ := feedAll_pointKeep o strip (behind ds rfl)
      rw [Option.elim_some, written, state, pointed_kept strip, fraction_kept strip]
      exact ⟨by simp, rfl, rfl, rfl⟩

/-- An exponent is collected, and nothing is written for it. -/
theorem feedAll_exponent (o : Options) {s : State} (inExponent : s.inExponent = true) {ds : Bytes}
    (digits : ∀ b ∈ ds, isDigit b = true) :
    feedAll o s ds =
      ([], { s with exponent := ds.foldl (fun v b => v * 10 + digitOf b) s.exponent }) := by
  induction ds generalizing s with
  | nil => rfl
  | cons b ds ih =>
    have digit := digits b List.mem_cons_self
    have now : feed o s b = ([], { s with exponent := s.exponent * 10 + digitOf b }) := by
      rw [feed, if_pos inExponent, if_neg (isDigit_apart digit (by decide)), if_pos digit]
    rw [feedAll_cons, now, ih]
    · rfl
    · exact inExponent
    · exact fun b member => digits b (List.mem_cons_of_mem _ member)

/-- The number in an exponent is its decimal value. -/
theorem feedAll_exponentText (o : Options) {s : State} (mantissa : s.inExponent = false)
    (fresh : s.exponentNegative = false ∧ s.exponent = 0) (minus : Bool) {ds : Bytes}
    (digits : ∀ b ∈ ds, isDigit b = true) :
    feedAll o s (Parts.exponentText (minus, ds)) =
      (endMantissa o s, { s with inExponent := true, heldPoint := false, heldZeros := 0,
                                 exponentNegative := minus
                                 exponent := Directive.decimalValue ds }) := by
  have mark : feed o s (byte 'e') =
      (endMantissa o s, { s with inExponent := true, heldPoint := false, heldZeros := 0 }) := by
    rw [feed, if_neg (by rw [mantissa]; exact Bool.false_ne_true), if_pos (Or.inl rfl)]
  have value : Directive.decimalValue ds = ds.foldl (fun v b => v * 10 + digitOf b) 0 := by
    rw [Directive.decimalValue, List.map_reverse, ← Directive.value_ofDigits, Radix.value,
      List.foldl_map]
  rw [Parts.exponentText, feedAll_cons, mark, feedAll_append]
  cases minus with
  | false =>
    rw [if_neg Bool.false_ne_true, feedAll, feedAll_exponent o rfl digits, value, ← fresh.1, fresh.2]
    simp
  | true =>
    have sign (t : State) (inside : t.inExponent = true) :
        feed o t (byte '-') = ([], { t with exponentNegative := true }) := by
      rw [feed, if_pos inside, if_pos rfl]
    rw [if_pos rfl, feedAll_singleton, sign _ rfl, feedAll_exponent o rfl digits, value, fresh.2]
    simp

theorem finish_text (o : Options) (s : State) : Output.toList (finish o s) =
    Output.toList (if s.inExponent then [] else endMantissa o s) ++
      (o.marker.map fun marker => Exponent.mk marker s.exponentNegative
        (twoDigits s.exponent)).elim [] Exponent.text := by
  rw [finish, Output.toList_append]
  congr 1
  cases o.marker with
  | none => rfl
  | some marker => simp [Chunk.toList, Exponent.text, twoDigits]

theorem text_numeral (o : Options) (p : Parts) : (p.numeral o).text =
    p.whole ++ ((if o.pointed p.fraction then [byte '.'] else []) ++ o.fraction p.fraction) ++
      (o.exponent p.exponent).elim [] Exponent.text := by
  rw [Numeral.text, List.append_assoc, List.append_assoc]
  rfl

/-- For a plain text in its parts, the numeral with its parts is written. -/
theorem reshape_text (o : Options) {p : Parts} (digits : p.AllDigits) :
    Output.toList (reshape o p.text) = (p.numeral o).text := by
  obtain ⟨written, mantissa, negative, zero⟩ :=
    feedAll_mantissa o digits.whole.isDigit fun ds found => (digits.fraction ds found).isDigit
  rw [Output.toList_append] at written
  rw [text_numeral, ← written, Parts.text, reshape]
  cases exponent : p.exponent with
  | none =>
    rw [Option.elim_none, List.append_nil, Output.toList_append, finish_text, mantissa, negative,
      zero, if_neg Bool.false_ne_true, ← List.append_assoc]
    rfl
  | some e =>
    obtain ⟨minus, ds⟩ := e
    rw [← List.append_assoc, Option.elim_some, feedAll_append,
      feedAll_exponentText o mantissa ⟨negative, zero⟩ minus (digits.exponent _ exponent).isDigit,
      Output.toList_append, Output.toList_append, finish_text, if_pos rfl]
    rfl

theorem twoDigits_spec (n : Nat) : IsDigits 10 false (twoDigits n) ∧
    readDigits 10 false (twoDigits n) = n ∧
    (twoDigits n).length = max 2 (Nat.digits 10 n).length := by
  have value := readDigits_decimal n
  have length := length_decimal n
  rw [twoDigits]
  split
  · next small =>
    have one : (Nat.digits 10 n).length ≤ 1 := (Nat.digits_length_le_iff (by decide) n).mpr small
    refine ⟨(isDigits_zeros (by decide) (by decide) false 1).append (isDigits_decimal n), ?_, ?_⟩
    · rw [readDigits_append, value]
      exact (congrArg (· * _ + n) (readDigits_zeros 10 false 1)).trans (by simp)
    · rw [List.length_append, length, List.length_singleton]
      omega
  · next large =>
    have two : 1 < (Nat.digits 10 n).length :=
      (Nat.lt_digits_length_iff (by decide) n).mpr (Nat.le_of_not_lt large)
    rw [List.nil_append]
    refine ⟨isDigits_decimal n, value, ?_⟩
    rw [length]
    omega

/-- They are the digits of an exponent without the zeros in front, filled up with zeros. -/
theorem twoDigits_eq {ds : Bytes} (digits : IsDigits 10 false ds) :
    twoDigits (Directive.decimalValue ds) =
      zeros (2 - (ds.dropWhile isZero).length) ++ ds.dropWhile isZero := by
  obtain ⟨each, value, size⟩ := twoDigits_spec (readDigits 10 false ds)
  have kept : IsDigits 10 false (ds.dropWhile isZero) :=
    fun b member => digits b ((List.dropWhile_suffix _).subset member)
  have filled : IsDigits 10 false (zeros (2 - (ds.dropWhile isZero).length)) :=
    isDigits_zeros (by decide) (by decide) false _
  have length : (ds.dropWhile isZero).length = _ := digits.length_significant (by decide)
  have same : readDigits 10 false (ds.dropWhile isZero) = _ := readDigits_dropWhile 10 false ds
  rw [digits.decimalValue]
  apply each.unique (by decide) (filled.append kept)
  · rw [size, ← length, List.length_append, zeros, List.length_replicate]
    omega
  · rw [value, readDigits_append, same, zeros, readDigits_zeros, Nat.zero_mul, Nat.zero_add]

def Parts.value (p : Parts) : ℚ :=
  readDigits 10 false (p.whole ++ p.fraction.getD []) / 10 ^ (p.fraction.getD []).length *
    10 ^ p.exponent.elim (0 : Int) fun e =>
      if e.1 then -(readDigits 10 false e.2 : Int) else readDigits 10 false e.2

theorem kept_zeros (o : Options) (ds : Bytes) : ∃ n, ds = o.kept ds ++ zeros n := by
  rw [Options.kept]
  split
  · exact ⟨_, (rdropWhile_zeros ds).symm⟩
  · exact ⟨0, (List.append_nil ds).symm⟩

theorem readDigits_fraction (o : Options) (whole : Bytes) (fraction : Option Bytes) :
    (readDigits 10 false (whole ++ o.fraction fraction) : ℚ) / 10 ^ (o.fraction fraction).length =
      readDigits 10 false (whole ++ fraction.getD []) / 10 ^ (fraction.getD []).length := by
  have trailing (ds : Bytes) (n : Nat) :
      (readDigits 10 false (whole ++ (ds ++ zeros n)) : ℚ) / 10 ^ (ds ++ zeros n).length =
        readDigits 10 false (whole ++ ds) / 10 ^ ds.length :=
    readDigits_div_zeros (by decide) false whole ds n
  cases fraction with
  | none => exact trailing [] o.tail
  | some ds =>
    obtain ⟨n, split⟩ := kept_zeros o ds
    rw [Option.getD_some, Options.fraction, Option.elim_some, trailing]
    conv_rhs => rw [split, trailing]

theorem exponent_value {o : Options} {marker : UInt8} (marked : o.marker = some marker)
    (minus : Bool) {ds : Bytes} (digits : IsDigits 10 false ds) :
    (o.exponent (some (minus, ds))).elim 0 Exponent.value =
      if minus then -(readDigits 10 false ds : Int) else readDigits 10 false ds := by
  rw [Options.exponent, marked, Option.map_some, Option.elim_some, Exponent.value,
    Option.elim_some, Option.elim_some, (twoDigits_spec _).2.1, digits.decimalValue]

/-- The numeral that is written denotes the same number as the plain text. -/
theorem value_numeral {o : Options} {p : Parts} (digits : p.AllDigits)
    (marked : o.marker.isSome = p.exponent.isSome) : (p.numeral o).value .decimal = p.value := by
  have exponent : (o.exponent p.exponent).elim 0 Exponent.value =
      p.exponent.elim (0 : Int) fun e =>
        if e.1 then -(readDigits 10 false e.2 : Int) else readDigits 10 false e.2 := by
    cases found : p.exponent with
    | none =>
      rw [found, Option.isSome_none, Option.isSome_eq_false_iff, Option.isNone_iff_eq_none] at marked
      rw [Options.exponent, marked]
      rfl
    | some e =>
      rw [found] at marked
      obtain ⟨marker, marked⟩ := Option.isSome_iff_exists.mp marked
      exact exponent_value marked e.1 (digits.exponent e found)
  rw [Parts.value, ← readDigits_fraction o, ← exponent]
  rfl

theorem isDigits_fraction (o : Options) {fraction : Option Bytes}
    (digits : ∀ ds ∈ fraction, IsDigits 10 false ds) : IsDigits 10 false (o.fraction fraction) := by
  refine IsDigits.append ?_ (isDigits_zeros (by decide) (by decide) false o.tail)
  cases fraction with
  | none => exact List.forall_mem_nil _
  | some ds =>
    obtain ⟨n, split⟩ := kept_zeros o ds
    have all := digits ds rfl
    rw [split] at all
    exact (List.forall_mem_append.mp all).1

/-- Digits stand behind a point only. -/
theorem pointed_of_fraction {o : Options} {fraction : Option Bytes}
    (tail : o.tail = 0 ∨ o.strip = false ∧ fraction.isSome) (full : o.fraction fraction ≠ []) :
    o.pointed fraction = true := by
  cases fraction with
  | none =>
    obtain zero | ⟨-, some⟩ := tail
    · rw [Options.fraction, zero] at full
      exact absurd rfl full
    · cases some
  | some ds =>
    rw [Options.pointed, Option.elim_some, Bool.or_eq_true, bne_iff_ne]
    obtain zero | ⟨strip, -⟩ := tail
    · rw [Options.fraction, zero, zeros, List.replicate_zero, List.append_nil] at full
      exact Or.inr full
    · exact Or.inl (by rw [strip]; rfl)

theorem wellFormed_numeral {o : Options} {p : Parts} (digits : p.AllDigits) (whole : p.whole ≠ [])
    (tail : o.tail = 0 ∨ o.strip = false ∧ p.fraction.isSome)
    (marker : ∀ m ∈ o.marker, m ∈ utf8 "eE") : (p.numeral o).WellFormed .decimal where
  whole := whole
  digits := digits.whole.append (isDigits_fraction o digits.fraction)
  point := pointed_of_fraction tail
  exponent := by
    intro e found
    obtain ⟨m, -, rfl⟩ := Option.map_eq_some_iff.mp found
    obtain ⟨each, -, size⟩ := twoDigits_spec (p.exponent.elim 0 fun e => Directive.decimalValue e.2)
    refine ⟨?_, each⟩
    apply List.ne_nil_of_length_pos
    rw [size]
    omega
  marker := by
    intro e found
    obtain ⟨m, marked, rfl⟩ := Option.map_eq_some_iff.mp found
    have letters : ∀ m ∈ utf8 "eE", m ∉ byte '.' :: (digitSet false).take 10 := by
      decide +kernel
    exact letters m (marker m marked)

/-- A fraction that may lose its zeros ends in a digit that counts, and a point stands in front of
one only. -/
theorem fraction_stripped {o : Options} (strip : o.strip = true) (point : o.point = false)
    (tail : o.tail = 0) (fraction : Option Bytes) :
    (o.pointed fraction = true ↔ o.fraction fraction ≠ []) ∧
    (o.fraction fraction).getLast? ≠ some (byte '0') := by
  have noTail (ds : Bytes) : ds ++ zeros o.tail = ds := by
    rw [tail]
    exact List.append_nil ds
  rw [Options.fraction, noTail]
  cases fraction with
  | none => simp [Options.pointed, point]
  | some ds =>
    constructor
    · simp [Options.pointed, strip]
    · rw [Option.elim_some, Options.kept, if_pos strip]
      intro last
      obtain ⟨full, zero⟩ := List.mem_getLast?_eq_getLast last
      have other := List.rdropWhile_last_not isZero ds full
      rw [← zero] at other
      exact other rfl

end Reshape
end Printf
