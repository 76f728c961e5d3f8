import Printf.Proofs.Calls
import Printf.Proofs.WordDecimals

/-! Plain texts that arrive in pieces. Each piece is fed where the last one left off, and what it
gives goes to the sink at once. How a text is cut into pieces makes no difference to any sink. What a
sink gets is said of the text itself: its digits, where zeros are dropped without those at the end of
the fraction, and its exponent with a sign and two digits at least. -/
namespace Printf

namespace Run

theorem play_append (S : Sink σ) (a b : List Step) (r : Run σ) :
    play S (a ++ b) r =
      if (play S a r).1 then play S b (play S a r).2 else (false, (play S a r).2) := by
  induction a generalizing r with
  | nil => rfl
  | cons step a ih =>
    rcases now : r.perform S step with ⟨answer, next⟩
    cases answer with
    | true => simp only [List.cons_append, play, now, ih]
    | false => simp only [List.cons_append, play, now, Bool.false_eq_true, if_false]

/-- A sink that refuses nothing is offered an output byte for byte. -/
theorem play_unrefused (S : Sink σ) (never : ∀ s b, (S.put s b).1 = true) (out : Output)
    (r : Run σ) :
    play S (out.map .emit) r = (true,
      { r with sink := S.after r.sink out.toList
               written := r.written + out.toList.length }) := by
  induction out generalizing r with
  | nil => rfl
  | cons c out ih =>
    simp only [List.map_cons, play, perform_emit, S.offer_unrefused never, beq_self_eq_true, ih,
      Output.toList_cons, Sink.after, List.foldl_append, List.length_append, Nat.add_assoc]

end Run

namespace Reshape

/-- Reshapes a text that arrives in pieces, on a sink that is offered the bytes as they come. -/
def stream (S : Sink σ) (o : Options) : State → List Bytes → Run σ → Bool × Run σ
  | s, [], r => Run.play S ((finish o s).map .emit) r
  | s, piece :: pieces, r =>
    match Run.play S ((feedAll o s piece).1.map .emit) r with
    | (true, r) => stream S o (feedAll o s piece).2 pieces r
    | (false, r) => (false, r)

/-- A text in pieces and the text at once are the same to every sink, one that refuses bytes too. -/
theorem stream_eq (S : Sink σ) (o : Options) (s : State) (pieces : List Bytes) (r : Run σ) :
    let run := feedAll o s pieces.flatten
    stream S o s pieces r = Run.play S ((run.1 ++ finish o run.2).map .emit) r := by
  induction pieces generalizing s r with
  | nil => rfl
  | cons piece pieces ih =>
    dsimp only at ih ⊢
    rw [List.flatten_cons, feedAll_append, stream, List.append_assoc, List.map_append,
      Run.play_append, ← ih]
    rcases Run.play S ((feedAll o s piece).1.map .emit) r with ⟨answer, next⟩
    cases answer <;> rfl

/-- Settings that a plain text is reshaped with. Zeros are not dropped where the point is forced, an
exponent is written iff the text has one, and further zeros stand behind a fraction that keeps its
own. -/
structure Options.Suits (o : Options) (p : Parts) : Prop where
  apart : ¬(o.strip = true ∧ o.point = true)
  marker : o.marker.isSome = p.exponent.isSome
  stripped : o.strip = true → o.tail = 0
  tail : 0 < o.tail → p.fraction.isSome = true

/-- What stays of a fraction without the zeros at its end is written behind a point, if anything
stays. -/
theorem mantissa_stripped {o : Options} {p : Parts} (suits : o.Suits p) (strip : o.strip = true) :
    ∃ kept n, p.fraction.getD [] = kept ++ zeros n ∧ kept.getLast? ≠ some (byte '0') ∧
      (if o.pointed p.fraction then [byte '.'] else []) ++ o.fraction p.fraction =
        pointedFraction kept := by
  have point : o.point = false := by simpa [strip] using suits.apart
  obtain ⟨pointed, last⟩ := fraction_stripped strip point (suits.stripped strip) p.fraction
  have kept : o.fraction p.fraction = (p.fraction.getD []).rdropWhile isZero := by
    rw [Options.fraction, suits.stripped strip]
    cases p.fraction with
    | none => rfl
    | some ds =>
      rw [Option.elim_some, Options.kept, if_pos strip]
      exact List.append_nil _
  refine ⟨_, ((p.fraction.getD []).rtakeWhile isZero).length, ?_, last, ?_⟩
  · rw [kept]
    exact (rdropWhile_zeros _).symm
  · rw [pointedFraction]
    by_cases none : o.fraction p.fraction = []
    · rw [if_neg (by rw [pointed]; exact not_not.mpr none), none, if_pos rfl]
      rfl
    · rw [if_pos (pointed.mpr none), if_neg none]
      rfl

/-- A fraction that keeps its zeros is copied, and a forced point stands behind digits without one. -/
theorem mantissa_kept {o : Options} (strip : o.strip = false) (fraction : Option Bytes) :
    (if o.pointed fraction then [byte '.'] else []) ++ o.fraction fraction =
      fraction.elim [] (byte '.' :: ·) ++
        ((if o.point = true ∧ fraction = none then [byte '.'] else []) ++ zeros o.tail) := by
  rw [pointed_kept strip, fraction_kept strip]
  cases fraction <;> simp

end Reshape

namespace Machine

def stream (word : Nat) (S : Sink σ) (o : Reshape.Options) :
    Reshape.State → List Bytes → Run σ → Checked (Bool × Run σ)
  | s, [], r => do return Run.play S ((← close o s).map .emit) r
  | s, piece :: pieces, r => do
    let fed ← shape word o s piece
    match Run.play S (fed.1.map .emit) r with
    | (true, r) => stream word S o fed.2 pieces r
    | (false, r) => return (false, r)

/-- Counters that fit their words at the end of the last piece fit them in all pieces. -/
theorem stream_ok {word : Nat} (S : Sink σ) {o : Reshape.Options} {s : Reshape.State}
    {pieces : List Bytes} (zeros : s.heldZeros + pieces.flatten.length < 2 ^ word)
    (exponent : (Reshape.feedAll o s pieces.flatten).2.exponent < 2 ^ 64) (r : Run σ) :
    stream word S o s pieces r = .ok (Reshape.stream S o s pieces r) := by
  induction pieces generalizing s r with
  | nil =>
    have closed : close o s = .ok (Reshape.finish o s) := close_ok o exponent
    rw [stream, closed]
    rfl
  | cons piece pieces ih =>
    rw [List.flatten_cons, List.length_append] at zeros
    rw [List.flatten_cons, Reshape.feedAll_append] at exponent
    have held := Reshape.feedAll_heldZeros_le o s piece
    have collected := (Reshape.feedAll_exponent_le o _ pieces.flatten).trans_lt exponent
    have later := ih (s := (Reshape.feedAll o s piece).2) (by omega) exponent
    rw [stream, shape_ok (by omega) collected, ok_bind, Reshape.stream]
    rcases Run.play S ((Reshape.feedAll o s piece).1.map .emit) r with ⟨answer, next⟩
    cases answer with
    | true => exact later next
    | false => rfl

end Machine

namespace FloatStyle

/-- The settings of a decimal layout suit the text of a number. -/
theorem suits_parts (n places : Nat) {strip point : Bool} (apart : ¬(strip = true ∧ point = true))
    (exponent : Option (UInt8 × Int)) :
    Reshape.Options.Suits ⟨strip, point, exponent.map (·.1), tail places strip⟩
      (Decimal.parts n (min places exactPlaces) (exponent.map (·.2))) where
  apart := apart
  marker := by cases exponent <;> rfl
  stripped := by
    rintro rfl
    rfl
  tail := by
    intro some
    obtain zero | ⟨-, fraction⟩ := tail_cases n places strip (exponent.map (·.2))
    · exact absurd zero some.ne'
    · exact fraction

/-- A decimal layout, which does not drop zeros where it forces the point. -/
def IsDecimal : FloatStyle → Prop
  | .fixed _ strip point | .scientific _ strip point _ => ¬(strip = true ∧ point = true)
  | .hex _ _ _ => False

theorem ofSpec_isDecimal (r : Ratio) {s : Spec} (decimal : s.conversion ≠ .hexFloat) :
    (ofSpec r s).IsDecimal := by
  rw [ofSpec]
  split
  · simp [IsDecimal]
  · rw [general]
    split <;> simp [IsDecimal]
  · next hex => exact absurd hex decimal
  · simp [IsDecimal]

end FloatStyle

/-- The body of a decimal conversion is the text of its number, reshaped with settings that suit it, in
whatever pieces it arrives. -/
theorem Spec.body_streamed {s : Spec} (decimal : s.conversion ≠ .hexFloat) {x : Binary64}
    (finite : x.isFinite = true) :
    ∃ (o : Reshape.Options) (p : Reshape.Parts), p.AllDigits ∧ o.Suits p ∧
      (∀ e ∈ p.exponent, readDigits 10 false e.2 < 2 ^ 64) ∧
      ∀ pieces : List Bytes, pieces.flatten = p.text → ∀ {σ : Type} (S : Sink σ) (r : Run σ),
        Reshape.stream S o {} pieces r =
          Run.play S (((FloatStyle.ofSpec x.magnitude s).body x).map .emit) r := by
  have layout := FloatStyle.ofSpec_isDecimal x.magnitude decimal
  generalize FloatStyle.ofSpec x.magnitude s = style at layout
  cases style with
  | fixed places strip point =>
    refine ⟨_, _, Decimal.parts_digits _ _ _, FloatStyle.suits_parts
      (x.magnitude.timesPow 10 (min places exactPlaces : Nat)).round places layout none, ?_, ?_⟩
    · intro e none
      cases none
    · intro pieces split σ S r
      rw [Reshape.stream_eq, split, FloatStyle.body, Decimal.fixedText_parts]
      rfl
  | scientific places strip point upper =>
    refine ⟨_, _, Decimal.parts_digits _ _ _, FloatStyle.suits_parts
      (Decimal.scientific x.magnitude (min places exactPlaces)).digits places layout
      (some (if upper then byte 'E' else byte 'e', FloatStyle.roundedExponent x places)), ?_, ?_⟩
    · intro e found
      have bounds := FloatStyle.roundedExponent_bounds finite places
      cases found
      rw [readDigits_decimal]
      dsimp only
      omega
    · intro pieces split σ S r
      rw [Reshape.stream_eq, split, FloatStyle.body, Decimal.scientificText_parts]
      rfl
  | hex precision point upper => exact False.elim layout

namespace Image

def front (image : Image) (flags : Flags) (width : Nat) : Output :=
  let missing := width - image.size
  if flags.leftJustify then [.text image.lead]
  else if flags.zeroPad && image.zeroable then [.text image.lead, .fill missing (byte '0')]
  else [.fill missing (byte ' '), .text image.lead]

def back (image : Image) (flags : Flags) (width : Nat) : Output :=
  if flags.leftJustify then [.fill (width - image.size) (byte ' ')] else []

theorem fit_body (image : Image) (flags : Flags) (width : Nat) :
    image.fit flags width = image.front flags width ++ (image.body ++ image.back flags width) := by
  rw [fit, front, back, bare]
  cases flags.leftJustify
  · cases flags.zeroPad && image.zeroable <;> simp
  · simp

end Image

/-- A decimal conversion of a finite number on any sink: the field in front of the body, the text of the
number as it comes in pieces, and the field behind it. The first byte that is refused ends the run,
within the body too. -/
theorem Spec.float_streamed {s : Spec}
    (decimal : s.conversion = .fixed ∨ s.conversion = .exponent ∨ s.conversion = .general)
    {x : Binary64} (finite : x.isFinite = true) :
    ∃ (o : Reshape.Options) (p : Reshape.Parts), p.AllDigits ∧ o.Suits p ∧
      (∀ e ∈ p.exponent, readDigits 10 false e.2 < 2 ^ 64) ∧
      ∀ pieces : List Bytes, pieces.flatten = p.text → ∀ {σ : Type} (S : Sink σ) (r : Run σ),
        Run.play S (s.steps (.float x)) r =
          match Run.play S (((s.floatImage x).front s.flags s.width).map .emit) r with
          | (false, r) => (false, r)
          | (true, r) =>
            match Reshape.stream S o {} pieces r with
            | (false, r) => (false, r)
            | (true, r) => Run.play S (((s.floatImage x).back s.flags s.width).map .emit) r := by
  have steps : s.steps (.float x) = ((s.floatImage x).fit s.flags s.width).map .emit := by
    rcases decimal with conversion | conversion | conversion <;>
      simp [Spec.steps, Spec.image?, conversion, Arg.float?]
  have body : (s.floatImage x).body = (FloatStyle.ofSpec x.magnitude s).body x := by
    rw [Spec.floatImage, if_pos finite]
  have other : s.conversion ≠ .hexFloat := by
    rcases decimal with conversion | conversion | conversion <;> simp [conversion]
  obtain ⟨o, p, digits, suits, word, streamed⟩ := Spec.body_streamed other finite
  refine ⟨o, p, digits, suits, word, fun pieces split σ S r => ?_⟩
  rw [steps, Image.fit_body, List.map_append, List.map_append, Run.play_append]
  rcases Run.play S (((s.floatImage x).front s.flags s.width).map .emit) r with ⟨answer, r⟩
  cases answer with
  | false => rfl
  | true =>
    dsimp only
    rw [if_pos rfl, Run.play_append, body, ← streamed pieces split]
    rcases Reshape.stream S o {} pieces r with ⟨answer, r⟩
    cases answer <;> rfl

namespace Reshape

/-- A plain text is reshaped as its settings say, in whatever pieces it arrives, and a sink that
refuses nothing gets each byte of the outcome once and in order. Where zeros are dropped, the mantissa
is the one of the text without the zeros at the end of its fraction, and without its point if no digit
is left behind it; else it is copied, with a forced point where it has none, and with the further
zeros. Behind a marker follow the sign of the exponent and its digits without zeros in front, filled
up to two. An exponent of 64 bits is collected without a fault, and the held zeros of a text whose
length fits a word are counted without one. -/
theorem stream_reshapes {o : Options} {p : Parts} (digits : p.AllDigits) (suits : o.Suits p)
    {pieces : List Bytes} (split : pieces.flatten = p.text) (S : Sink σ)
    (never : ∀ s b, (S.put s b).1 = true) (r : Run σ) :
    ∃ mantissa exponent : Bytes,
      Output.toList (reshape o p.text) = mantissa ++ exponent ∧
      stream S o {} pieces r = (true,
        { r with sink := S.after r.sink (mantissa ++ exponent)
                 written := r.written + (mantissa ++ exponent).length }) ∧
      (o.strip = true → ∃ kept n, p.fraction.getD [] = kept ++ zeros n ∧
        kept.getLast? ≠ some (byte '0') ∧
        mantissa = p.whole ++ if kept = [] then [] else byte '.' :: kept) ∧
      (o.strip = false → mantissa = p.whole ++ (p.fraction.elim [] (byte '.' :: ·) ++
        ((if o.point = true ∧ p.fraction = none then [byte '.'] else []) ++ zeros o.tail))) ∧
      (o.marker = none → exponent = []) ∧
      (∀ m ∈ o.marker, ∃ minus K, p.exponent = some (minus, K) ∧
        exponent = m :: (if minus then byte '-' else byte '+') ::
          (zeros (2 - (K.dropWhile isZero).length) ++ K.dropWhile isZero)) ∧
      ∀ word, p.text.length < 2 ^ word →
        (∀ e ∈ p.exponent, readDigits 10 false e.2 < 2 ^ 64) →
        Machine.stream word S o {} pieces r = .ok (stream S o {} pieces r) := by
  refine ⟨p.whole ++ ((if o.pointed p.fraction then [byte '.'] else []) ++ o.fraction p.fraction),
    (o.exponent p.exponent).elim [] Exponent.text, ?_, ?_, ?_, ?_, ?_, ?_, ?_⟩
  · rw [← text_numeral, reshape_text o digits]
  · have streamed := (stream_eq S o {} pieces r).trans (Run.play_unrefused S never _ r)
    have written : Output.toList ((feedAll o {} p.text).1 ++ finish o (feedAll o {} p.text).2) = _ :=
      reshape_text o digits
    rwa [split, written, text_numeral] at streamed
  · intro strip
    obtain ⟨kept, n, fraction, last, written⟩ := mantissa_stripped suits strip
    refine ⟨kept, n, fraction, last, ?_⟩
    rw [written, pointedFraction]
  · intro strip
    rw [mantissa_kept strip]
  · intro none
    rw [Options.exponent, none]
    rfl
  · intro m marked
    have some := suits.marker
    rw [marked, Option.isSome_some] at some
    obtain ⟨⟨minus, K⟩, found⟩ := Option.isSome_iff_exists.mp some.symm
    refine ⟨minus, K, found, ?_⟩
    rw [Options.exponent, marked, found, ← twoDigits_eq (digits.exponent _ found)]
    rfl
  · intro word short word64
    apply Machine.stream_ok
    · rw [split]
      exact (Nat.zero_add _).trans_lt short
    · rw [split, feedAll_exponent_eq o digits]
      cases found : p.exponent with
      | none => exact Nat.two_pow_pos 64
      | some e =>
        rw [Option.elim_some, (digits.exponent e found).decimalValue]
        exact word64 e found

/-- A text that is cut within the zeros of its fraction and within its exponent. -/
theorem stream_reshapes_between_zeros :
    let o : Options := ⟨true, false, some (byte 'e'), 0⟩
    let p : Parts := ⟨utf8 "1", some (utf8 "0500"), some (true, utf8 "007")⟩
    let pieces := [utf8 "1.0", utf8 "50", [], utf8 "0e-0", utf8 "07"]
    p.AllDigits ∧ o.Suits p ∧ pieces.flatten = p.text ∧
    (∀ s b, (Sink.recording.put s b).1 = true) ∧
    Machine.stream 32 Sink.recording o {} pieces ⟨[], 0, []⟩ =
      .ok (true, ⟨utf8 "1.05e-07", 8, []⟩) := by
  intro o p pieces
  have digits : p.AllDigits :=
    { whole := by decide +kernel
      fraction := by decide +kernel
      exponent := by decide +kernel }
  have suits : o.Suits p := ⟨by decide, rfl, fun _ => rfl, fun _ => rfl⟩
  have split : pieces.flatten = p.text := by decide
  obtain ⟨mantissa, exponent, outcome, streamed, -, -, -, -, words⟩ :=
    stream_reshapes digits suits split Sink.recording (fun _ _ => rfl) ⟨[], 0, []⟩
  have text : mantissa ++ exponent = utf8 "1.05e-07" := outcome.symm.trans (by decide +kernel)
  refine ⟨digits, suits, split, fun _ _ => rfl, ?_⟩
  rw [words 32 (by decide) (by decide), streamed, text, Sink.after_recording]
  rfl

/-- Zeros dropped and the point forced at once would leave a point behind digits without a fraction. -/
example : Output.toList (reshape ⟨true, true, none, 0⟩ (utf8 "5")) = utf8 "5." := by decide

end Reshape
end Printf
