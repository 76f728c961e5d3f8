import Printf.Proofs.Offer

/-! Arguments stay aligned with the parts of a format. The slots that a part takes follow from the
format and the length of the argument list alone, so that an argument of a wrong kind has no effect
beyond the directive that takes it. -/
namespace Printf

/-- The kinds of argument that a conversion takes. -/
def Conversion.takes : Conversion → Arg → Bool
  | .char, a | .signed, a | .octal, a | .hex, a | .unsigned, a | .pointer, a =>
    match a with
    | .int _ | .uint _ | .char _ | .ptr _ => true
    | _ => false
  | .fixed, a | .exponent, a | .general, a | .hexFloat, a =>
    match a with
    | .float _ | .int _ | .uint _ => true
    | _ => false
  | .str, a =>
    match a with
    | .str _ => true
    | _ => false
  | .charsWritten, a =>
    match a with
    | .count _ => true
    | _ => false
  | .percent, _ => false

/-- An argument is taken just if the conversion makes something of it: an image or a count. -/
theorem Spec.takes_iff (s : Spec) (a : Arg) :
    s.conversion.takes a = true ↔
      (s.image? a).isSome ∨ s.conversion = .charsWritten ∧ a.cell?.isSome := by
  cases kind : s.conversion <;> cases a <;>
    simp [Conversion.takes, Spec.image?, kind, Arg.unsigned?, Arg.signed?, Arg.pointer?, Arg.bits?,
      Arg.str?, Arg.float?, Arg.cell?]

theorem Spec.image?_eq_none {s : Spec} {a : Arg} (other : s.conversion.takes a = false) :
    s.image? a = none := by
  cases made : s.image? a with
  | none => rfl
  | some image =>
    have taken := (s.takes_iff a).mpr (Or.inl (by rw [made]; rfl))
    rw [other] at taken
    cases taken

theorem contents_emit (out : Output) : contents (out.map .emit) = out.toList := by
  induction out with
  | nil => rfl
  | cons c out ih =>
    rw [List.map_cons, Output.toList_cons, ← ih]
    rfl

/-- A directive writes the fitted image of its value; one without an image writes nothing. -/
theorem Spec.contents_steps (s : Spec) (a : Arg) :
    contents (s.steps a) =
      (s.image? a).elim [] fun image => Output.toList (image.fit s.flags s.width) := by
  rw [steps]
  split
  · next kind =>
    have noImage : s.image? a = none := by simp [image?, kind]
    rw [noImage]
    cases a.cell? <;> rfl
  · cases s.image? a with
    | none => rfl
    | some image => exact contents_emit _

namespace Directive

def resolveWith (d : Directive) (w p : Option Arg) : Spec :=
  let starred := starWidth d.flags (w.bind (Arg.signed? .none))
  { flags := if d.width = .fromArg then starred.1 else d.flags
    width := if d.width = .fromArg then starred.2 else d.fieldWidth
    precision :=
      if d.precision = .fromArg then starPrecision (p.bind (Arg.signed? .none))
      else d.precision.value?
    length := d.length
    conversion := d.conversion
    letterCase := d.letterCase }

def output (d : Directive) (w p v : Option Arg) : Bytes :=
  if d.conversion = .percent then [byte '%'] else contents (v.elim [] (d.resolveWith w p).steps)

theorem resolve_eq (d : Directive) (c : Cursor) :
    d.resolve c = (d.resolveWith c.rest[0]? c.rest[d.width.slots]?,
      c.skip (d.width.slots + d.precision.slots)) := by
  obtain ⟨flags, width, precision, length, conversion, letterCase⟩ := d
  cases width <;> cases precision <;>
    simp [resolve, resolveWidth, resolvePrecision, resolveWith, Field.slots, Field.value?,
      fieldWidth, Cursor.take, Cursor.next_fst, Cursor.next_snd, Cursor.skip_skip]

def stepsWith (d : Directive) (w p v : Option Arg) : List Step :=
  if d.conversion = .percent then [.emit (.text [byte '%'])] else v.elim [] (d.resolveWith w p).steps

/-- The width comes first, then the precision, then the value. -/
theorem steps_fst (d : Directive) (c : Cursor) :
    (d.steps c).1 = d.stepsWith c.rest[0]? c.rest[d.width.slots]?
      c.rest[d.width.slots + d.precision.slots]? := by
  by_cases percent : d.conversion = .percent
  · simp [steps, resolve_eq, stepsWith, percent]
  · simp [steps, resolve_eq, stepsWith, percent, Cursor.next_fst]

theorem contents_stepsWith (d : Directive) (w p v : Option Arg) :
    contents (d.stepsWith w p v) = d.output w p v := by
  rw [stepsWith, output]
  split <;> rfl

theorem contents_steps (d : Directive) (c : Cursor) :
    contents (d.steps c).1 = d.output c.rest[0]? c.rest[d.width.slots]?
      c.rest[d.width.slots + d.precision.slots]? := by
  rw [steps_fst, contents_stepsWith]

theorem steps_snd (d : Directive) (c : Cursor) : (d.steps c).2 = c.skip d.slots := by
  by_cases percent : d.conversion = .percent
  · simp [steps, resolve_eq, slots, percent]
  · simp [steps, resolve_eq, slots, percent, Cursor.next_snd, Cursor.skip_skip]

theorem output_eq_nil {d : Directive} {w p v : Option Arg} (value : d.conversion ≠ .percent)
    (other : v.any d.conversion.takes = false) : d.output w p v = [] := by
  rw [output, if_neg value]
  cases v with
  | none => rfl
  | some a =>
    have noImage : (d.resolveWith w p).image? a = none := Spec.image?_eq_none other
    rw [Option.elim_some, Spec.contents_steps, noImage, Option.elim_none]

/-- Only the arguments that a directive takes have an effect on its steps. -/
theorem stepsWith_congr (d : Directive) {w w' p p' v v' : Option Arg}
    (width : d.width = .fromArg → w' = w) (precision : d.precision = .fromArg → p' = p)
    (value : d.conversion ≠ .percent → v' = v) : d.stepsWith w' p' v' = d.stepsWith w p v := by
  by_cases percent : d.conversion = .percent
  · simp [stepsWith, percent]
  · have resolved : d.resolveWith w' p' = d.resolveWith w p := by
      by_cases star : d.width = .fromArg <;> by_cases pointStar : d.precision = .fromArg <;>
        simp [resolveWith, star, pointStar, width, precision]
    rw [stepsWith, stepsWith, resolved, value percent]

end Directive

/-- Argument slots a part of a format takes. A malformed directive is literal bytes and takes none. -/
def Piece.slots : Piece → Nat
  | .literal _ => 0
  | .directive d => d.slots

/-- Where the cursor stands in front of the parts and behind a part, and what the part writes. -/
structure Expansion where
  piece : Piece
  start : Nat
  stop : Nat
  bytes : Bytes
  deriving DecidableEq, Repr

def expand : List Piece → Cursor → List Expansion
  | [], _ => []
  | p :: ps, c =>
    ⟨p, c.position, (p.steps c).2.position, contents (p.steps c).1⟩ :: expand ps (p.steps c).2

def expansions (features : Features) (fmt : Bytes) (args : List Arg) : List Expansion :=
  expand (pieces features fmt) (.ofList args)

def slotsOf : List Piece → Nat
  | [] => 0
  | p :: ps => p.slots + slotsOf ps

/-- The bytes a part writes when the slots from `first` on are its own. -/
def Piece.output (args : List Arg) (first : Nat) : Piece → Bytes
  | .literal b => [b]
  | .directive d => d.output args[first]? args[first + d.width.slots]?
      args[first + d.width.slots + d.precision.slots]?

theorem Piece.steps_snd (p : Piece) (c : Cursor) : (p.steps c).2 = c.skip p.slots := by
  cases p with
  | literal b => simp [steps, slots]
  | directive d => exact d.steps_snd c

theorem expand_flatMap (ps : List Piece) (c : Cursor) :
    (expand ps c).flatMap (·.bytes) = contents (stepsOf ps c).1 := by
  induction ps generalizing c with
  | nil => rfl
  | cons p ps ih => simp [expand, stepsOf, ih]

theorem expand_getElem? (ps : List Piece) (c : Cursor) (i : Nat) :
    (expand ps c)[i]? = ps[i]?.map fun p =>
      ⟨p, (c.skip (slotsOf (ps.take i))).position, (c.skip (slotsOf (ps.take i) + p.slots)).position,
        contents (p.steps (c.skip (slotsOf (ps.take i)))).1⟩ := by
  induction ps generalizing c i with
  | nil => rfl
  | cons p ps ih =>
    cases i with
    | zero => simp [expand, slotsOf, p.steps_snd]
    | succ i => simp [expand, slotsOf, p.steps_snd, ih, Cursor.skip_skip, Nat.add_assoc]

theorem expansions_getElem? (features : Features) (fmt : Bytes) (args : List Arg) (i : Nat) :
    (expansions features fmt args)[i]? = (pieces features fmt)[i]?.map fun p =>
      let first := slotsOf ((pieces features fmt).take i)
      ⟨p, min first args.length, min (first + p.slots) args.length, p.output args first⟩ := by
  rw [expansions, expand_getElem?]
  congr 1
  funext p
  cases p with
  | literal b => simp [Cursor.ofList_skip, Piece.steps, Piece.output, contents, Chunk.toList]
  | directive d =>
    simp [Cursor.ofList_skip, Piece.steps, Piece.output, d.contents_steps, Nat.add_assoc]

theorem expansions_flatMap (features : Features) (fmt : Bytes) (args : List Arg) :
    (expansions features fmt args).flatMap (·.bytes) = content features fmt args := by
  rw [content_eq]
  exact expand_flatMap _ _

def Piece.stepsAt (args : List Arg) (first : Nat) : Piece → List Step
  | .literal b => [.emit (.text [b])]
  | .directive d => d.stepsWith args[first]? args[first + d.width.slots]?
      args[first + d.width.slots + d.precision.slots]?

theorem Piece.steps_fst (p : Piece) (c : Cursor) : (p.steps c).1 = p.stepsAt c.rest 0 := by
  cases p with
  | literal b => rfl
  | directive d => simp [steps, stepsAt, d.steps_fst]

theorem Piece.contents_stepsAt (p : Piece) (args : List Arg) (first : Nat) :
    contents (p.stepsAt args first) = p.output args first := by
  cases p with
  | literal b => rfl
  | directive d => exact d.contents_stepsWith _ _ _

theorem Piece.stepsAt_congr (p : Piece) {args args' : List Arg} {first first' : Nat}
    (agree : ∀ j < p.slots, args'[first' + j]? = args[first + j]?) :
    p.stepsAt args' first' = p.stepsAt args first := by
  cases p with
  | literal b => rfl
  | directive d =>
    refine d.stepsWith_congr ?_ ?_ ?_
    · intro star
      refine agree 0 ?_
      simp only [slots, Directive.slots, star, Field.slots]
      omega
    · intro star
      refine agree _ ?_
      simp only [slots, Directive.slots, star, Field.slots]
      omega
    · intro value
      rw [Nat.add_assoc, Nat.add_assoc]
      refine agree _ ?_
      simp only [slots, Directive.slots, if_neg value]
      omega

theorem Piece.output_congr (p : Piece) {args args' : List Arg} {first : Nat}
    (agree : ∀ j, first ≤ j → j < first + p.slots → args'[j]? = args[j]?) :
    p.output args' first = p.output args first := by
  have same : p.stepsAt args' first = p.stepsAt args first :=
    p.stepsAt_congr fun j bound => agree _ (Nat.le_add_right _ _) (Nat.add_lt_add_left bound _)
  rw [← contents_stepsAt, ← contents_stepsAt, same]

theorem stepsOf_snd (ps : List Piece) (c : Cursor) :
    (stepsOf ps c).2 = c.skip (slotsOf ps) := by
  induction ps generalizing c with
  | nil => simp [stepsOf, slotsOf]
  | cons p ps ih => simp [stepsOf, slotsOf, p.steps_snd, ih, Cursor.skip_skip]

/-- The output is that of the parts, in order. Each part takes the slots that the format assigns to
it, whatever the arguments are: one for each star, the width first, and one for a value. A value of a
wrong kind, or none, writes nothing, and two lists of one length that differ only in slot `k` write
the same in every part that does not take this slot. -/
theorem arguments_stay_aligned (features : Features) (fmt : Bytes) (args args' : List Arg) (k : Nat)
    (same : args'.length = args.length) (only : ∀ j, j ≠ k → args'[j]? = args[j]?) :
    let ps := pieces features fmt
    let run := expansions features fmt args
    content features fmt args = run.flatMap (·.bytes) ∧
    run.map (·.piece) = ps ∧
    (stepsOf ps (.ofList args)).2.position = min (slotsOf ps) args.length ∧
    ∀ (i : Nat) (e : Expansion), run[i]? = some e →
      e.start = min (slotsOf (ps.take i)) args.length ∧
      e.stop = min (slotsOf (ps.take i) + e.piece.slots) args.length ∧
      e.bytes = e.piece.output args (slotsOf (ps.take i)) ∧
      (∀ d, e.piece = .directive d → d.conversion ≠ .percent →
        args[slotsOf (ps.take i) + d.width.slots + d.precision.slots]?.any d.conversion.takes = false →
        e.bytes = []) ∧
      ∃ e', (expansions features fmt args')[i]? = some e' ∧ e'.piece = e.piece ∧
        e'.start = e.start ∧ e'.stop = e.stop ∧
        (k < e.start ∨ e.stop ≤ k → e'.bytes = e.bytes) := by
  intro ps run
  refine ⟨(expansions_flatMap features fmt args).symm, ?_, ?_, ?_⟩
  · apply List.ext_getElem?
    intro i
    rw [List.getElem?_map, expansions_getElem?]
    cases (pieces features fmt)[i]? <;> rfl
  · rw [stepsOf_snd, Cursor.ofList_skip]
  · intro i e found
    rw [expansions_getElem?, Option.map_eq_some_iff] at found
    obtain ⟨p, part, rfl⟩ := found
    have other := expansions_getElem? features fmt args' i
    rw [part, Option.map_some, same] at other
    refine ⟨rfl, rfl, rfl, ?_, _, other, rfl, rfl, rfl, ?_⟩
    · rintro d rfl value mismatch
      exact Directive.output_eq_nil value mismatch
    · intro apart
      refine p.output_congr fun j low high => ?_
      by_cases own : j = k
      · -- a slot of this part that is not between its ends lies behind the end of the list
        subst own
        have outside : args.length ≤ j := by
          dsimp only at apart
          omega
        rw [List.getElem?_eq_none outside, List.getElem?_eq_none (same ▸ outside)]
      · exact only j own

/-- In `%s-%*c` a text in place of a number changes the first directive and not the last. -/
theorem arguments_stay_aligned_behind_mismatch :
    let fmt := utf8 "%s-%*c"
    let args := [Arg.int 7, .int 3, .char 120]
    let args' := [Arg.str (utf8 "ab"), .int 3, .char 120]
    (∃ e, (expansions ⟨true, true⟩ fmt args)[0]? = some e ∧ e.bytes = []) ∧
    ∃ e e', (expansions ⟨true, true⟩ fmt args)[2]? = some e ∧
      (expansions ⟨true, true⟩ fmt args')[2]? = some e' ∧
      e.bytes = utf8 "  x" ∧ e'.bytes = e.bytes := by
  intro fmt args args'
  have parts : pieces ⟨true, true⟩ fmt = [.directive (.plain .str .none), .literal (byte '-'),
      .directive { width := .fromArg, conversion := .char, letterCase := .none }] := by
    have str : Directive.read? ⟨true, true⟩ (utf8 "%s-%*c") =
        some (.plain .str .none, utf8 "-%*c") := by decide
    have dash : Directive.read? ⟨true, true⟩ (utf8 "-%*c") = none := by decide
    have char : Directive.read? ⟨true, true⟩ (utf8 "%*c") =
        some ({ width := .fromArg, conversion := .char, letterCase := .none }, []) := by decide
    rw [pieces, untilNul_of_not_mem (by decide)]
    exact (scan_directive str).trans (congrArg _ ((scan_literal dash).trans
      (congrArg _ ((scan_directive char).trans (by rw [scan])))))
  have only : ∀ j, j ≠ 0 → args'[j]? = args[j]? := by
    intro j apart
    cases j with
    | zero => exact absurd rfl apart
    | succ j => rfl
  obtain ⟨-, -, -, each⟩ := arguments_stay_aligned ⟨true, true⟩ fmt args args' 0 rfl only
  have run := expansions_getElem? ⟨true, true⟩ fmt args
  rw [parts] at run
  obtain ⟨-, -, -, nothing, -⟩ := each 0 _ (run 0)
  obtain ⟨-, -, -, -, e', found, -, -, -, unchanged⟩ := each 2 _ (run 2)
  refine ⟨⟨_, run 0, nothing _ rfl (by decide) (by rw [parts]; decide)⟩, _, e', run 2, found, ?_, ?_⟩
  · decide
  · exact unchanged (Or.inl (by decide))

end Printf
