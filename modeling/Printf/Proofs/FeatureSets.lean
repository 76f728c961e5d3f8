import Printf.Proofs.Calls
import Printf.Proofs.Concat

/-! Feature sets ordered by inclusion. A larger set reads every directive of a smaller one in the
same way, although it looks two letters ahead for a length. A format that is whole in the smaller
set therefore runs in the same way in both, on any sink. -/
namespace Printf

/-- Every conversion family of `F` is one of `G`. -/
structure Features.Within (F G : Features) : Prop where
  float : F.float = true → G.float = true
  c99 : F.c99 = true → G.c99 = true

namespace Directive

variable {F G : Features}

theorem LengthText.widen (within : F.Within G) {text : Bytes} {length : Length}
    (spelled : LengthText F text length) : LengthText G text length := by
  cases spelled with
  | absent => exact .absent
  | h => exact .h
  | l => exact .l
  | bigL => exact .bigL
  | hh c99 => exact .hh (within.c99 c99)
  | ll c99 => exact .ll (within.c99 c99)
  | j c99 => exact .j (within.c99 c99)
  | z c99 => exact .z (within.c99 c99)
  | t c99 => exact .t (within.c99 c99)

theorem Letter.widen (within : F.Within G) {b : UInt8} {c : Conversion} {k : LetterCase}
    (letter : Letter F b c k) : Letter G b c k := by
  cases letter with
  | percent => exact .percent
  | char => exact .char
  | str => exact .str
  | signed => exact .signed
  | integer => exact .integer
  | octal => exact .octal
  | hex => exact .hex
  | upperHex => exact .upperHex
  | unsigned => exact .unsigned
  | charsWritten => exact .charsWritten
  | pointer => exact .pointer
  | fixed float => exact .fixed (within.float float)
  | upperFixed float => exact .upperFixed (within.float float)
  | exponent float => exact .exponent (within.float float)
  | upperExponent float => exact .upperExponent (within.float float)
  | general float => exact .general (within.float float)
  | upperGeneral float => exact .upperGeneral (within.float float)
  | hexFloat float c99 => exact .hexFloat (within.float float) (within.c99 c99)
  | upperHexFloat float c99 => exact .upperHexFloat (within.float float) (within.c99 c99)

/-- Only the length and the letter of a spelling depend on the feature set. -/
theorem Spelling.Denotes.widen (within : F.Within G) {p : Spelling} {d : Directive}
    (denotes : p.Denotes F d) : p.Denotes G d :=
  { denotes with
    length := denotes.length.widen within
    letter := denotes.letter.widen within }

theorem read?_widen (within : F.Within G) {fmt rest : Bytes} {d : Directive}
    (read : read? F fmt = some (d, rest)) : read? G fmt = some (d, rest) := by
  obtain ⟨p, rfl, denotes⟩ := read?_spelled read
  exact read?_text (denotes.widen within) rest

theorem parse?_widen (within : F.Within G) {fmt : Bytes} {d : Directive} {n : Nat}
    (parsed : parse? F fmt = some (d, n)) : parse? G fmt = some (d, n) := by
  simp only [parse?, Option.map_eq_some_iff, Prod.mk.injEq, Prod.exists] at parsed ⊢
  obtain ⟨d, rest, read, rfl, rfl⟩ := parsed
  exact ⟨d, rest, read?_widen within read, rfl, rfl⟩

theorem Letter.isFloat {b : UInt8} {c : Conversion} {k : LetterCase} (letter : Letter F b c k)
    (isFloat : c.isFloat = true) : F.float = true := by
  cases letter with
  | fixed float | upperFixed float | exponent float | upperExponent float | general float
  | upperGeneral float | hexFloat float | upperHexFloat float => exact float
  | _ => cases isFloat

theorem read?_isFloat {fmt rest : Bytes} {d : Directive} (read : read? F fmt = some (d, rest))
    (isFloat : d.conversion.isFloat = true) : F.float = true := by
  obtain ⟨p, -, denotes⟩ := read?_spelled read
  exact denotes.letter.isFloat isFloat

end Directive

variable {F G : Features}

/-- A whole format is cut into the same parts. A percent sign that is literal in the smaller set may
start a directive in the larger one, which is why the format has to be whole. -/
theorem scan_widen (within : F.Within G) {fmt : Bytes} (whole : Whole F fmt) :
    scan G fmt = scan F fmt := by
  induction fmt using scan.induct F with
  | case1 => simp [scan]
  | case2 b fmt d rest read ih =>
    have later := ih ((whole_directive read).mp whole)
    rw [scan_directive read, scan_directive (Directive.read?_widen within read), later]
  | case3 b fmt read ih =>
    obtain ⟨other, whole⟩ := (whole_literal read).mp whole
    have unread : Directive.read? G (b :: fmt) = none := if_neg other
    rw [scan_literal read, scan_literal unread, ih whole]

theorem script_widen (within : F.Within G) {fmt : Bytes} (whole : Whole F (untilNul fmt))
    (args : List Arg) : script G fmt args = script F fmt args := by
  rw [script, script, pieces, pieces, scan_widen within whole]

theorem scan_isFloat {fmt : Bytes} {d : Directive} (part : .directive d ∈ scan F fmt)
    (isFloat : d.conversion.isFloat = true) : F.float = true := by
  induction fmt using scan.induct F with
  | case1 => simp [scan] at part
  | case2 b fmt e rest read ih =>
    rw [scan_directive read] at part
    rcases List.mem_cons.mp part with here | later
    · cases here
      exact Directive.read?_isFloat read isFloat
    · exact ih later
  | case3 b fmt read ih =>
    rw [scan_literal read] at part
    rcases List.mem_cons.mp part with here | later
    · cases here
    · exact ih later

/-- What stands in for float conversions where these are left out. -/
abbrev StandIn := Spec → Cursor → List Step × Cursor

def Piece.stepsOr (standIn : StandIn) (c : Cursor) : Piece → List Step × Cursor
  | .literal b => ([.emit (.text [b])], c)
  | .directive d =>
    if d.conversion.isFloat then standIn (d.resolve c).1 (d.resolve c).2 else d.steps c

def stepsOfOr (standIn : StandIn) : List Piece → Cursor → List Step × Cursor
  | [], c => ([], c)
  | p :: ps, c =>
    ((p.stepsOr standIn c).1 ++ (stepsOfOr standIn ps (p.stepsOr standIn c).2).1,
      (stepsOfOr standIn ps (p.stepsOr standIn c).2).2)

/-- A stand-in makes no difference to parts without a float conversion. -/
theorem stepsOfOr_eq (standIn : StandIn) (ps : List Piece) (c : Cursor)
    (never : ∀ d, .directive d ∈ ps → d.conversion.isFloat = false) :
    stepsOfOr standIn ps c = stepsOf ps c := by
  induction ps generalizing c with
  | nil => rfl
  | cons p ps ih =>
    have now : p.stepsOr standIn c = p.steps c := by
      cases p with
      | literal b => rfl
      | directive d => simp [Piece.stepsOr, Piece.steps, never d List.mem_cons_self]
    rw [stepsOfOr, stepsOf_cons, now, ih _ fun d part => never d (List.mem_cons_of_mem _ part)]

/-- A larger feature set reads every directive of a smaller one in the same way. A format whose
percent signs all start directives of the smaller set does the same in both: the sink, whichever it
is, gets the same calls, the count is the same, and so are the cells. Without float conversions no
part of a format is one, so that it makes no difference what stands in for them. -/
theorem features_conservative (within : F.Within G) (fmt : Bytes) (args : List Arg) (S : Sink σ)
    (s : σ) (cells : List Nat) :
    (∀ text d n, Directive.parse? F text = some (d, n) → Directive.parse? G text = some (d, n)) ∧
    (Whole F (untilNul fmt) →
      content G fmt args = content F fmt args ∧
      formatTo S.logged G fmt args (s, []) cells = formatTo S.logged F fmt args (s, []) cells ∧
      formatTo S G fmt args s cells = formatTo S F fmt args s cells) ∧
    (F.float = false →
      (∀ d, .directive d ∈ pieces F fmt → d.conversion.isFloat = false) ∧
      ∀ standIn, (stepsOfOr standIn (pieces F fmt) (.ofList args)).1 = script F fmt args) := by
  refine ⟨fun text d n => Directive.parse?_widen within, ?_, ?_⟩
  · intro whole
    have same := script_widen within whole args
    refine ⟨?_, ?_, ?_⟩
    · rw [content_eq, content_eq, same]
    · rw [formatTo, formatTo, same]
    · rw [formatTo, formatTo, same]
  · intro bare
    have never : ∀ d, .directive d ∈ pieces F fmt → d.conversion.isFloat = false := by
      intro d part
      refine Bool.eq_false_iff.mpr fun isFloat => ?_
      rw [scan_isFloat part isFloat] at bare
      cases bare
    refine ⟨never, fun standIn => ?_⟩
    rw [stepsOfOr_eq standIn _ _ never, script]

/-- With longer lengths and floats at hand, `%hd` still takes one letter, and `%hd=%lu%%` still
writes `-1=7%`. -/
theorem features_conservative_short :
    let bare : Features := ⟨false, false⟩
    let full : Features := ⟨true, true⟩
    let fmt := utf8 "%hd=%lu%%"
    let args := [Arg.int 65535, .uint 7]
    bare.Within full ∧ Whole bare (untilNul fmt) ∧
    Directive.parse? full fmt =
      some ({ length := .h, conversion := .signed, letterCase := .none }, 3) ∧
    content full fmt args = utf8 "-1=7%" ∧
    (formatTo .counter full fmt args 0 []).written = 6 := by
  intro bare full fmt args
  have within : bare.Within full := ⟨fun _ => rfl, fun _ => rfl⟩
  have whole : Whole bare (untilNul fmt) := by decide +kernel
  obtain ⟨parsed, runs, -⟩ := features_conservative within fmt args .counter 0 []
  obtain ⟨bytes, -, run⟩ := runs whole
  refine ⟨within, whole, parsed fmt _ _ (by decide), bytes.trans (by decide +kernel), ?_⟩
  rw [run]
  decide +kernel

end Printf
