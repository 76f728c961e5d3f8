import Printf.Argument
import Printf.Directive.Parser
import Printf.Float
import Printf.Integer

/-! From a format and its arguments to a script: chunks to write and counts to record, in order.
A script knows nothing of where it is played, so that all destinations are offered the same
bytes. -/
namespace Printf

inductive Piece where
  | literal (b : UInt8)
  | directive (d : Directive)
  deriving DecidableEq, Repr

/-- The parts of a format without a NUL. A percent sign that starts no directive is a literal. -/
def scan (features : Features) (fmt : Bytes) : List Piece :=
  match fmt with
  | [] => []
  | b :: rest =>
    match _h : Directive.read? features (b :: rest) with
    | some (d, rest) => .directive d :: scan features rest
    | none => .literal b :: scan features rest
termination_by fmt.length
decreasing_by
  · have := Directive.read?_length _h; simp only [List.length_cons] at *; omega
  · simp

theorem scan_directive {features : Features} {b : UInt8} {fmt rest : Bytes} {d : Directive}
    (read : Directive.read? features (b :: fmt) = some (d, rest)) :
    scan features (b :: fmt) = .directive d :: scan features rest := by
  rw [scan]
  split
  · next found =>
    rw [read] at found
    cases found
    rfl
  · next missing =>
    rw [read] at missing
    cases missing

theorem scan_literal {features : Features} {b : UInt8} {fmt : Bytes}
    (unread : Directive.read? features (b :: fmt) = none) :
    scan features (b :: fmt) = .literal b :: scan features fmt := by
  rw [scan]
  split
  · next found =>
    rw [unread] at found
    cases found
  · rfl

/-- The parts of a format, which ends at its first NUL. -/
def pieces (features : Features) (fmt : Bytes) : List Piece := scan features (untilNul fmt)

inductive Step where
  | emit (chunk : Chunk)
  /-- Store the number of bytes written so far. -/
  | record (cell : Nat)
  deriving DecidableEq, Repr

/-- A width from an argument. A negative one justifies to the left; a missing one is no width. -/
def starWidth (flags : Flags) : Option Int → Flags × Nat
  | some w =>
    (if w < 0 then { flags with leftJustify := true, zeroPad := false } else flags,
      min w.natAbs maxField)
  | none => (flags, 0)

/-- A precision from an argument. A negative or missing one is no precision. -/
def starPrecision : Option Int → Option Nat
  | some p => if 0 ≤ p then some (min p.toNat maxField) else none
  | none => none

namespace Directive

def resolveWidth (d : Directive) (c : Cursor) : (Flags × Nat) × Cursor :=
  match d.width with
  | .fromArg =>
    let (w, c) := c.take (Arg.signed? .none)
    (starWidth d.flags w, c)
  | .fixed w => ((d.flags, w), c)
  | .unset => ((d.flags, 0), c)

def resolvePrecision (d : Directive) (c : Cursor) : Option Nat × Cursor :=
  match d.precision with
  | .fromArg =>
    let (p, c) := c.take (Arg.signed? .none)
    (starPrecision p, c)
  | .fixed p => (some p, c)
  | .unset => (none, c)

/-- Takes the arguments of the stars, the width first. -/
def resolve (d : Directive) (c : Cursor) : Spec × Cursor :=
  let ((flags, width), c) := d.resolveWidth c
  let (precision, c) := d.resolvePrecision c
  ({ flags, width, precision, length := d.length, conversion := d.conversion,
     letterCase := d.letterCase }, c)

end Directive

namespace Spec

def image? (s : Spec) (a : Arg) : Option Image :=
  match s.conversion with
  | .char => (a.unsigned? .none).map fun c => charImage c.toUInt8
  | .str => a.str?.map s.strImage
  | .signed => (a.signed? s.length).map s.signedImage
  | .octal | .hex | .unsigned => (a.unsigned? s.length).map s.unsignedImage
  | .pointer => a.pointer?.map pointerImage
  | .fixed | .exponent | .general | .hexFloat => a.float?.map s.floatImage
  | .percent | .charsWritten => none

/-- The steps of a directive with its value argument; none for an argument of a wrong kind. -/
def steps (s : Spec) (a : Arg) : List Step :=
  match s.conversion with
  | .charsWritten => a.cell?.toList.map .record
  | _ => (s.image? a).elim [] fun image => (image.fit s.flags s.width).map .emit

end Spec

/-- The steps of a directive. A percent sign takes no value and ignores its field. -/
def Directive.steps (d : Directive) (c : Cursor) : List Step × Cursor :=
  let (s, c) := d.resolve c
  if d.conversion = .percent then ([.emit (.text [byte '%'])], c)
  else (c.next.1.elim [] s.steps, c.next.2)

def Piece.steps (p : Piece) (c : Cursor) : List Step × Cursor :=
  match p with
  | .literal b => ([.emit (.text [b])], c)
  | .directive d => d.steps c

def stepsOf : List Piece → Cursor → List Step × Cursor
  | [], c => ([], c)
  | p :: ps, c =>
    let (now, c) := p.steps c
    let (later, c) := stepsOf ps c
    (now ++ later, c)

def script (features : Features) (fmt : Bytes) (args : List Arg) : List Step :=
  (stepsOf (pieces features fmt) (.ofList args)).1

def contents (steps : List Step) : Bytes :=
  steps.flatMap fun
    | .emit chunk => chunk.toList
    | .record _ => []

theorem stepsOf_cons (p : Piece) (ps : List Piece) (c : Cursor) :
    stepsOf (p :: ps) c =
      ((p.steps c).1 ++ (stepsOf ps (p.steps c).2).1, (stepsOf ps (p.steps c).2).2) := rfl

theorem stepsOf_append (ps qs : List Piece) (c : Cursor) :
    stepsOf (ps ++ qs) c =
      ((stepsOf ps c).1 ++ (stepsOf qs (stepsOf ps c).2).1, (stepsOf qs (stepsOf ps c).2).2) := by
  induction ps generalizing c with
  | nil => simp [stepsOf]
  | cons p ps ih => simp [stepsOf, ih]

theorem contents_emit_cons (chunk : Chunk) (steps : List Step) :
    contents (.emit chunk :: steps) = chunk.toList ++ contents steps := rfl

theorem contents_record_cons (cell : Nat) (steps : List Step) :
    contents (.record cell :: steps) = contents steps := rfl

@[simp] theorem contents_append (a b : List Step) :
    contents (a ++ b) = contents a ++ contents b := by simp [contents]

end Printf
