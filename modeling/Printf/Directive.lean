/-! Conversion directives as values: what follows a percent sign in a format, once it has been
read. A star field waits for an argument. -/
namespace Printf

structure Features where
  float : Bool
  c99 : Bool
  deriving DecidableEq, Repr

structure Flags where
  leftJustify : Bool := false
  forceSign : Bool := false
  spaceSign : Bool := false
  altForm : Bool := false
  zeroPad : Bool := false
  deriving DecidableEq, Repr

inductive Field where
  | unset
  | fixed (n : Nat)
  | fromArg
  deriving DecidableEq, Repr

inductive Length where
  | none | h | l | bigL | hh | ll | j | z | t
  deriving DecidableEq, Repr

inductive Conversion where
  | percent | char | str | signed | octal | hex | unsigned | charsWritten | pointer
  | fixed | exponent | general | hexFloat
  deriving DecidableEq, Repr

inductive LetterCase where
  | none | lower | upper
  deriving DecidableEq, Repr

structure Directive where
  flags : Flags := {}
  width : Field := .unset
  precision : Field := .unset
  length : Length := .none
  conversion : Conversion
  letterCase : LetterCase
  deriving DecidableEq, Repr

/-- The largest width or precision; greater ones are cut down to it. -/
def maxField : Nat := 2147483647

def Conversion.isFloat : Conversion → Bool
  | .fixed | .exponent | .general | .hexFloat => true
  | _ => false

/-- The number of bits an integer argument is reduced to. -/
def Length.bits : Length → Nat
  | .hh => 8
  | .h => 16
  | .none | .bigL => 32
  | .l | .ll | .j | .z | .t => 64

/-- The number a field holds, if it does not wait for an argument. -/
def Field.value? : Field → Option Nat
  | .fixed n => some n
  | .unset | .fromArg => none

def Field.slots : Field → Nat
  | .fromArg => 1
  | .unset | .fixed _ => 0

namespace Directive

def plain (conversion : Conversion) (letterCase : LetterCase) : Directive :=
  { conversion, letterCase }

def fieldWidth (d : Directive) : Nat := d.width.value?.getD 0
def isUpper (d : Directive) : Bool := d.letterCase == .upper

/-- Argument slots a directive takes: one for each star and one for its value. -/
def slots (d : Directive) : Nat :=
  d.width.slots + d.precision.slots + if d.conversion = .percent then 0 else 1

end Directive
end Printf
