import Printf.Directive
import Printf.Radix

/-! The parts of a directive by name, and the directive as an indented record. -/
namespace Printf

def Length.name : Length → String
  | none => "None"
  | h => "H"
  | l => "L"
  | bigL => "BigL"
  | hh => "Hh"
  | ll => "Ll"
  | j => "J"
  | z => "Z"
  | t => "T"

def Length.all : List Length := [.none, .h, .l, .bigL, .hh, .ll, .j, .z, .t]

def Conversion.name : Conversion → String
  | percent => "Percent"
  | char => "Char"
  | str => "Str"
  | signed => "Signed"
  | octal => "Octal"
  | hex => "Hex"
  | unsigned => "Unsigned"
  | charsWritten => "CharsWritten"
  | pointer => "Pointer"
  | fixed => "FloatDecimal"
  | exponent => "FloatExponent"
  | general => "FloatDynamic"
  | hexFloat => "FloatHex"

def LetterCase.name : LetterCase → String
  | none => "None"
  | lower => "Lower"
  | upper => "Upper"

def LetterCase.all : List LetterCase := [.none, .lower, .upper]

namespace Dump

def line (level : Nat) (s : String) : String :=
  String.ofList (List.replicate (4 * level) ' ') ++ s ++ "\n"

def item (level : Nat) (label value : String) : String :=
  line level (label ++ ": " ++ value ++ ",")

def truth (b : Bool) : String := if b then "true" else "false"

def flags (f : Flags) : List String :=
  [line 1 "flags: FormatFlags \x7b",
    item 2 "left_justify" (truth f.leftJustify),
    item 2 "force_sign" (truth f.forceSign),
    item 2 "space_sign" (truth f.spaceSign),
    item 2 "alt_form" (truth f.altForm),
    item 2 "zero_pad" (truth f.zeroPad),
    line 1 "\x7d,"]

def field (label : String) : Field → List String
  | .unset => [item 1 label "None"]
  | .fromArg => [item 1 label "FromArg"]
  | .fixed n =>
    [line 1 (label ++ ": Fixed("), line 2 (Radix.decimalText n ++ ","), line 1 "),"]

end Dump

def Directive.dump (d : Directive) : String :=
  String.join <|
    [Dump.line 0 "FormatSpec \x7b"] ++ Dump.flags d.flags ++
    Dump.field "width" d.width ++ Dump.field "precision" d.precision ++
    [Dump.item 1 "length" d.length.name,
      Dump.item 1 "conversion" d.conversion.name,
      Dump.item 1 "case" d.letterCase.name,
      Dump.line 0 "\x7d"]

end Printf
