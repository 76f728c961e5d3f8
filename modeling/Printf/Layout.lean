import Printf.Directive
import Printf.Output

/-! One layout for every conversion: blanks on the left, a sign and a radix mark, zeros, the body,
blanks on the right. At most one of the three fillings is used. -/
namespace Printf

/-- A directive whose stars have taken their arguments. -/
structure Spec where
  flags : Flags
  width : Nat
  precision : Option Nat
  length : Length
  conversion : Conversion
  letterCase : LetterCase
  deriving DecidableEq, Repr

def Spec.isUpper (s : Spec) : Bool := s.letterCase == .upper

/-- A converted value before it is fitted to its field: what zeros are inserted after, what they
are inserted before, and whether the zero flag means anything for it. -/
structure Image where
  lead : Bytes := []
  body : Output
  zeroable : Bool := false
  deriving DecidableEq, Repr

namespace Image

def size (image : Image) : Nat := image.lead.length + Output.size image.body

def bare (image : Image) : Output := .text image.lead :: image.body

/-- The image fitted to a field; a wider image keeps its size. -/
def fit (image : Image) (flags : Flags) (width : Nat) : Output :=
  let missing := width - image.size
  if flags.leftJustify then image.bare ++ [.fill missing (byte ' ')]
  else if flags.zeroPad && image.zeroable then
    .text image.lead :: .fill missing (byte '0') :: image.body
  else .fill missing (byte ' ') :: image.bare

end Image

def signBytes (negative : Bool) (flags : Flags) : Bytes :=
  if negative then [byte '-']
  else if flags.forceSign then [byte '+']
  else if flags.spaceSign then [byte ' ']
  else []

end Printf
