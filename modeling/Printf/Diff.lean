import Printf.Radix
import Printf.Text.Split

/-! Differences between two texts, line by line. Every differing line is shown from both sides,
with a caret under the first byte that differs. Lines are counted in a word of 32 bits with a sign,
which goes on from its largest value with its smallest one; where such a step is checked, the count
ends there in a panic instead. -/
namespace Printf.Diff

open Text (lines)

/-- The first place where two byte strings differ; the shorter length if they do not before. -/
def firstDifference : List UInt8 → List UInt8 → Nat
  | a :: as, b :: bs => if a = b then firstDifference as bs + 1 else 0
  | _, _ => 0

def bytes (line : List Char) : List UInt8 := line.flatMap String.utf8EncodeChar

/-- What is shown for a line number at which at least one side has a line. -/
def hunk (number : Int32) (expected actual : Option (List Char)) : List Char :=
  let header := "@@ line ".toList ++ (Radix.integerText number.toInt).toList ++ " @@\n".toList
  let side (mark : Char) (line : Option (List Char)) :=
    line.elim [] fun l => mark :: l ++ ['\n']
  let caret := match expected, actual with
    | some e, some a =>
      let column := firstDifference (bytes e) (bytes a)
      ' ' :: List.replicate column ' ' ++ "^ byte ".toList ++
        (Radix.decimalText column).toList ++ ['\n']
    | _, _ => []
  header ++ side '-' expected ++ side '+' actual ++ caret

def hunks (number : Int32) : List (List Char) → List (List Char) → List Char
  | [], [] => []
  | e :: es, [] => hunk number (some e) none ++ hunks (number + 1) es []
  | [], a :: as => hunk number none (some a) ++ hunks (number + 1) [] as
  | e :: es, a :: as =>
    (if e = a then [] else hunk number (some e) (some a)) ++ hunks (number + 1) es as

def render (expected actual : String) : String :=
  if expected = actual then "[identical]"
  else String.ofList ("--- expected\n+++ actual\n".toList ++
    hunks 1 (lines expected.toList) (lines actual.toList))

end Printf.Diff
