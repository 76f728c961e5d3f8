import Printf.Json.Literal
import Printf.Json.Tree
import Printf.Text.Digits

/-! From a text to its tree. Each step gives the text behind what it read, or the flaw that the text
breaks off with. -/
namespace Printf.Json

open Text (isDecimal spanDigits)

def isBlank (c : Char) : Bool := c == ' ' || c == '\n' || c == '\t' || c == '\r'

def skipBlanks (cs : List Char) : List Char := cs.dropWhile isBlank

def flawAt : List Char → Flaw
  | [] => .ended
  | _ :: _ => .malformed

/-- The digits in front of the point; a zero stands alone. -/
def readWhole (cs : List Char) : Except Flaw (List Nat × List Char) :=
  match spanDigits cs with
  | ([], rest) => .error (flawAt rest)
  | (0 :: _ :: _, _) => .error .malformed
  | (ds, rest) => .ok (ds, rest)

def readFraction : List Char → Except Flaw (List Nat × List Char)
  | '.' :: cs =>
    match spanDigits cs with
    | ([], rest) => .error (flawAt rest)
    | (ds, rest) => .ok (ds, rest)
  | cs => .ok ([], cs)

def readExponentDigits (negative : Bool) (cs : List Char) :
    Except Flaw (Option Int × List Char) :=
  match spanDigits cs with
  | ([], rest) => .error (flawAt rest)
  | (ds, rest) =>
    let magnitude : Int := Radix.value 10 ds
    .ok (some (if negative then -magnitude else magnitude), rest)

def readExponent : List Char → Except Flaw (Option Int × List Char)
  | c :: cs =>
    if c == 'e' || c == 'E' then
      match cs with
      | '-' :: cs => readExponentDigits true cs
      | '+' :: cs => readExponentDigits false cs
      | cs => readExponentDigits false cs
    else .ok (none, c :: cs)
  | [] => .ok (none, [])

def readLiteral (cs : List Char) : Except Flaw (Literal × List Char) := do
  let (negative, cs) := match cs with
    | '-' :: cs => (true, cs)
    | cs => (false, cs)
  let (whole, cs) ← readWhole cs
  let (fraction, cs) ← readFraction cs
  let (exponent, cs) ← readExponent cs
  return ({ negative, whole, fraction, exponent }, cs)

def readNumber (cs : List Char) : Scan Number :=
  match readLiteral cs with
  | .error flaw => ⟨.error flaw, .error .malformed⟩
  | .ok (l, rest) =>
    ⟨match l.number? with
      | some n => .ok n
      | none => .error .malformed, .ok rest⟩

/-- A character of a string: one that stands for itself or has an escape of its own, or a 16-bit
code unit. -/
inductive Code where
  | char (c : Char)
  | unit (n : Nat)
  deriving DecidableEq, Repr

def hexValue? (c : Char) : Option Nat :=
  if isDecimal c then some (c.toNat - 48)
  else if 'a' ≤ c && c ≤ 'f' then some (c.toNat - 87)
  else if 'A' ≤ c && c ≤ 'F' then some (c.toNat - 55)
  else none

/-- A code unit of four hexadecimal digits. The text counts as ended if it has less than four
bytes left. -/
def readUnit (cs : List Char) : Except Flaw (Nat × List Char) :=
  match cs with
  | a :: b :: c :: d :: rest =>
    match hexValue? a, hexValue? b, hexValue? c, hexValue? d with
    | some a, some b, some c, some d => .ok (((a * 16 + b) * 16 + c) * 16 + d, rest)
    | _, _, _, _ => .error .malformed
  | cs => .error (if (String.ofList cs).utf8ByteSize < 4 then .ended else .malformed)

def escaped? : Char → Option Char
  | '"' => some '"'
  | '\\' => some '\\'
  | '/' => some '/'
  | 'b' => some '\x08'
  | 'f' => some '\x0c'
  | 'n' => some '\n'
  | 'r' => some '\r'
  | 't' => some '\t'
  | _ => none

theorem readUnit_length {cs : List Char} {n : Nat} {rest : List Char}
    (h : readUnit cs = .ok (n, rest)) : rest.length < cs.length := by
  unfold readUnit at h
  split at h
  · split at h
    · cases h; simp only [List.length_cons]; omega
    · cases h
  · cases h

def readCodes (cs : List Char) : List Code × Rest :=
  match cs with
  | [] => ([], .error .ended)
  | '"' :: cs => ([], .ok cs)
  | ['\\'] => ([], .error .ended)
  | '\\' :: 'u' :: cs =>
    match _h : readUnit cs with
    | .error flaw => ([], .error flaw)
    | .ok (n, rest) =>
      let (codes, rest) := readCodes rest
      (.unit n :: codes, rest)
  | '\\' :: c :: cs =>
    match escaped? c with
    | none => ([], .error .malformed)
    | some c =>
      let (codes, rest) := readCodes cs
      (.char c :: codes, rest)
  | c :: cs =>
    if c.toNat < 32 then ([], .error .malformed)
    else
      let (codes, rest) := readCodes cs
      (.char c :: codes, rest)
termination_by cs.length
decreasing_by
  · have := readUnit_length _h; simp only [List.length_cons]; omega
  all_goals simp only [List.length_cons]; omega

def isLead (n : Nat) : Bool := 0xD800 ≤ n && n ≤ 0xDBFF
def isTrail (n : Nat) : Bool := 0xDC00 ≤ n && n ≤ 0xDFFF

/-- The text of a string. Surrogates have to come in pairs. -/
def decodeCodes : List Code → Except Flaw Unit → Except Flaw (List Char)
  | [], close => close.map fun _ => []
  | .char c :: codes, close => (decodeCodes codes close).map (c :: ·)
  | .unit n :: codes, close =>
    if isTrail n then .error .malformed
    else if isLead n then
      match codes, close with
      | [], .error flaw => .error flaw
      | .unit m :: codes, close =>
        if isTrail m then
          let c := Char.ofNat (0x10000 + (n - 0xD800) * 0x400 + (m - 0xDC00))
          (decodeCodes codes close).map (c :: ·)
        else .error .malformed
      | _, _ => .error .malformed
    else (decodeCodes codes close).map (Char.ofNat n :: ·)

def readString (cs : List Char) : Scan String :=
  let (codes, rest) := readCodes cs
  ⟨(decodeCodes codes (discard rest)).map String.ofList, rest⟩

def readLetters : List Char → List Char → Rest
  | [], cs => .ok cs
  | _ :: _, [] => .error .ended
  | w :: ws, c :: cs => if c = w then readLetters ws cs else .error .malformed

def readWord (w : Option Bool) (letters cs : List Char) : Scan (Option Bool) :=
  let rest := readLetters letters cs
  ⟨rest.map fun _ => w, rest⟩

mutual

/-- The value in front of a text. Every level and every item takes one of the `fuel`. -/
def readValue : Nat → List Char → Tree
  | 0, _ => .absent .ended
  | fuel + 1, cs =>
    match skipBlanks cs with
    | 'n' :: cs => .word (readWord none ['u', 'l', 'l'] cs)
    | 't' :: cs => .word (readWord (some true) ['r', 'u', 'e'] cs)
    | 'f' :: cs => .word (readWord (some false) ['a', 'l', 's', 'e'] cs)
    | '"' :: cs => .string (readString cs)
    | '[' :: cs =>
      let (items, rest) : List Tree × Rest := match skipBlanks cs with
        | ']' :: cs => ([], .ok cs)
        | cs => readItems fuel cs
      .array ('[' :: cs) items rest
    | '{' :: cs =>
      let (entries, rest) : List (Tree × Tree) × Rest := match skipBlanks cs with
        | '}' :: cs => ([], .ok cs)
        | cs => readEntries fuel cs
      .object ('{' :: cs) entries rest
    | c :: cs =>
      if c == '-' || isDecimal c then .number (readNumber (c :: cs)) else .absent .malformed
    | [] => .absent .ended

def readItems : Nat → List Char → List Tree × Rest
  | 0, _ => ([], .error .ended)
  | fuel + 1, cs =>
    let t := readValue fuel cs
    match t.rest with
    | .error flaw => ([t], .error flaw)
    | .ok cs =>
      match skipBlanks cs with
      | ',' :: cs =>
        let (ts, rest) := readItems fuel cs
        (t :: ts, rest)
      | ']' :: cs => ([t], .ok cs)
      | cs => ([t], .error (flawAt cs))

def readEntries : Nat → List Char → List (Tree × Tree) × Rest
  | 0, _ => ([], .error .ended)
  | fuel + 1, cs =>
    let k := readValue fuel cs
    match k.rest with
    | .error flaw => ([(k, .absent flaw)], .error flaw)
    | .ok cs =>
      match skipBlanks cs with
      | ':' :: cs =>
        let t := readValue fuel cs
        match t.rest with
        | .error flaw => ([(k, t)], .error flaw)
        | .ok cs =>
          match skipBlanks cs with
          | ',' :: cs =>
            let (entries, rest) := readEntries fuel cs
            ((k, t) :: entries, rest)
          | '}' :: cs => ([(k, t)], .ok cs)
          | cs => ([(k, t)], .error (flawAt cs))
      | cs => ([(k, .absent (flawAt cs))], .error (flawAt cs))

end

/-- The tree of a document, and whether nothing but blanks stands behind it. -/
def Tree.ofText (text : String) : Tree × Except Flaw Unit :=
  let cs := text.toList
  let tree := readValue (2 * cs.length + 2) cs
  (tree, do if skipBlanks (← tree.rest) = [] then .ok () else .error .malformed)

def Value.ofText? (text : String) : Option Value :=
  let (tree, close) := Tree.ofText text
  (do let v ← tree.value Tree.maxDepth; close; return v).toOption

end Printf.Json
