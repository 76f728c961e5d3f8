/-! Texts cut at every occurrence of a character. -/
namespace Printf.Text

/-- The pieces of a text between separators; there is one piece more than separators. -/
def split (separator : Char) : List Char → List (List Char)
  | [] => [[]]
  | c :: cs =>
    if c = separator then [] :: split separator cs
    else match split separator cs with
      | [] => [[c]]
      | piece :: pieces => (c :: piece) :: pieces

theorem split_ne_nil (separator : Char) (cs : List Char) : split separator cs ≠ [] := by
  cases cs with
  | nil => simp [split]
  | cons c cs =>
    rw [split]
    split
    · simp
    · split <;> simp

/-- The lines of a text; a text that ends with a line break has an empty last line. -/
def lines (cs : List Char) : List (List Char) := split '\n' cs

end Printf.Text
