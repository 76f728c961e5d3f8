import Printf.Text.Split

/-! Texts cut at a character, which is the splitting of lists. No piece holds the character, and a text
can be told from its pieces. -/
namespace Printf.Text

variable {separator : Char} {cs ds : List Char}

theorem split_eq (separator : Char) (cs : List Char) : split separator cs = cs.splitOn separator := by
  induction cs with
  | nil => rfl
  | cons c cs ih =>
    rw [split, List.splitOn_cons_eq_if_modifyHead, ← ih]
    simp only [beq_iff_eq]
    split
    · rfl
    · cases pieces : split separator cs with
      | nil => exact absurd pieces (split_ne_nil separator cs)
      | cons piece pieces => rfl

theorem split_append_cons (front behind : List Char) :
    split separator (front ++ separator :: behind) = split separator front ++ split separator behind := by
  simp only [split_eq, List.splitOn_append_cons_self]

theorem split_whole (whole : separator ∉ cs) : split separator cs = [cs] := by
  rw [split_eq, List.splitOn_eq_singleton whole]

theorem split_whole_cons (whole : separator ∉ cs) (behind : List Char) :
    split separator (cs ++ separator :: behind) = cs :: split separator behind := by
  rw [split_append_cons, split_whole whole, List.singleton_append]

/-- Pieces that each have a separator behind them. -/
theorem split_closed {pieces : List (List Char)} (whole : ∀ piece ∈ pieces, separator ∉ piece)
    (behind : List Char) : split separator (pieces.flatMap (· ++ [separator]) ++ behind) =
      pieces ++ split separator behind := by
  induction pieces with
  | nil => rfl
  | cons piece pieces ih =>
    obtain ⟨first, later⟩ := List.forall_mem_cons.mp whole
    rw [List.flatMap_cons, List.append_assoc, List.append_assoc, List.singleton_append,
      split_whole_cons first, ih later, List.cons_append]

theorem intercalate_split (separator : Char) (cs : List Char) :
    [separator].intercalate (split separator cs) = cs := by
  rw [split_eq, List.intercalate_splitOn]

/-- A text with a separator behind it is its pieces with one behind each of them. -/
theorem closed_split (separator : Char) (cs : List Char) :
    (split separator cs).flatMap (· ++ [separator]) = cs ++ [separator] := by
  induction cs with
  | nil => rfl
  | cons c cs ih =>
    rw [split]
    split
    · next same => rw [List.flatMap_cons, ih, same]; rfl
    · split
      · next none => exact absurd none (split_ne_nil separator cs)
      · next piece pieces cut =>
        rw [cut, List.flatMap_cons] at ih
        rw [List.flatMap_cons, List.cons_append, List.cons_append, ih]
        rfl

theorem split_injective (separator : Char) : Function.Injective (split separator) :=
  fun cs ds same => by rw [← intercalate_split separator cs, same, intercalate_split]

theorem separator_not_mem {piece : List Char} (member : piece ∈ split separator cs) :
    separator ∉ piece := by
  induction cs generalizing piece with
  | nil =>
    cases List.mem_singleton.mp member
    exact List.not_mem_nil
  | cons c cs ih =>
    rw [split] at member
    split at member
    · rcases List.mem_cons.mp member with rfl | later
      · exact List.not_mem_nil
      · exact ih later
    · next other =>
      split at member
      · next none => exact absurd none (split_ne_nil separator cs)
      · next first pieces cut =>
        rw [cut] at ih
        rcases List.mem_cons.mp member with rfl | later
        · exact List.not_mem_cons_of_ne_of_not_mem (Ne.symm other) (ih List.mem_cons_self)
        · exact ih (List.mem_cons_of_mem _ later)

theorem subset_of_mem_split {piece : List Char} (member : piece ∈ split separator cs) : piece ⊆ cs := by
  intro c among
  have closed : c ∈ cs ++ [separator] := by
    rw [← closed_split]
    exact List.mem_flatMap.mpr ⟨piece, member, List.mem_append_left _ among⟩
  rcases List.mem_append.mp closed with front | last
  · exact front
  · cases List.mem_singleton.mp last
    exact absurd among (separator_not_mem member)

/-- A text that holds the separator is cut at the last one. -/
theorem exists_last (member : separator ∈ cs) :
    ∃ front behind, separator ∉ behind ∧ cs = front ++ separator :: behind := by
  obtain ⟨behind, front, cut, whole⟩ := List.eq_append_cons_of_mem (List.mem_reverse.mpr member)
  refine ⟨front.reverse, behind.reverse, fun again => whole (List.mem_reverse.mp again), ?_⟩
  rw [← List.reverse_reverse cs, cut]
  simp

/-- What stands in front of the first separator, and what stands behind it, can be told from a text. -/
theorem append_cons_unique {front behind : List Char} (whole : separator ∉ cs)
    (whole' : separator ∉ ds) (same : cs ++ separator :: front = ds ++ separator :: behind) :
    cs = ds ∧ front = behind := by
  induction cs generalizing ds with
  | nil =>
    cases ds with
    | nil => exact ⟨rfl, List.tail_eq_of_cons_eq same⟩
    | cons d ds => exact absurd (List.head_eq_of_cons_eq same) (List.ne_of_not_mem_cons whole')
  | cons c cs ih =>
    cases ds with
    | nil => exact absurd (List.head_eq_of_cons_eq same).symm (List.ne_of_not_mem_cons whole)
    | cons d ds =>
      obtain ⟨rfl, behind⟩ := List.cons.inj same
      obtain ⟨rfl, rest⟩ :=
        ih (List.not_mem_of_not_mem_cons whole) (List.not_mem_of_not_mem_cons whole') behind
      exact ⟨rfl, rest⟩

end Printf.Text
