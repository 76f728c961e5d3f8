import Printf.Proofs.Counts
import Printf.Proofs.Grammar

/-! Formats one after another. A format whose directives all end in it does not take part in what
follows: it is scanned, takes its arguments and writes as it does alone, and the rest does what it
does alone with the arguments left, behind the bytes already written. -/
namespace Printf

theorem Directive.read?_append {features : Features} {fmt rest : Bytes} {d : Directive}
    (read : read? features fmt = some (d, rest)) (more : Bytes) :
    read? features (fmt ++ more) = some (d, rest ++ more) := by
  obtain ⟨p, rfl, denotes⟩ := read?_spelled read
  rw [List.append_assoc]
  exact read?_text denotes (rest ++ more)

/-- Every percent sign at which the scan of a format stops starts a directive that ends in it. -/
def Whole (features : Features) (fmt : Bytes) : Prop :=
  Piece.literal (byte '%') ∉ scan features fmt

instance (features : Features) (fmt : Bytes) : Decidable (Whole features fmt) :=
  inferInstanceAs (Decidable (Piece.literal (byte '%') ∉ scan features fmt))

theorem whole_directive {features : Features} {b : UInt8} {fmt rest : Bytes} {d : Directive}
    (read : Directive.read? features (b :: fmt) = some (d, rest)) :
    Whole features (b :: fmt) ↔ Whole features rest := by
  simp [Whole, scan_directive read]

theorem whole_literal {features : Features} {b : UInt8} {fmt : Bytes}
    (unread : Directive.read? features (b :: fmt) = none) :
    Whole features (b :: fmt) ↔ b ≠ byte '%' ∧ Whole features fmt := by
  simp [Whole, scan_literal unread, eq_comm]

theorem scan_append {features : Features} {front : Bytes} (whole : Whole features front)
    (back : Bytes) : scan features (front ++ back) = scan features front ++ scan features back := by
  induction size : front.length using Nat.strongRecOn generalizing front with
  | ind n ih =>
    cases front with
    | nil => simp [scan]
    | cons b front =>
      cases read : Directive.read? features (b :: front) with
      | some found =>
        obtain ⟨d, rest⟩ := found
        have shorter := Directive.read?_length read
        have longer : Directive.read? features (b :: (front ++ back)) = some (d, rest ++ back) :=
          Directive.read?_append read back
        have later := ih rest.length (by omega) ((whole_directive read).mp whole) rfl
        rw [List.cons_append, scan_directive longer, scan_directive read, later, List.cons_append]
      | none =>
        obtain ⟨other, whole⟩ := (whole_literal read).mp whole
        have unread : Directive.read? features (b :: (front ++ back)) = none := if_neg other
        have later := ih front.length (by rw [← size]; exact Nat.lt_succ_self _) whole rfl
        rw [List.cons_append, scan_literal unread, scan_literal read, later, List.cons_append]

theorem untilNul_append {front : Bytes} (noNul : 0 ∉ front) (back : Bytes) :
    untilNul (front ++ back) = front ++ untilNul back := by
  have plain : ∀ b ∈ front, (b != 0) = true := by
    intro b member
    exact bne_iff_ne.mpr fun nul => noNul (nul ▸ member)
  exact List.takeWhile_append_of_pos plain

theorem pieces_append {features : Features} {front : Bytes} (noNul : 0 ∉ front)
    (whole : Whole features front) (back : Bytes) :
    pieces features (front ++ back) = pieces features front ++ pieces features back := by
  rw [pieces, pieces, pieces, untilNul_append noNul, untilNul_of_not_mem noNul, scan_append whole]

/-- The steps of parts depend on the arguments in their slots, and not on the position of these. -/
theorem stepsOf_congr (ps : List Piece) {c c' : Cursor}
    (agree : ∀ j < slotsOf ps, c'.rest[j]? = c.rest[j]?) :
    (stepsOf ps c').1 = (stepsOf ps c).1 := by
  induction ps generalizing c c' with
  | nil => rfl
  | cons p ps ih =>
    rw [slotsOf] at agree
    have now : (p.steps c').1 = (p.steps c).1 := by
      rw [p.steps_fst, p.steps_fst]
      refine p.stepsAt_congr fun j bound => ?_
      rw [Nat.zero_add]
      exact agree j (by omega)
    have later : (stepsOf ps (p.steps c').2).1 = (stepsOf ps (p.steps c).2).1 := by
      refine ih fun j bound => ?_
      rw [p.steps_snd, p.steps_snd, Cursor.skip_rest, Cursor.skip_rest, List.getElem?_drop,
        List.getElem?_drop]
      exact agree _ (by omega)
    rw [stepsOf_cons, stepsOf_cons, now, later]

theorem stepsOf_ofList (ps : List Piece) (c : Cursor) :
    (stepsOf ps c).1 = (stepsOf ps (.ofList c.rest)).1 := stepsOf_congr ps fun _ _ => rfl

/-- The script of a format is that of a front and, with the arguments left, that of what follows. -/
theorem script_append {features : Features} {front : Bytes} (noNul : 0 ∉ front)
    (whole : Whole features front) (back : Bytes) (args : List Arg) :
    script features (front ++ back) args = script features front args ++
      script features back (args.drop (slotsOf (pieces features front))) := by
  rw [script, pieces_append noNul whole, stepsOf_append, stepsOf_snd, stepsOf_ofList _ (.skip ..)]
  rfl

def Mark.behind (n : Nat) (m : Mark) : Mark := { m with offset := n + m.offset }

theorem Run.marksFrom_add (n offset : Nat) (steps : List Step) :
    marksFrom (n + offset) steps = (marksFrom offset steps).map (.behind n) := by
  induction steps generalizing offset with
  | nil => rfl
  | cons step steps ih =>
    cases step with
    | emit chunk => rw [marksFrom, marksFrom, Nat.add_assoc, ih]
    | record cell => rw [marksFrom, marksFrom, ih, List.map_cons, Mark.behind]

/-- A format without a NUL whose directives all end in it, followed by any other: the content is
that of the front and then that of the rest alone, with the arguments that the front leaves. The
same holds for the counts that a sink without refusals gets, where those of the rest grow by the
length of the front's content. -/
theorem formats_compose {features : Features} {front : Bytes} (noNul : 0 ∉ front)
    (whole : Whole features front) (back : Bytes) (args : List Arg) (S : Sink σ)
    (never : ∀ s b, (S.put s b).1 = true) (s : σ) (cells alone : List Nat) :
    let left := (stepsOf (pieces features front) (.ofList args)).2.rest
    let F := content features front args
    let stored := marks features back left
    left = args.drop (slotsOf (pieces features front)) ∧
    content features (front ++ back) args = F ++ content features back left ∧
    (formatTo S features back left s alone).cells = store alone stored ∧
    (formatTo S features (front ++ back) args s cells).cells =
      store (formatTo S features front args s cells).cells (stored.map (.behind F.length)) := by
  intro left F stored
  have remain : left = args.drop (slotsOf (pieces features front)) := by
    simp only [left, stepsOf_snd, Cursor.ofList_skip]
  have scripts := script_append noNul whole back args
  rw [← remain] at scripts
  have both : marks features (front ++ back) args =
      marks features front args ++ stored.map (.behind F.length) := by
    simp only [stored, F, content_eq, ← marks_script, ← Run.marksFrom_add, scripts,
      Run.marksFrom_append, Nat.zero_add, Nat.add_zero]
  refine ⟨remain, ?_, ?_, ?_⟩
  · simp only [F, content_eq, scripts, contents_append]
  · exact formatTo_cells_unrefused S never features back left s alone
  · rw [formatTo_cells_unrefused S never, formatTo_cells_unrefused S never, both, store_append]

/-- Behind `ab%*d`, which takes two arguments and writes five bytes, `%n%s%n` stores 5 and 8. -/
theorem formats_compose_behind_star :
    let front := utf8 "ab%*d"
    let back := utf8 "%n%s%n"
    let args := [Arg.int 3, .int 7, .count 0, .str (utf8 "xyz"), .count 1]
    0 ∉ front ∧ Whole ⟨true, true⟩ front ∧
    content ⟨true, true⟩ (front ++ back) args = utf8 "ab  7xyz" ∧
    (formatTo .counter ⟨true, true⟩ (front ++ back) args 0 [9, 9]).cells = [5, 8] := by
  intro front back args
  have noNul : 0 ∉ front := by decide
  have whole : Whole ⟨true, true⟩ front := by decide +kernel
  obtain ⟨-, bytes, -, cells⟩ :=
    formats_compose noNul whole back args .counter (fun _ _ => rfl) 0 [9, 9] []
  exact ⟨noNul, whole, bytes.trans (by decide +kernel), cells.trans (by decide +kernel)⟩

end Printf
