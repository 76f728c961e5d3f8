import Printf.Sink

/-! What a run offers to its sink. Playing a script offers the bytes it writes, one after another, up
to the first one refused. How they are cut into chunks, and where counts are recorded, makes no
difference to the sink, so that a run is `deliver` of its content. -/
namespace Printf

namespace Sink

variable (S : Sink σ)

/-- Offers bytes up to the first one refused: how many were accepted, and the state left behind. -/
def offer : Bytes → σ → Nat × σ
  | [], s => (0, s)
  | b :: bs, s =>
    if (S.put s b).1 then ((offer bs (S.put s b).2).1 + 1, (offer bs (S.put s b).2).2)
    else (0, (S.put s b).2)

/-- Offers a complete output and, once all of it is accepted, ends it. -/
def deliver (bs : Bytes) (s : σ) : Nat × σ :=
  if (S.offer bs s).1 = bs.length then
    (bs.length + (S.terminate (S.offer bs s).2).1.toNat, (S.terminate (S.offer bs s).2).2)
  else S.offer bs s

theorem offer_le (bs : Bytes) (s : σ) : (S.offer bs s).1 ≤ bs.length := by
  induction bs generalizing s with
  | nil => exact Nat.le_refl 0
  | cons b bs ih =>
    rw [offer]
    split
    · exact Nat.succ_le_succ (ih _)
    · exact Nat.zero_le _

theorem offer_append (a b : Bytes) (s : σ) :
    S.offer (a ++ b) s =
      if (S.offer a s).1 = a.length then
        (a.length + (S.offer b (S.offer a s).2).1, (S.offer b (S.offer a s).2).2)
      else S.offer a s := by
  induction a generalizing s with
  | nil => simp [offer]
  | cons x a ih =>
    rw [List.cons_append, offer, offer]
    split
    · rw [ih]
      by_cases whole : (S.offer a (S.put s x).2).1 = a.length
      · simp only [whole, List.length_cons, if_true, Prod.mk.injEq, and_true]
        omega
      · simp only [whole, List.length_cons, if_false, Nat.add_right_cancel_iff]
    · simp

/-- The state behind bytes that are all offered, whatever the answers. -/
def after (s : σ) (bs : Bytes) : σ := bs.foldl (fun s b => (S.put s b).2) s

def Accepts : σ → Bytes → Prop
  | _, [] => True
  | s, b :: bs => (S.put s b).1 = true ∧ Accepts (S.put s b).2 bs

theorem offer_accepts (bs : Bytes) (s : σ) (accepts : S.Accepts s bs) :
    S.offer bs s = (bs.length, S.after s bs) := by
  induction bs generalizing s with
  | nil => rfl
  | cons b bs ih => simp [offer, accepts.1, ih _ accepts.2, after]

theorem offer_unrefused (never : ∀ s b, (S.put s b).1 = true) (bs : Bytes) (s : σ) :
    S.offer bs s = (bs.length, S.after s bs) := by
  refine S.offer_accepts bs s ?_
  induction bs generalizing s with
  | nil => trivial
  | cons b bs ih => exact ⟨never s b, ih _⟩

/-- Where the terminator is a NUL byte like any other, it is offered as the last of them. -/
theorem deliver_terminated (nul : ∀ s, S.terminate s = S.put s 0) (bs : Bytes) (s : σ) :
    S.deliver bs s = S.offer (bs ++ [0]) s := by
  rw [deliver, offer_append]
  split
  · rw [nul]
    cases answer : (S.put (S.offer bs s).2 0).1 <;> simp [offer, answer]
  · rfl

theorem offerMany_offer (b : UInt8) (n k : Nat) (s : σ) :
    offerMany S.put b n k s =
      (k + (S.offer (List.replicate n b) s).1, (S.offer (List.replicate n b) s).2) := by
  induction n generalizing k s with
  | zero => rfl
  | succ n ih =>
    rcases h : S.put s b with ⟨answer, next⟩
    cases answer with
    | true =>
      simp only [offerMany, List.replicate_succ, offer, h, ih, if_true, Prod.mk.injEq, and_true]
      omega
    | false => simp [offerMany, List.replicate_succ, offer, h]

end Sink

namespace Run

theorem putAll_offer (S : Sink σ) (bs : Bytes) (r : Run σ) :
    r.putAll S bs = ((S.offer bs r.sink).1 == bs.length,
      { r with sink := (S.offer bs r.sink).2, written := r.written + (S.offer bs r.sink).1 }) := by
  induction bs generalizing r with
  | nil => simp [putAll, Sink.offer]
  | cons b bs ih =>
    rcases h : S.put r.sink b with ⟨answer, next⟩
    cases answer with
    | true => simp [putAll, Sink.offer, h, ih, Nat.add_assoc, Nat.add_comm 1]
    | false => simp [putAll, Sink.offer, h]

theorem perform_emit (S : Sink σ) (c : Chunk) (r : Run σ) :
    r.perform S (.emit c) = ((S.offer c.toList r.sink).1 == c.toList.length,
      { r with sink := (S.offer c.toList r.sink).2,
               written := r.written + (S.offer c.toList r.sink).1 }) := by
  cases c with
  | text bytes => exact putAll_offer S bytes r
  | fill n b =>
    simp only [perform, putMany, S.fill_eq, S.offerMany_offer, Chunk.toList, List.length_replicate,
      Nat.zero_add]

/-- Playing steps offers their contents; only the cells depend on more than the bytes. -/
theorem play_offer (S : Sink σ) (steps : List Step) (r : Run σ) :
    ∃ cells, play S steps r = ((S.offer (contents steps) r.sink).1 == (contents steps).length,
      ⟨(S.offer (contents steps) r.sink).2,
        r.written + (S.offer (contents steps) r.sink).1, cells⟩) := by
  induction steps generalizing r with
  | nil => exact ⟨r.cells, by simp [play, contents, Sink.offer]⟩
  | cons step steps ih =>
    cases step with
    | record cell => exact ih { r with cells := r.cells.set cell r.written }
    | emit c =>
      -- a byte refused within the chunk ends the run, so the steps behind it offer nothing
      rw [contents_emit_cons, S.offer_append]
      by_cases whole : (S.offer c.toList r.sink).1 = c.toList.length
      · obtain ⟨cells, later⟩ := ih
          { r with sink := (S.offer c.toList r.sink).2,
                   written := r.written + (S.offer c.toList r.sink).1 }
        refine ⟨cells, ?_⟩
        simp only [play, perform_emit, whole, beq_self_eq_true, if_true, List.length_append]
        rw [whole] at later
        rw [later, Nat.add_assoc]
        congr 1
        simp only [Bool.beq_eq_decide_eq, Nat.add_left_cancel_iff]
      · refine ⟨r.cells, ?_⟩
        have short := S.offer_le c.toList r.sink
        have refused : ((S.offer c.toList r.sink).1 == c.toList.length) = false := by
          simpa using whole
        have unequal : ((S.offer c.toList r.sink).1 ==
            c.toList.length + (contents steps).length) = false := by
          simp only [beq_eq_false_iff_ne]
          omega
        simp only [play, perform_emit, refused, whole, if_false, List.length_append, unequal]

end Run

theorem formatTo_script (S : Sink σ) (features : Features) (fmt : Bytes) (args : List Arg) (s : σ)
    (cells : List Nat) :
    (formatTo S features fmt args s cells).written =
      (S.deliver (contents (script features fmt args)) s).1 ∧
    (formatTo S features fmt args s cells).sink =
      (S.deliver (contents (script features fmt args)) s).2 := by
  obtain ⟨after, played⟩ := Run.play_offer S (script features fmt args) ⟨s, 0, cells⟩
  generalize contents (script features fmt args) = bs at played ⊢
  by_cases whole : (S.offer bs s).1 = bs.length
  · rcases ended : S.terminate (S.offer bs s).2 with ⟨answer, last⟩
    cases answer <;> simp [formatTo, played, whole, Run.close, Sink.deliver, ended]
  · have refused : ((S.offer bs s).1 == bs.length) = false := by simpa using whole
    simp [formatTo, played, refused, whole, Sink.deliver]

def Sink.recording : Sink Bytes where
  put kept b := (true, kept ++ [b])

/-- The bytes that a formatting offers, in front of the terminator, to a sink that refuses none. -/
def content (features : Features) (fmt : Bytes) (args : List Arg) : Bytes :=
  (formatTo Sink.recording.unterminated features fmt args [] []).sink

theorem Sink.after_recording (kept bs : Bytes) : Sink.recording.after kept bs = kept ++ bs := by
  induction bs generalizing kept with
  | nil => simp [after]
  | cons b bs ih =>
    have rest := ih (kept ++ [b])
    rw [List.append_assoc] at rest
    exact rest

theorem content_eq (features : Features) (fmt : Bytes) (args : List Arg) :
    content features fmt args = contents (script features fmt args) := by
  have delivered := (formatTo_script Sink.recording.unterminated features fmt args [] []).2
  have offered := Sink.recording.unterminated.offer_unrefused (fun _ _ => rfl)
    (contents (script features fmt args)) []
  rw [content, delivered, Sink.deliver, offered, if_pos rfl]
  exact Sink.after_recording [] _

/-- A formatting delivers its content, whatever the sink. -/
theorem formatTo_deliver (S : Sink σ) (features : Features) (fmt : Bytes) (args : List Arg) (s : σ)
    (cells : List Nat) :
    (formatTo S features fmt args s cells).written = (S.deliver (content features fmt args) s).1 ∧
    (formatTo S features fmt args s cells).sink = (S.deliver (content features fmt args) s).2 := by
  rw [content_eq]
  exact formatTo_script S features fmt args s cells

end Printf
