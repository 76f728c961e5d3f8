import Printf.Proofs.Memory

/-! The calls that a run makes of its sink. A sink with a log is offered the output in order, up to
and with the first byte that it refuses; the terminator follows a whole output and nothing else. -/
namespace Printf

inductive Call where
  | put (b : UInt8)
  | terminate
  deriving DecidableEq, Repr

namespace Sink

variable (S : Sink σ)

/-- The same sink with a log of the calls made of it. -/
def logged : Sink (σ × List Call) where
  put s b := ((S.put s.1 b).1, (S.put s.1 b).2, s.2 ++ [.put b])
  terminate s := ((S.terminate s.1).1, (S.terminate s.1).2, s.2 ++ [.terminate])

/-- Bytes are either all accepted, or accepted up to a first one refused. -/
theorem accepts_or_refuses (bs : Bytes) (s : σ) :
    S.Accepts s bs ∨ ∃ front b back, bs = front ++ b :: back ∧ S.Accepts s front ∧
      (S.put (S.after s front) b).1 = false := by
  induction bs generalizing s with
  | nil => exact Or.inl trivial
  | cons b bs ih =>
    cases answer : (S.put s b).1 with
    | false => exact Or.inr ⟨[], b, bs, rfl, trivial, answer⟩
    | true =>
      rcases ih (S.put s b).2 with whole | ⟨front, c, back, split, accepts, refused⟩
      · exact Or.inl ⟨answer, whole⟩
      · exact Or.inr ⟨b :: front, c, back, congrArg (b :: ·) split, ⟨answer, accepts⟩, refused⟩

theorem offer_refused (front back : Bytes) (b : UInt8) (s : σ) (accepts : S.Accepts s front)
    (refused : (S.put (S.after s front) b).1 = false) :
    S.offer (front ++ b :: back) s = (front.length, (S.put (S.after s front) b).2) := by
  rw [offer_append, offer_accepts S front s accepts]
  simp [offer, refused]

/-- The log grows by the bytes accepted and the first one refused. -/
theorem offer_logged (bs : Bytes) (s : σ) (log : List Call) :
    S.logged.offer bs (s, log) = ((S.offer bs s).1, (S.offer bs s).2,
      log ++ (bs.take ((S.offer bs s).1 + 1)).map .put) := by
  induction bs generalizing s log with
  | nil => simp [offer]
  | cons b bs ih =>
    have step : S.logged.put (s, log) b = ((S.put s b).1, (S.put s b).2, log ++ [.put b]) := rfl
    cases answer : (S.put s b).1 with
    | true => simp [offer, step, answer, ih]
    | false => simp [offer, step, answer]

end Sink

namespace Run

def unlogged (r : Run (σ × List Call)) : Run σ := ⟨r.sink.1, r.written, r.cells⟩

theorem perform_logged (S : Sink σ) (step : Step) (r : Run (σ × List Call)) :
    (r.perform S.logged step).1 = (r.unlogged.perform S step).1 ∧
    (r.perform S.logged step).2.unlogged = (r.unlogged.perform S step).2 := by
  cases step with
  | record cell => exact ⟨rfl, rfl⟩
  | emit c =>
    obtain ⟨⟨s, log⟩, written, cells⟩ := r
    simp [perform_emit, S.offer_logged, unlogged]

theorem play_logged (S : Sink σ) (steps : List Step) (r : Run (σ × List Call)) :
    (play S.logged steps r).1 = (play S steps r.unlogged).1 ∧
    (play S.logged steps r).2.unlogged = (play S steps r.unlogged).2 := by
  induction steps generalizing r with
  | nil => exact ⟨rfl, rfl⟩
  | cons step steps ih =>
    obtain ⟨answer, rest⟩ := perform_logged S step r
    rcases now : r.perform S.logged step with ⟨flag, next⟩
    rcases plain : r.unlogged.perform S step with ⟨flag', next'⟩
    rw [now, plain] at answer rest
    subst answer rest
    cases flag with
    | true =>
      simp only [play, now, plain]
      exact ih next
    | false => simp [play, now, plain]

theorem close_logged (S : Sink σ) (r : Run (σ × List Call)) :
    (r.close S.logged).unlogged = r.unlogged.close S := by
  obtain ⟨⟨s, log⟩, written, cells⟩ := r
  rcases ended : S.terminate s with ⟨answer, last⟩
  cases answer <;> simp [close, Sink.logged, unlogged, ended]

end Run

theorem formatTo_logged (S : Sink σ) (features : Features) (fmt : Bytes) (args : List Arg) (s : σ)
    (cells : List Nat) :
    (formatTo S.logged features fmt args (s, []) cells).unlogged =
      formatTo S features fmt args s cells := by
  obtain ⟨answer, rest⟩ := Run.play_logged S (script features fmt args) ⟨(s, []), 0, cells⟩
  rcases logged : Run.play S.logged (script features fmt args) ⟨(s, []), 0, cells⟩ with ⟨flag, r⟩
  rcases plain : Run.play S (script features fmt args) ⟨s, 0, cells⟩ with ⟨flag', r'⟩
  rw [logged] at answer rest
  have same : flag = flag' ∧ r.unlogged = r' :=
    ⟨answer.trans (congrArg Prod.fst plain), rest.trans (congrArg Prod.snd plain)⟩
  obtain ⟨rfl, rfl⟩ := same
  cases flag with
  | true =>
    simp only [formatTo, logged, plain]
    exact Run.close_logged S r
  | false => simp only [formatTo, logged, plain]

theorem formatTo_log_accepts (S : Sink σ) (features : Features) (fmt : Bytes) (args : List Arg)
    (s : σ) (cells : List Nat) (accepts : S.Accepts s (content features fmt args)) :
    (formatTo S.logged features fmt args (s, []) cells).sink.2 =
      (content features fmt args).map .put ++ [.terminate] ∧
    (formatTo S features fmt args s cells).written = (content features fmt args).length +
      (S.terminate (S.after s (content features fmt args))).1.toNat := by
  have offered := S.offer_accepts _ s accepts
  rw [(formatTo_deliver S.logged features fmt args (s, []) cells).2,
    (formatTo_deliver S features fmt args s cells).1, Sink.deliver, Sink.deliver, S.offer_logged,
    offered, if_pos rfl, if_pos rfl]
  simp [Sink.logged, List.take_of_length_le]

theorem formatTo_log_refused (S : Sink σ) (features : Features) (fmt : Bytes) (args : List Arg)
    (s : σ) (cells : List Nat) (front back : Bytes) (b : UInt8)
    (split : content features fmt args = front ++ b :: back) (accepts : S.Accepts s front)
    (refused : (S.put (S.after s front) b).1 = false) :
    (formatTo S.logged features fmt args (s, []) cells).sink.2 = (front ++ [b]).map .put ∧
    (formatTo S features fmt args s cells).written = front.length := by
  have offered := S.offer_refused front back b s accepts refused
  have short : front.length ≠ (front ++ b :: back).length := by
    simp only [List.length_append, List.length_cons]
    omega
  rw [(formatTo_deliver S.logged features fmt args (s, []) cells).2,
    (formatTo_deliver S features fmt args s cells).1, Sink.deliver, Sink.deliver, S.offer_logged,
    split, offered, if_neg short, if_neg short]
  simp [List.take_append, List.take_of_length_le]

/-- Every sink is offered the same bytes `F`, which are those that a sink without refusals gets, in
order and nothing else: either all of them and one terminator, or those up to and with the first one
refused, and then no further call. The count is that of the bytes accepted, and an accepted
terminator counts too. -/
theorem formatTo_offers_content (S : Sink σ) (features : Features) (fmt : Bytes) (args : List Arg)
    (s : σ) (cells : List Nat) (memory : Array UInt8) (start : Nat) :
    let F := content features fmt args
    let run := formatTo S features fmt args s cells
    let logged := formatTo S.logged features fmt args (s, []) cells
    let stored := formatTo .bounded features fmt args (.ofMemory memory) cells
    run = ⟨logged.sink.1, logged.written, logged.cells⟩ ∧
    ((S.Accepts s F ∧ logged.sink.2 = F.map .put ++ [.terminate] ∧
        run.written = F.length + (S.terminate (S.after s F)).1.toNat) ∨
      ∃ front b back, F = front ++ b :: back ∧ S.Accepts s front ∧
        (S.put (S.after s front) b).1 = false ∧
        logged.sink.2 = (front ++ [b]).map .put ∧ run.written = front.length) ∧
    stored.written = min memory.size (F.length + 1) ∧
    stored.sink.bytes = (F ++ [0]).take stored.written ∧
    (formatTo .counter features fmt args start cells).written = F.length + 1 := by
  intro F run logged stored
  obtain ⟨written, bytes, -⟩ := formatTo_bounded features fmt args (.ofMemory memory) cells
  simp only [Buffer.spare_ofMemory, Buffer.bytes_ofMemory, Array.length_toList, List.nil_append]
    at written bytes
  have count : stored.written = min memory.size (F.length + 1) := written.trans (Nat.min_comm _ _)
  refine ⟨(formatTo_logged S features fmt args s cells).symm, ?_, count, ?_,
    counter_written features fmt args start cells⟩
  · rcases S.accepts_or_refuses F s with whole | ⟨front, b, back, split, accepts, refused⟩
    · exact Or.inl ⟨whole, formatTo_log_accepts S features fmt args s cells whole⟩
    · exact Or.inr ⟨front, b, back, split, accepts, refused,
        formatTo_log_refused S features fmt args s cells front back b split accepts refused⟩
  · have whole : (F ++ [0]).take (F.length + 1) = F ++ [0] := List.take_of_length_le (by simp)
    rw [count, ← List.take_take, whole]
    exact bytes

end Printf
