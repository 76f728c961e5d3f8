import Printf.Proofs.Counts
import Printf.Proofs.Memory

/-! Memory sinks over whole histories of requests: single bytes, terminators and formattings in any
order. What a bounded buffer replies depends on the number of its spare bytes alone, so that neither
what it held at first nor what was left behind by a clearing is ever seen. -/
namespace Printf

inductive Request where
  | put (b : UInt8)
  | terminate
  | format (fmt : Bytes) (args : List Arg) (cells : List Nat)

/-- Whether a byte was accepted, or the count that a formatting returns and the cells behind it. -/
inductive Reply where
  | answer (accepted : Bool)
  | count (written : Nat) (cells : List Nat)
  deriving DecidableEq, Repr

/-- How many bytes were accepted, as far as the reply tells. -/
def Reply.counted : Reply → Nat
  | answer accepted => accepted.toNat
  | count written _ => written

namespace Sink

variable (S : Sink σ) (features : Features)

def serve : Request → σ → Reply × σ
  | .put b, s => (.answer (S.put s b).1, (S.put s b).2)
  | .terminate, s => (.answer (S.terminate s).1, (S.terminate s).2)
  | .format fmt args cells, s =>
    let run := formatTo S features fmt args s cells
    (.count run.written run.cells, run.sink)

def history : List Request → σ → List Reply × σ
  | [], s => ([], s)
  | q :: qs, s =>
    let (reply, s) := S.serve features q s
    let (replies, s) := history qs s
    (reply :: replies, s)

end Sink

namespace Request

variable (features : Features)

def offered : Request → Bytes
  | put b => [b]
  | terminate => [0]
  | format fmt args _ => content features fmt args ++ [0]

/-- The reply of a bounded buffer with `room` spare bytes. -/
def reply (room : Nat) : Request → Reply
  | put _ | terminate => .answer (0 < room)
  | format fmt args cells =>
    .count (min ((content features fmt args).length + 1) room)
      (store cells ((marks features fmt args).filter
        (·.offset ≤ min (content features fmt args).length room)))

def replies : List Request → Nat → List Reply
  | [], _ => []
  | q :: qs, room => q.reply features room :: replies qs (room - (q.offered features).length)

def offeredBy (qs : List Request) : Bytes := qs.flatMap (offered features)

/-- Of the bytes offered those that the replies count, in order. -/
def acceptedBy : List Request → List Reply → Bytes
  | q :: qs, r :: rs => (q.offered features).take r.counted ++ acceptedBy qs rs
  | _, _ => []

theorem offeredBy_cons (q : Request) (qs : List Request) :
    offeredBy features (q :: qs) = q.offered features ++ offeredBy features qs := by
  simp [offeredBy]

theorem counted_reply (q : Request) (room : Nat) :
    (q.reply features room).counted = min (q.offered features).length room := by
  cases q with
  | put b | terminate =>
    cases room with
    | zero => rfl
    | succ room => simp [reply, offered, Reply.counted]
  | format fmt args cells => simp [reply, offered, Reply.counted]

/-- What is accepted altogether is what fits of all that is offered. -/
theorem acceptedBy_replies (qs : List Request) (room : Nat) :
    acceptedBy features qs (replies features qs room) = (offeredBy features qs).take room := by
  induction qs generalizing room with
  | nil => simp [acceptedBy, offeredBy]
  | cons q qs ih =>
    rw [replies, acceptedBy, ih, counted_reply, offeredBy_cons, List.take_append, Nat.min_comm,
      ← List.take_take, List.take_length]

theorem replies_full (qs : List Request) : ∀ r ∈ replies features qs 0, r.counted = 0 := by
  induction qs with
  | nil => exact List.forall_mem_nil _
  | cons q qs ih =>
    rw [replies, Nat.zero_sub]
    refine List.forall_mem_cons.mpr ⟨?_, ih⟩
    rw [counted_reply, Nat.min_zero]

end Request

namespace Buffer

theorem bytes_append_spare (b : Buffer) : b.bytes ++ b.spare = b.memory.toList :=
  List.take_append_drop _ _

theorem length_bytes (b : Buffer) : b.bytes.length = b.used := by
  have within := b.used_le
  simp only [bytes, List.length_take, Array.length_toList]
  omega

theorem ext_parts {b b' : Buffer} (bytes : b.bytes = b'.bytes) (spare : b.spare = b'.spare) :
    b = b' := by
  have memory : b.memory = b'.memory := by
    apply Array.toList_inj.mp
    rw [← b.bytes_append_spare, ← b'.bytes_append_spare, bytes, spare]
  have used : b.used = b'.used := by rw [← b.length_bytes, ← b'.length_bytes, bytes]
  obtain ⟨_, _, _⟩ := b
  obtain ⟨_, _, _⟩ := b'
  cases memory
  cases used
  rfl

theorem put_parts (b : Buffer) (x : UInt8) :
    (b.put x).1 = decide (0 < b.spare.length) ∧
    (b.put x).2.bytes = b.bytes ++ [x].take b.spare.length ∧
    (b.put x).2.spare = b.spare.drop 1 := by
  cases room : b.spare with
  | nil => simp [b.put_full x room, room]
  | cons old rest =>
    obtain ⟨answer, stored, behind⟩ := b.put_room x room
    simp [answer, stored, behind]

end Buffer

/-- A request moves what fits of the bytes offered from the spare bytes to the stored ones. -/
theorem serve_bounded (features : Features) (q : Request) (b : Buffer) :
    (Sink.bounded.serve features q b).1 = q.reply features b.spare.length ∧
    (Sink.bounded.serve features q b).2.bytes =
      b.bytes ++ (q.offered features).take b.spare.length ∧
    (Sink.bounded.serve features q b).2.spare = b.spare.drop (q.offered features).length := by
  cases q with
  | put x =>
    obtain ⟨answer, stored, behind⟩ := b.put_parts x
    exact ⟨congrArg Reply.answer answer, stored, behind⟩
  | terminate =>
    obtain ⟨answer, stored, behind⟩ := b.put_parts 0
    exact ⟨congrArg Reply.answer answer, stored, behind⟩
  | format fmt args cells =>
    obtain ⟨written, stored, behind⟩ := formatTo_bounded features fmt args b cells
    have recorded := formatTo_cells .bounded features fmt args b cells
    rw [marks_script, (offer_bounded _ b).1] at recorded
    simp only [Sink.serve, Request.reply, Request.offered, List.length_append,
      List.length_singleton]
    exact ⟨by rw [written, recorded], stored, behind⟩

theorem history_bounded (features : Features) (qs : List Request) (b : Buffer) :
    (Sink.bounded.history features qs b).1 = Request.replies features qs b.spare.length ∧
    (Sink.bounded.history features qs b).2.bytes =
      b.bytes ++ (Request.offeredBy features qs).take b.spare.length ∧
    (Sink.bounded.history features qs b).2.spare =
      b.spare.drop (Request.offeredBy features qs).length := by
  induction qs generalizing b with
  | nil => simp [Sink.history, Request.replies, Request.offeredBy]
  | cons q qs ih =>
    obtain ⟨reply, stored, behind⟩ := serve_bounded features q b
    obtain ⟨replies, bytes, spare⟩ := ih (Sink.bounded.serve features q b).2
    rw [behind, List.length_drop] at replies bytes
    rw [behind, List.drop_drop] at spare
    refine ⟨?_, ?_, ?_⟩
    · exact List.cons_eq_cons.mpr ⟨reply, replies⟩
    · rw [Request.offeredBy_cons, List.take_append, ← List.append_assoc, ← stored]
      exact bytes
    · rw [Request.offeredBy_cons, List.length_append]
      exact spare

theorem history_bounded_size (features : Features) (qs : List Request) (b : Buffer) :
    (Sink.bounded.history features qs b).2.memory.size = b.memory.size := by
  obtain ⟨-, bytes, spare⟩ := history_bounded features qs b
  have parts := (Sink.bounded.history features qs b).2.bytes_append_spare
  have before := congrArg List.length b.bytes_append_spare
  rw [bytes, spare] at parts
  have lengths := congrArg List.length parts
  simp only [List.length_append, List.length_take, List.length_drop, Array.length_toList]
    at lengths before
  omega

/-- A buffer without spare bytes refuses everything and does not change. -/
theorem history_full (features : Features) (qs : List Request) {b : Buffer} (full : b.spare = []) :
    (Sink.bounded.history features qs b).2 = b ∧
    ∀ r ∈ (Sink.bounded.history features qs b).1, r.counted = 0 := by
  obtain ⟨replies, bytes, spare⟩ := history_bounded features qs b
  simp only [full, List.length_nil, List.take_zero, List.append_nil, List.drop_nil]
    at replies bytes spare
  refine ⟨Buffer.ext_parts bytes (spare.trans full.symm), ?_⟩
  rw [replies]
  exact Request.replies_full features qs

/-- Two empty buffers of one capacity cannot be told apart, whatever lies in their memory. -/
theorem history_empty (features : Features) (qs : List Request) {b b' : Buffer}
    (empty : b.bytes = []) (empty' : b'.bytes = []) (same : b.capacity = b'.capacity) :
    (Sink.bounded.history features qs b).1 = (Sink.bounded.history features qs b').1 ∧
    (Sink.bounded.history features qs b).2.bytes =
      (Sink.bounded.history features qs b').2.bytes := by
  have room {c : Buffer} (empty : c.bytes = []) : c.spare.length = c.capacity := by
    have parts := congrArg List.length c.bytes_append_spare
    rwa [empty, List.nil_append] at parts
  obtain ⟨replies, bytes, -⟩ := history_bounded features qs b
  obtain ⟨replies', bytes', -⟩ := history_bounded features qs b'
  rw [room empty] at replies bytes
  rw [room empty'] at replies' bytes'
  rw [replies, replies', bytes, bytes', empty, empty', same]
  exact ⟨rfl, rfl⟩

/-- A truncating buffer moves the same bytes and counts all that are offered. -/
theorem serve_truncating (features : Features) (q : Request) (b : TruncatingBuffer) :
    (Sink.truncating.serve features q b).1.counted = (q.offered features).length ∧
    (Sink.truncating.serve features q b).2.total = b.total + (q.offered features).length ∧
    (Sink.truncating.serve features q b).2.bytes =
      b.bytes ++ (q.offered features).take b.spare.length ∧
    (Sink.truncating.serve features q b).2.spare = b.spare.drop (q.offered features).length := by
  cases q with
  | put x => exact ⟨rfl, (offer_truncating [x] b).2⟩
  | terminate => exact ⟨rfl, (offer_truncating [0] b).2⟩
  | format fmt args cells =>
    obtain ⟨written, sink⟩ := formatTo_deliver .truncating features fmt args b cells
    rw [Sink.truncating.deliver_terminated (fun _ => rfl)] at written sink
    have moved := offer_truncating (content features fmt args ++ [0]) b
    rwa [← written, ← sink] at moved

theorem history_truncating (features : Features) (qs : List Request) (b : TruncatingBuffer) :
    (Sink.truncating.history features qs b).1.map Reply.counted =
      qs.map (fun q => (q.offered features).length) ∧
    (Sink.truncating.history features qs b).2.total =
      b.total + (Request.offeredBy features qs).length ∧
    (Sink.truncating.history features qs b).2.bytes =
      b.bytes ++ (Request.offeredBy features qs).take b.spare.length ∧
    (Sink.truncating.history features qs b).2.spare =
      b.spare.drop (Request.offeredBy features qs).length := by
  induction qs generalizing b with
  | nil => simp [Sink.history, Request.offeredBy]
  | cons q qs ih =>
    obtain ⟨counted, sum, stored, behind⟩ := serve_truncating features q b
    obtain ⟨counts, total, bytes, spare⟩ := ih (Sink.truncating.serve features q b).2
    rw [behind, List.length_drop] at bytes
    rw [behind, List.drop_drop] at spare
    rw [sum, Nat.add_assoc] at total
    refine ⟨?_, ?_, ?_, ?_⟩
    · exact List.cons_eq_cons.mpr ⟨counted, counts⟩
    · rw [Request.offeredBy_cons, List.length_append]
      exact total
    · rw [Request.offeredBy_cons, List.take_append, ← List.append_assoc, ← stored]
      exact bytes
    · rw [Request.offeredBy_cons, List.length_append]
      exact spare

/-- Any history of requests, and so every beginning of it. A bounded buffer over any memory holds the
accepted bytes in order in front of its cursor and the old memory behind; once it is full, nothing
changes and nothing is accepted any more. A buffer with memory of its own gives the same replies and
holds the same bytes, and so does one that has been cleared after any use. A truncating buffer
accepts everything, counts what is offered and has the memory of the bounded one. -/
theorem buffers_over_histories (features : Features) (memory : Array UInt8) (qs : List Request) :
    let N := memory.size
    let bounded := Sink.bounded.history features qs (.ofMemory memory)
    let own := Sink.bounded.history features qs (.zeroed N)
    let truncating := Sink.truncating.history features qs (.ofMemory memory)
    let b := bounded.2
    (b.capacity = N ∧ b.used ≤ N ∧ b.used + b.remaining = N ∧
      b.bytes = Request.acceptedBy features qs bounded.1 ∧
      b.memory.toList.drop b.used = memory.toList.drop b.used ∧
      (b.used = N → ∀ later, (Sink.bounded.history features later b).2 = b ∧
        ∀ r ∈ (Sink.bounded.history features later b).1, r.counted = 0)) ∧
    (own.1 = bounded.1 ∧ own.2.bytes = b.bytes ∧
      ∀ used : Buffer, used.capacity = N → ∀ later,
        let cleared := Sink.bounded.history features later used.clear
        let fresh := Sink.bounded.history features later (.zeroed N)
        cleared.1 = fresh.1 ∧ cleared.2.bytes = fresh.2.bytes) ∧
    truncating.1.map Reply.counted = qs.map (fun q => (q.offered features).length) ∧
    truncating.2.total = (Request.offeredBy features qs).length ∧
    truncating.2.memory = b.memory := by
  intro N bounded own truncating b
  obtain ⟨replies, bytes, spare⟩ := history_bounded features qs (.ofMemory memory)
  simp only [Buffer.spare_ofMemory, Buffer.bytes_ofMemory, Array.length_toList, List.nil_append]
    at replies bytes spare
  have size : b.memory.size = N := history_bounded_size features qs (.ofMemory memory)
  have within : b.used ≤ N := size ▸ b.used_le
  have cursor : b.used = min N (Request.offeredBy features qs).length := by
    rw [← b.length_bytes, bytes, List.length_take]
  refine ⟨⟨size, within, ?_, ?_, ?_, ?_⟩, ⟨?_, ?_, ?_⟩, ?_⟩
  · rw [Buffer.remaining, size]
    omega
  · rw [bytes, replies, Request.acceptedBy_replies]
  · have old : b.memory.toList.drop b.used =
        memory.toList.drop (Request.offeredBy features qs).length := spare
    rw [old, cursor]
    rcases Nat.le_total N (Request.offeredBy features qs).length with full | room
    · rw [Nat.min_eq_left full, List.drop_eq_nil_of_le (by simpa using full),
        List.drop_eq_nil_of_le (by simp [N])]
    · rw [Nat.min_eq_right room]
  · intro last later
    refine history_full features later ?_
    rw [Buffer.spare, last, ← size]
    exact List.drop_eq_nil_of_le (Nat.le_of_eq Array.length_toList)
  · exact (history_empty features qs (Buffer.bytes_ofMemory _) (Buffer.bytes_ofMemory _)
      (by simp [Buffer.capacity, Buffer.ofMemory, N])).1
  · exact (history_empty features qs (Buffer.bytes_ofMemory _) (Buffer.bytes_ofMemory _)
      (by simp [Buffer.capacity, Buffer.ofMemory, N])).2
  · intro used capacity later
    refine history_empty features later ?_ (Buffer.bytes_ofMemory _) ?_
    · simp [Buffer.bytes, Buffer.clear]
    · exact capacity.trans (by simp [Buffer.capacity, Buffer.zeroed, Buffer.ofMemory])
  · obtain ⟨counts, total, bytes', spare'⟩ := history_truncating features qs (.ofMemory memory)
    have held : (TruncatingBuffer.ofMemory memory).bytes = [] := by
      simp [TruncatingBuffer.ofMemory, TruncatingBuffer.bytes]
    have unused : (TruncatingBuffer.ofMemory memory).spare = memory.toList := by
      simp [TruncatingBuffer.ofMemory, TruncatingBuffer.spare]
    rw [held, unused, Array.length_toList, List.nil_append] at bytes'
    rw [unused] at spare'
    refine ⟨counts, total.trans (Nat.zero_add _), ?_⟩
    apply Array.toList_inj.mp
    rw [← truncating.2.bytes_append_spare, bytes', spare', ← b.bytes_append_spare, bytes, spare]

end Printf
