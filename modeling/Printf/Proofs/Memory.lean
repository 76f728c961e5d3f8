import Printf.Format
import Printf.Proofs.Offer

/-! Memory as the bytes stored so far and the spare bytes behind them. A bounded and a truncating
buffer both move bytes from one side to the other; they differ in the answer when nothing is spare.
The result of formatting into memory follows from what is stored of the output with its NUL. -/
namespace Printf

theorem set_split (memory : Bytes) (i : Nat) (x : UInt8) (inside : i < memory.length) :
    (memory.set i x).take (i + 1) = memory.take i ++ [x] ∧
    (memory.set i x).drop (i + 1) = memory.drop (i + 1) := by
  have shape : memory.set i x = _ := List.set_eq_take_append_cons_drop
  rw [if_pos inside] at shape
  have front : (memory.take i).length = i := by simp only [List.length_take]; omega
  constructor
  · rw [shape, List.take_append, front, List.take_take, Nat.min_eq_right (Nat.le_succ i)]
    simp
  · exact List.drop_set_of_lt (Nat.lt_succ_self i)

namespace Buffer

def spare (b : Buffer) : Bytes := b.memory.toList.drop b.used

theorem length_spare (b : Buffer) : b.spare.length = b.remaining := by simp [spare, remaining]

@[simp] theorem bytes_ofMemory (memory : Array UInt8) : (ofMemory memory).bytes = [] := by
  simp [bytes, ofMemory]

@[simp] theorem spare_ofMemory (memory : Array UInt8) :
    (ofMemory memory).spare = memory.toList := by simp [spare, ofMemory]

theorem put_full {b : Buffer} (x : UInt8) (full : b.spare = []) : b.put x = (false, b) := by
  have closed : ¬ b.used < b.memory.size := by
    simp only [spare, List.drop_eq_nil_iff, Array.length_toList] at full
    omega
  obtain ⟨memory, used, bound⟩ := b
  simp only [put, dif_neg closed]

/-- A byte is stored at the cursor, and the memory behind it stays. -/
theorem put_room {b : Buffer} {old : UInt8} {rest : Bytes} (x : UInt8)
    (room : b.spare = old :: rest) :
    (b.put x).1 = true ∧ (b.put x).2.bytes = b.bytes ++ [x] ∧ (b.put x).2.spare = rest := by
  have inside : b.used < b.memory.size := by
    have len := b.length_spare
    simp only [room, List.length_cons, remaining] at len
    omega
  obtain ⟨memory, used, bound⟩ := b
  have parts := set_split memory.toList used x (by simpa using inside)
  simp only [put, dif_pos inside, bytes, spare, Array.toList_set, parts.1, parts.2, true_and]
  simp only [spare] at room
  rw [← List.tail_drop, room, List.tail_cons]

end Buffer

/-- A bounded buffer stores what fits, and accepts as many bytes. -/
theorem offer_bounded (bs : Bytes) (b : Buffer) :
    (Sink.bounded.offer bs b).1 = min bs.length b.spare.length ∧
    (Sink.bounded.offer bs b).2.bytes = b.bytes ++ bs.take b.spare.length ∧
    (Sink.bounded.offer bs b).2.spare = b.spare.drop bs.length := by
  induction bs generalizing b with
  | nil => simp [Sink.offer]
  | cons x bs ih =>
    cases room : b.spare with
    | nil => simp [Sink.offer, Sink.bounded, b.put_full x room, room]
    | cons old rest =>
      obtain ⟨answer, stored, behind⟩ := b.put_room x room
      obtain ⟨count, bytes, spare⟩ := ih (b.put x).2
      simp only [Sink.offer, Sink.bounded, answer, if_true]
      refine ⟨?_, ?_, ?_⟩
      · exact (congrArg (· + 1) count).trans (by rw [behind]; simp [Nat.succ_min_succ])
      · exact bytes.trans (by rw [stored, behind]; simp)
      · exact spare.trans (by rw [behind]; simp)

namespace TruncatingBuffer

def bytes (b : TruncatingBuffer) : Bytes := b.memory.toList.take b.total

def spare (b : TruncatingBuffer) : Bytes := b.memory.toList.drop b.total

theorem bytes_append_spare (b : TruncatingBuffer) : b.bytes ++ b.spare = b.memory.toList :=
  List.take_append_drop _ _

theorem put_parts (b : TruncatingBuffer) (x : UInt8) :
    (b.put x).bytes = b.bytes ++ [x].take b.spare.length ∧ (b.put x).spare = b.spare.tail := by
  rw [bytes, bytes, spare, spare, put_memory, put_total, Array.toList_setIfInBounds]
  generalize b.memory.toList = memory, b.total = total
  by_cases inside : total < memory.length
  · have parts := set_split _ _ x inside
    have room : ([x] : Bytes).take (memory.drop total).length = [x] := by
      apply List.take_of_length_le
      simp only [List.length_singleton, List.length_drop]
      omega
    simp only [parts.1, parts.2, room, true_and, List.tail_drop]
  · have full : memory.length ≤ total := Nat.not_lt.mp inside
    simp only [List.set_eq_of_length_le full, List.drop_eq_nil_of_le full,
      List.drop_eq_nil_of_le (Nat.le_succ_of_le full), List.take_of_length_le full,
      List.take_of_length_le (Nat.le_succ_of_le full)]
    simp

/-- A truncated text loses its last byte to the NUL; any other memory is left alone. -/
theorem finish_toList (b : TruncatingBuffer) :
    b.finish.toList =
      if b.total ≤ b.memory.size then b.memory.toList
      else if b.memory.size = 0 then [] else b.memory.toList.take (b.memory.size - 1) ++ [0] := by
  obtain ⟨memory, cursor, total, place⟩ := b
  by_cases fits : total ≤ memory.size
  · simp [finish, truncated, fits, Nat.not_lt.mpr fits]
  · have cut : memory.size < total := Nat.not_le.mp fits
    simp only [finish, truncated, decide_eq_true cut, if_true, if_neg fits,
      Array.toList_setIfInBounds]
    by_cases none : memory.size = 0
    · simp [Array.eq_empty_of_size_eq_zero none]
    · have last : memory.size - 1 < memory.toList.length := by simp only [Array.length_toList]; omega
      have behind : memory.toList.drop (memory.size - 1 + 1) = [] := by
        apply List.drop_eq_nil_of_le
        simp only [Array.length_toList]
        omega
      rw [if_neg none, List.set_eq_take_append_cons_drop, if_pos last, behind]

end TruncatingBuffer

/-- A truncating buffer stores what a bounded one does, but accepts and counts everything. -/
theorem offer_truncating (bs : Bytes) (b : TruncatingBuffer) :
    (Sink.truncating.offer bs b).1 = bs.length ∧
    (Sink.truncating.offer bs b).2.total = b.total + bs.length ∧
    (Sink.truncating.offer bs b).2.bytes = b.bytes ++ bs.take b.spare.length ∧
    (Sink.truncating.offer bs b).2.spare = b.spare.drop bs.length := by
  induction bs generalizing b with
  | nil => simp [Sink.offer]
  | cons x bs ih =>
    obtain ⟨stored, behind⟩ := b.put_parts x
    obtain ⟨count, total, bytes, spare⟩ := ih (b.put x)
    refine ⟨congrArg (· + 1) count, total.trans ?_, bytes.trans ?_, spare.trans ?_⟩
    · rw [b.put_total, List.length_cons]
      omega
    · rw [stored, behind]
      cases b.spare <;> simp
    · rw [behind, List.drop_tail]
      rfl

theorem recording_eq (features : Features) (fmt : Bytes) (args : List Arg) (cells : List Nat) :
    (formatTo Sink.recording features fmt args [] cells).sink = content features fmt args ++ [0] := by
  have delivered := (formatTo_deliver Sink.recording features fmt args [] cells).2
  rw [delivered, Sink.recording.deliver_terminated (fun _ => rfl),
    Sink.recording.offer_unrefused (fun _ _ => rfl)]
  exact Sink.after_recording [] _

theorem counter_written (features : Features) (fmt : Bytes) (args : List Arg) (count : Nat)
    (cells : List Nat) :
    (formatTo .counter features fmt args count cells).written =
      (content features fmt args).length + 1 := by
  rw [(formatTo_deliver .counter features fmt args count cells).1,
    Sink.counter.deliver_terminated (fun _ => rfl), Sink.counter.offer_unrefused (fun _ _ => rfl)]
  simp

theorem formatTo_bounded (features : Features) (fmt : Bytes) (args : List Arg) (b : Buffer)
    (cells : List Nat) :
    let run := formatTo .bounded features fmt args b cells
    run.written = min ((content features fmt args).length + 1) b.spare.length ∧
    run.sink.bytes = b.bytes ++ (content features fmt args ++ [0]).take b.spare.length ∧
    run.sink.spare = b.spare.drop ((content features fmt args).length + 1) := by
  intro run
  have delivered := formatTo_deliver .bounded features fmt args b cells
  rw [Sink.bounded.deliver_terminated (fun _ => rfl)] at delivered
  have stored := offer_bounded (content features fmt args ++ [0]) b
  rw [← delivered.1, ← delivered.2, List.length_append, List.length_singleton] at stored
  exact stored

theorem formatTo_truncating (features : Features) (fmt : Bytes) (args : List Arg)
    (memory : Array UInt8) (cells : List Nat) :
    let b := (formatTo .truncating features fmt args (.ofMemory memory) cells).sink
    b.total = (content features fmt args).length + 1 ∧
    b.memory.toList = (content features fmt args ++ [0]).take memory.size ++
      memory.toList.drop ((content features fmt args).length + 1) := by
  intro b
  have delivered := (formatTo_deliver .truncating features fmt args (.ofMemory memory) cells).2
  rw [Sink.truncating.deliver_terminated (fun _ => rfl)] at delivered
  obtain ⟨-, total, bytes, spare⟩ :=
    offer_truncating (content features fmt args ++ [0]) (.ofMemory memory)
  rw [← delivered] at total bytes spare
  constructor
  · exact total.trans (by simp [TruncatingBuffer.ofMemory])
  · rw [← b.bytes_append_spare, bytes, spare]
    simp [TruncatingBuffer.ofMemory, TruncatingBuffer.bytes, TruncatingBuffer.spare]

theorem formatToBuffer_returned (features : Features) (memory : Array UInt8) (fmt : Bytes)
    (args : List Arg) (cells : List Nat) :
    (formatToBuffer features memory fmt args cells).returned =
      (content features fmt args).length + 1 :=
  (formatTo_truncating features fmt args memory cells).1

/-- The memory holds the output with its NUL, or what fits of it before a last NUL. -/
theorem formatToBuffer_memory (features : Features) (memory : Array UInt8) (fmt : Bytes)
    (args : List Arg) (cells : List Nat) :
    let T := content features fmt args ++ [0]
    (formatToBuffer features memory fmt args cells).memory.toList =
      if T.length ≤ memory.size then T ++ memory.toList.drop T.length
      else if memory.size = 0 then [] else T.take (memory.size - 1) ++ [0] := by
  intro T
  obtain ⟨total, filled⟩ := formatTo_truncating features fmt args memory cells
  change (TruncatingBuffer.finish
    (formatTo .truncating features fmt args (.ofMemory memory) cells).sink).toList = _
  generalize (formatTo .truncating features fmt args (.ofMemory memory) cells).sink = b
    at total filled ⊢
  have length : (content features fmt args).length + 1 = T.length := by simp [T]
  rw [length] at total filled
  have size : b.memory.size = memory.size := by
    have lengths := congrArg List.length filled
    simp only [Array.length_toList, List.length_append, List.length_take, List.length_drop,
      List.length_singleton, ← length] at lengths
    omega
  rw [b.finish_toList, total, size, filled]
  by_cases fits : T.length ≤ memory.size
  · rw [if_pos fits, if_pos fits, List.take_of_length_le fits]
  · have cut : memory.size ≤ T.length := Nat.le_of_not_le fits
    have behind : memory.toList.drop T.length = [] := List.drop_eq_nil_of_le (by simpa using cut)
    rw [if_neg fits, if_neg fits, behind, List.append_nil, List.take_take,
      Nat.min_eq_left (Nat.sub_le _ _)]

/-- Formatting into memory, for the output `T` with its NUL as a sink that never refuses gets it: the
length of `T` is returned whatever the memory, and the memory begins with `T`, or with what fits of
it before a last NUL. Memory of the size that a counting run returns holds all of `T`. -/
theorem formatToBuffer_holds_output (features : Features) (memory : Array UInt8) (fmt : Bytes)
    (args : List Arg) (cells counted : List Nat)
    (sized : Vector UInt8 (formattedSize features fmt args counted)) :
    let T := (formatTo Sink.recording features fmt args [] cells).sink
    let N := memory.size
    let written := formatToBuffer features memory fmt args cells
    T = content features fmt args ++ [0] ∧
    written.returned = T.length ∧
    written.memory.toList =
      (if T.length ≤ N then T ++ memory.toList.drop T.length
       else if N = 0 then [] else T.take (N - 1) ++ [0]) ∧
    (N = 0 ∨ 0 ∈ written.memory) ∧
    (formatToBuffer features sized.toArray fmt args cells).memory.toList = T := by
  intro T N written
  have whole : T = content features fmt args ++ [0] := recording_eq features fmt args cells
  have held : written.memory.toList =
      if T.length ≤ N then T ++ memory.toList.drop T.length
      else if N = 0 then [] else T.take (N - 1) ++ [0] := by
    rw [whole]
    exact formatToBuffer_memory features memory fmt args cells
  refine ⟨whole, ?_, held, ?_, ?_⟩
  · rw [whole, List.length_append]
    exact formatToBuffer_returned features memory fmt args cells
  · by_cases empty : N = 0
    · exact Or.inl empty
    · refine Or.inr (Array.mem_toList_iff.mp ?_)
      rw [held, if_neg empty]
      split
      · simp [whole]
      · simp
  · have size : sized.toArray.size = T.length := by
      rw [whole, sized.size_toArray]
      exact (counter_written features fmt args 0 counted).trans (by simp)
    have exact := formatToBuffer_memory features sized.toArray fmt args cells
    simp only [← whole] at exact
    rw [exact, if_pos (Nat.le_of_eq size.symm)]
    simp [← size]

end Printf
