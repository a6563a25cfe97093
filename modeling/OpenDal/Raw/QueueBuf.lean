import OpenDal.Types.BufferSequence

/-!
# `QueueBuf`: a queue of buffers

The queue stores whole buffers and joins them only when `collect` is called.
-/

namespace OpenDal

/-- `QueueBuf(VecDeque<Buffer>)`, front first. -/
structure QueueBuf where
  buffers : List Buffer
deriving DecidableEq

namespace QueueBuf

def new : QueueBuf := ⟨[]⟩

/-- Empty buffers are not stored. -/
def push (queue : QueueBuf) (buf : Buffer) : QueueBuf :=
  if buf.isEmpty then queue else ⟨queue.buffers ++ [buf]⟩

def len (queue : QueueBuf) : Nat :=
  (queue.buffers.map Buffer.len).sum

def isEmpty (queue : QueueBuf) : Bool :=
  queue.len == 0

/-- `mem::take`: the whole queue, and the empty queue left behind. -/
def take (queue : QueueBuf) : QueueBuf × QueueBuf :=
  (queue, new)

def collect (queue : QueueBuf) : Buffer :=
  match queue.buffers with
  | [] => Buffer.new
  | [buf] => buf
  | many => Buffer.flatten many

/-- The loop of `advance` over the buffers from the front; `none` is a panic of
`front_mut().expect(..)` or of `Buf::advance`. -/
def advanceLoop : List Buffer → Nat → Option (List Buffer)
  | buffers, 0 => some buffers
  | [], _ + 1 => none
  | buf :: buffers, newCnt + 1 =>
      if newCnt + 1 < buf.len then
        (buf.advance (newCnt + 1)).map (· :: buffers)
      else
        advanceLoop buffers (newCnt + 1 - buf.len)

/-- `none` is the failed assertion `cnt <= len`, or a panic of the loop. -/
def advance (queue : QueueBuf) (cnt : Nat) : Option QueueBuf :=
  if cnt ≤ queue.len then
    (advanceLoop queue.buffers cnt).map QueueBuf.mk
  else
    none

def clear (_ : QueueBuf) : QueueBuf := new

/-- The queued bytes in order. -/
def bytes (queue : QueueBuf) : Bytes :=
  queue.buffers.flatMap Buffer.bytes

@[simp] theorem bytes_new : new.bytes = [] := rfl

@[simp] theorem length_bytes (queue : QueueBuf) :
    queue.bytes.length = queue.len := by
  simp [bytes, len, List.length_flatMap]

@[simp] theorem len_new : new.len = 0 := rfl

@[simp] theorem bytes_push (queue : QueueBuf) (buf : Buffer) :
    (queue.push buf).bytes = queue.bytes ++ buf.bytes := by
  unfold push
  split
  · rename_i empty
    simp [(Buffer.isEmpty_iff buf).mp empty]
  · simp [bytes]

@[simp] theorem len_push (queue : QueueBuf) (buf : Buffer) :
    (queue.push buf).len = queue.len + buf.len := by
  rw [← length_bytes, bytes_push, List.length_append, length_bytes,
    Buffer.length_bytes]

theorem isEmpty_iff (queue : QueueBuf) :
    queue.isEmpty = true ↔ queue.bytes = [] := by
  rw [← List.length_eq_zero_iff, length_bytes]
  simp [isEmpty]

@[simp] theorem bytes_collect (queue : QueueBuf) :
    queue.collect.bytes = queue.bytes := by
  unfold collect bytes
  split
  · rename_i empty
    simp [empty]
  · rename_i single
    simp [single]
  · exact Buffer.bytes_flatten _

/-- The loop drops bytes from the front as long as there are as many. -/
theorem advanceLoop_spec {buffers : List Buffer} {cnt : Nat}
    (enough : cnt ≤ (buffers.flatMap Buffer.bytes).length) :
    ∃ rest, advanceLoop buffers cnt = some rest ∧
      rest.flatMap Buffer.bytes = (buffers.flatMap Buffer.bytes).drop cnt := by
  induction buffers generalizing cnt with
  | nil =>
      have none : cnt = 0 := Nat.le_zero.mp enough
      subst none
      exact ⟨[], rfl, rfl⟩
  | cons buf buffers induction =>
      cases cnt with
      | zero => exact ⟨buf :: buffers, rfl, rfl⟩
      | succ cnt =>
          have length := buf.length_bytes
          rw [List.flatMap_cons, List.length_append] at enough
          rw [advanceLoop, List.flatMap_cons]
          split
          · next inside =>
              obtain ⟨advanced, success, dropped⟩ :=
                Buffer.advance_spec (Nat.le_of_lt inside)
              refine ⟨advanced :: buffers, by rw [success]; rfl, ?_⟩
              rw [List.flatMap_cons, dropped,
                List.drop_append_of_le_length (by omega)]
          · next exhausted =>
              obtain ⟨rest, success, dropped⟩ :=
                induction (show cnt + 1 - buf.len ≤ _ by omega)
              have gone : buf.bytes.drop (cnt + 1) = [] :=
                List.drop_eq_nil_of_le (by omega)
              refine ⟨rest, success, ?_⟩
              rw [dropped, List.drop_append, gone, List.nil_append, length]

theorem advance_spec {queue : QueueBuf} {cnt : Nat}
    (enough : cnt ≤ queue.len) :
    ∃ later, queue.advance cnt = some later ∧
      later.bytes = queue.bytes.drop cnt := by
  have total := enough
  rw [← length_bytes] at total
  obtain ⟨rest, success, dropped⟩ := advanceLoop_spec total
  refine ⟨⟨rest⟩, ?_, dropped⟩
  rw [advance, if_pos enough, success]
  rfl

@[simp] theorem len_collect (queue : QueueBuf) :
    queue.collect.len = queue.len := by
  rw [← Buffer.length_bytes, bytes_collect, length_bytes]

end QueueBuf

end OpenDal
