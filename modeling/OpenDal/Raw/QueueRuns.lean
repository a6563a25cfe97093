import OpenDal.Automaton
import OpenDal.Raw.QueueBuf

/-!
# Runs of a `QueueBuf`

Whatever is done to a queue of buffers, it stands for the bytes that were
pushed and have not been advanced over, taken or cleared.
-/

namespace OpenDal

open Automaton

/-- A call of a queue.  `collect` takes a clone of it; a queue that is consumed
is one that is taken. -/
inductive QueueOp where
  | push (buf : Buffer)
  | advance (cnt : Nat)
  | take
  | collect
  | clear
deriving DecidableEq

/-! ## Queues of bytes -/

/-- What the queue is for: the bytes in it, and what was returned of them. -/
structure ByteQueue where
  bytes : Bytes
  replies : List Bytes
deriving DecidableEq

namespace ByteQueue

def empty : ByteQueue := ⟨[], []⟩

/-- There is no advance beyond the end. -/
def step (queue : ByteQueue) : QueueOp → Option ByteQueue
  | .push buf => some { queue with bytes := queue.bytes ++ buf.bytes }
  | .advance cnt =>
      if cnt ≤ queue.bytes.length then
        some { queue with bytes := queue.bytes.drop cnt }
      else
        none
  | .take => some ⟨[], queue.replies ++ [queue.bytes]⟩
  | .collect => some { queue with replies := queue.replies ++ [queue.bytes] }
  | .clear => some { queue with bytes := [] }

end ByteQueue

/-! ## Queues of buffers -/

inductive QueueReply where
  | taken (queue : QueueBuf)
  | collected (buf : Buffer)
deriving DecidableEq

/-- A queue that was taken stands for what is collected from it. -/
def QueueReply.bytes : QueueReply → Bytes
  | .taken queue => queue.collect.bytes
  | .collected buf => buf.bytes

/-- A queue and what it has returned; no step is possible where a call
panics. -/
structure QueueSession where
  queue : QueueBuf
  replies : List QueueReply
deriving DecidableEq

namespace QueueSession

def new : QueueSession := ⟨.new, []⟩

def step (session : QueueSession) : QueueOp → Option QueueSession
  | .push buf => some { session with queue := session.queue.push buf }
  | .advance cnt =>
      (session.queue.advance cnt).map fun queue => { session with queue }
  | .take =>
      let (taken, queue) := session.queue.take
      some ⟨queue, session.replies ++ [.taken taken]⟩
  | .collect =>
      some { session with
        replies := session.replies ++ [.collected session.queue.collect] }
  | .clear => some { session with queue := session.queue.clear }

/-- The bytes of everything. -/
def view (session : QueueSession) : ByteQueue :=
  ⟨session.queue.bytes, session.replies.map QueueReply.bytes⟩

theorem view_step (session : QueueSession) (op : QueueOp) :
    (session.step op).map view = session.view.step op := by
  cases op with
  | push buf => simp [step, view, ByteQueue.step]
  | advance cnt =>
      have length := session.queue.length_bytes
      by_cases enough : cnt ≤ session.queue.len
      · obtain ⟨later, advanced, dropped⟩ := QueueBuf.advance_spec enough
        have within : cnt ≤ session.view.bytes.length := by
          rw [view, length]
          exact enough
        rw [step, advanced, ByteQueue.step, if_pos within]
        simp [view, dropped]
      · have beyond : ¬ cnt ≤ session.view.bytes.length := by
          rw [view, length]
          exact enough
        have refused : session.queue.advance cnt = none := by
          rw [QueueBuf.advance, if_neg enough]
        rw [step, refused, ByteQueue.step, if_neg beyond]
        rfl
  | take =>
      simp [step, view, ByteQueue.step, QueueBuf.take, QueueReply.bytes]
  | collect => simp [step, view, ByteQueue.step, QueueReply.bytes]
  | clear => simp [step, view, ByteQueue.step, QueueBuf.clear]

/-- An advance stays within the queue. -/
def Within (session : QueueSession) : QueueOp → Prop
  | .advance cnt => cnt ≤ session.queue.len
  | _ => True

instance (session : QueueSession) (op : QueueOp) :
    Decidable (session.Within op) :=
  match op with
  | .advance cnt => inferInstanceAs (Decidable (cnt ≤ _))
  | .push _ | .take | .collect | .clear => isTrue trivial

theorem exists_step {session : QueueSession} {op : QueueOp}
    (within : session.Within op) : ∃ next, session.step op = some next := by
  cases op with
  | push buf => exact ⟨_, rfl⟩
  | advance cnt =>
      obtain ⟨later, advanced, -⟩ := QueueBuf.advance_spec within
      exact ⟨{ session with queue := later }, by rw [step, advanced]; rfl⟩
  | take => exact ⟨_, rfl⟩
  | collect => exact ⟨_, rfl⟩
  | clear => exact ⟨_, rfl⟩

/-- No call panics, and after all of them the queue is the queue of bytes: its
length is their number, they are what is collected, and they are what has been
returned. -/
theorem refines_byteQueue {ops : List QueueOp}
    (within : Along step Within new ops) :
    ∃ session, run step new ops = some session ∧
      run ByteQueue.step .empty ops = some session.view ∧
      session.queue.len = session.view.bytes.length ∧
      session.queue.collect.bytes = session.view.bytes := by
  have progress : ∀ {session op}, True → Within session op →
      ∃ next, step session op = some next ∧ True := by
    intro session op _ inside
    obtain ⟨next, stepped⟩ := exists_step inside
    exact ⟨next, stepped, trivial⟩
  obtain ⟨session, ran, -⟩ := run_total_along progress trivial within
  have viewed := run_map view_step new ops
  rw [ran] at viewed
  exact ⟨session, ran, viewed.symm, (session.queue.length_bytes).symm,
    session.queue.bytes_collect⟩

/-- A buffer of two parts behind one of a single part, and an advance into the
second one. -/
def pushesAndAdvances : List QueueOp :=
  [.push (.fromBytes [1, 2]), .push .new, .push (.fromVecBytes [[3, 4], [5, 6]]),
    .advance 5, .collect, .take, .push (.fromBytes [7]), .clear]

theorem refines_byteQueue_pushesAndAdvances :
    ∃ session, run step new pushesAndAdvances = some session ∧
      run ByteQueue.step .empty pushesAndAdvances = some session.view ∧
      session.queue.len = session.view.bytes.length ∧
      session.queue.collect.bytes = session.view.bytes :=
  refines_byteQueue (by decide)

end QueueSession

end OpenDal
