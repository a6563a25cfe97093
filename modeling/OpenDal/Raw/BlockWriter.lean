import OpenDal.Raw.WriteTasks
import OpenDal.Types.BufferSequence

/-!
# `BlockWriter`

Like `MultipartWriter`, with block ids that the writer makes up itself: every
attempt to submit a block draws a new one.  The type `U` of the ids and the id
that is drawn are parameters; `ToString` is what the text of an error needs.
-/

namespace OpenDal

structure BlockInput (U : Type) where
  blockId : U
  bytes : Buffer
deriving DecidableEq

structure BlockWriter (U : Type) where
  started : Bool
  blockIds : List U
  cache : Option Buffer
  tasks : ConcurrentTasks (BlockInput U) U

namespace BlockWriter

variable {U : Type}

abbrev BlockFuture (U : Type) : Type := ExecuteFuture (BlockInput U) U

def timeoutError [ToString U] (input : BlockInput U) : Error :=
  (Error.new .unexpected "write block timeout").withContext
    "block_id" (toString input.blockId) |>.setTemporary

/-- The tasks return the id of the block that they have written. -/
def blockTask (U : Type) [ToString U] : WriteTask (BlockInput U) U where
  output := BlockInput.blockId
  timeoutError := timeoutError
  timesOutTemporarily := fun _ => rfl

def new (capacity : Nat) : BlockWriter U :=
  { started := false
    blockIds := []
    cache := none
    tasks := .new capacity }

/-! ## `write` -/

inductive WriteFuture (U : Type) where
  | unresumed (bs : Buffer)
  | executing (bs : Buffer) (future : BlockFuture U)

abbrev WriteProgress (U : Type) : Type :=
  Progress (WriteFuture U) (Except Error Unit)

def fillCache (writer : BlockWriter U) (bs : Buffer) :
    BlockWriter U × WriteProgress U :=
  match writer.cache with
  | none => ({ writer with cache := some bs }, .returned (.ok ()))
  | some _ => (writer, .panicked "assertion failed: self.cache.is_none()")

/-- `fresh` is the id that `Uuid::new_v4` returns when it is called. -/
def pollWrite (writer : BlockWriter U) (fresh : U) :
    WriteFuture U → Option (BlockWriter U × WriteProgress U)
  | .unresumed bs =>
      if !writer.started && writer.cache.isNone then
        some (writer.fillCache bs)
      else
        let writer := { writer with started := true }
        match writer.cache with
        | none => some (writer, .panicked "pending write must exist")
        | some bytes =>
            some (writer, .suspended
              (.executing bs (.unresumed { blockId := fresh, bytes })))
  | .executing bs future => do
      match ← writer.tasks.pollExecute future with
      | (tasks, .suspended future) =>
          some ({ writer with tasks }, .suspended (.executing bs future))
      | (tasks, .returned (.ok ())) =>
          some ({ writer with tasks, cache := none }.fillCache bs)
      | (tasks, .returned (.error err)) =>
          some ({ writer with tasks }, .returned (.error err))
      | (tasks, .panicked message) =>
          some ({ writer with tasks }, .panicked message)

theorem pollWrite_first {writer : BlockWriter U}
    (unstarted : writer.started = false) (empty : writer.cache = none)
    (fresh : U) (bs : Buffer) :
    writer.pollWrite fresh (.unresumed bs) =
      some ({ writer with cache := some bs }, .returned (.ok ())) := by
  simp [pollWrite, unstarted, empty, fillCache]

theorem pollWrite_submit {writer : BlockWriter U} {bytes : Buffer}
    (cached : writer.cache = some bytes) (fresh : U) (bs : Buffer) :
    writer.pollWrite fresh (.unresumed bs) =
      some ({ writer with started := true }, .suspended
        (.executing bs (.unresumed { blockId := fresh, bytes }))) := by
  simp [pollWrite, cached]

/-! ## `close` -/

inductive CloseFuture (U : Type) where
  | unresumed
  | writingOnce (size : Nat) (body : Buffer)
  | executing (future : BlockFuture U)
  | draining (future : NextFuture)
  | completing

abbrev CloseProgress (U : Type) : Type :=
  Progress (CloseFuture U) (Except Error Unit)

def pollClose (writer : BlockWriter U) (fresh : U) :
    CloseFuture U → Option (BlockWriter U × CloseProgress U)
  | .unresumed =>
      match writer.started, writer.cache with
      | false, some cache =>
          some (writer, .suspended (.writingOnce cache.len cache))
      | false, none => some (writer, .suspended (.writingOnce 0 Buffer.new))
      | true, some cache =>
          some (writer, .suspended
            (.executing (.unresumed { blockId := fresh, bytes := cache })))
      | true, none => some (writer, .suspended (.draining .unresumed))
  | .writingOnce _ _ => none
  | .executing future => do
      match ← writer.tasks.pollExecute future with
      | (tasks, .suspended future) =>
          some ({ writer with tasks }, .suspended (.executing future))
      | (tasks, .returned (.ok ())) =>
          some ({ writer with tasks, cache := none },
            .suspended (.draining .unresumed))
      | (tasks, .returned (.error err)) =>
          some ({ writer with tasks }, .returned (.error err))
      | (tasks, .panicked message) =>
          some ({ writer with tasks }, .panicked message)
  | .draining future => do
      match ← writer.tasks.pollNext future with
      | (tasks, .suspended future) =>
          some ({ writer with tasks }, .suspended (.draining future))
      | (tasks, .returned (some (.ok blockId))) =>
          some ({ writer with tasks, blockIds := writer.blockIds ++ [blockId] },
            .suspended (.draining .unresumed))
      | (tasks, .returned (some (.error err))) =>
          some ({ writer with tasks }, .returned (.error err))
      | (tasks, .returned none) =>
          some ({ writer with tasks }, .suspended .completing)
      | (tasks, .panicked message) =>
          some ({ writer with tasks }, .panicked message)
  | .completing => none

/-- `write_once` has answered. -/
def wroteOnce (writer : BlockWriter U) :
    Except Error Unit → BlockWriter U × CloseProgress U
  | .error err => (writer, .returned (.error err))
  | .ok () => ({ writer with cache := none }, .returned (.ok ()))

/-! ## `abort` -/

/-- `found` is the writer as `abort` has found it, which the source does not
keep. -/
inductive AbortFuture (U : Type) where
  | unresumed
  | aborting (blockIds : List U) (found : BlockWriter U)

abbrev AbortProgress (U : Type) : Type :=
  Progress (AbortFuture U) (Except Error Unit)

def pollAbort (writer : BlockWriter U) :
    AbortFuture U → Option (BlockWriter U × AbortProgress U)
  | .unresumed =>
      if !writer.started then
        some (writer, .returned (.ok ()))
      else
        some ({ writer with tasks := writer.tasks.clear, cache := none },
          .suspended (.aborting writer.blockIds writer))
  | .aborting _ _ => none

end BlockWriter

end OpenDal
