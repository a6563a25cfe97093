import OpenDal.Raw.WriteTasks
import OpenDal.Types.BufferSequence

/-!
# `PositionWriter`

The writer caches one buffer, too.  Every further `write` submits the cached
buffer for the offset behind all that was submitted before; `close` drains the
queue, writes the last buffer by itself and closes the file.
-/

namespace OpenDal

structure PositionInput where
  offset : Nat
  bytes : Buffer
deriving DecidableEq

structure PositionWriter where
  nextOffset : Nat
  cache : Option Buffer
  tasks : ConcurrentTasks PositionInput Unit

namespace PositionWriter

abbrev PositionFuture : Type := ExecuteFuture PositionInput Unit

def timeoutError (input : PositionInput) : Error :=
  (Error.new .unexpected "write position timeout").withContext
    "offset" (toString input.offset) |>.setTemporary

def positionTask : WriteTask PositionInput Unit where
  output := fun _ => ()
  timeoutError := timeoutError
  timesOutTemporarily := fun _ => rfl

def new (capacity : Nat) : PositionWriter :=
  { nextOffset := 0
    cache := none
    tasks := .new capacity }

/-! ## `write` -/

/-- `length` is the length of the cached buffer when `write` was called. -/
inductive WriteFuture where
  | unresumed (bs : Buffer)
  | executing (bs : Buffer) (length : Nat) (future : PositionFuture)

abbrev WriteProgress : Type := Progress WriteFuture (Except Error Unit)

def fillCache (writer : PositionWriter) (bs : Buffer) :
    PositionWriter × WriteProgress :=
  match writer.cache with
  | none => ({ writer with cache := some bs }, .returned (.ok ()))
  | some _ => (writer, .panicked "assertion failed: self.cache.is_none()")

def pollWrite (writer : PositionWriter) :
    WriteFuture → Option (PositionWriter × WriteProgress)
  | .unresumed bs =>
      match writer.cache with
      | none => some (writer.fillCache bs)
      | some bytes =>
          some (writer, .suspended (.executing bs bytes.len
            (.unresumed { offset := writer.nextOffset, bytes })))
  | .executing bs length future => do
      match ← writer.tasks.pollExecute future with
      | (tasks, .suspended future) =>
          some ({ writer with tasks },
            .suspended (.executing bs length future))
      | (tasks, .returned (.ok ())) =>
          some ({ writer with
            tasks
            cache := none
            nextOffset := writer.nextOffset + length }.fillCache bs)
      | (tasks, .returned (.error err)) =>
          some ({ writer with tasks }, .returned (.error err))
      | (tasks, .panicked message) =>
          some ({ writer with tasks }, .panicked message)

/-! ## `close` -/

/-- `close` starts with `draining .unresumed`. -/
inductive CloseFuture where
  | draining (future : NextFuture)
  | writingLast (offset : Nat) (buffer : Buffer)
  | closing

abbrev CloseProgress : Type := Progress CloseFuture (Except Error Unit)

def pollClose (writer : PositionWriter) :
    CloseFuture → Option (PositionWriter × CloseProgress)
  | .draining future => do
      match ← writer.tasks.pollNext future with
      | (tasks, .suspended future) =>
          some ({ writer with tasks }, .suspended (.draining future))
      | (tasks, .returned (some (.ok ()))) =>
          some ({ writer with tasks }, .suspended (.draining .unresumed))
      | (tasks, .returned (some (.error err))) =>
          some ({ writer with tasks }, .returned (.error err))
      | (tasks, .returned none) =>
          match writer.cache with
          | some buffer =>
              some ({ writer with tasks },
                .suspended (.writingLast writer.nextOffset buffer))
          | none => some ({ writer with tasks }, .suspended .closing)
      | (tasks, .panicked message) =>
          some ({ writer with tasks }, .panicked message)
  | .writingLast _ _ => none
  | .closing => none

/-- `write_all_at` of the last buffer has answered. -/
def wroteLast (writer : PositionWriter) :
    Except Error Unit → PositionWriter × CloseProgress
  | .error err => (writer, .returned (.error err))
  | .ok () => ({ writer with cache := none }, .suspended .closing)

/-! ## `abort` -/

/-- `found` is the writer as `abort` has found it, which the source does not
keep. -/
inductive AbortFuture where
  | unresumed
  | aborting (found : PositionWriter)

abbrev AbortProgress : Type := Progress AbortFuture (Except Error Unit)

def pollAbort (writer : PositionWriter) :
    AbortFuture → Option (PositionWriter × AbortProgress)
  | .unresumed =>
      some ({ writer with tasks := writer.tasks.clear, cache := none },
        .suspended (.aborting writer))
  | .aborting _ => none

end PositionWriter

end OpenDal
