import OpenDal.Raw.TaskOrder
import OpenDal.Types.BufferSequence

/-!
# `MultipartWriter`

The writer caches one buffer.  The second `write` starts a multipart upload;
from then on every `write` submits the cached buffer as the next part and
caches the new one.  `close` submits the last part, collects all parts and
completes the upload, or writes the only buffer at once when no upload has
been started.  `abort` drops everything that waits and aborts the upload.

As in `OpenDal.Raw.ConcurrentTasks`, a future is the place where it is
suspended.  A future that waits for the service is resumed by the answer of
the service.  The handles to the service and to the executor, which the source
clones into every task, carry no state and are left out.
-/

namespace OpenDal

structure MultipartPart where
  partNumber : Nat
  etag : String
  checksum : Option String
deriving DecidableEq

structure WriteInput where
  uploadId : String
  partNumber : Nat
  bytes : Buffer
deriving DecidableEq

/-- How the task for one part can end: with the answer of the service, or with
the timeout of the executor. -/
inductive PartReply where
  | answered (result : Except Error MultipartPart)
  | timedOut

structure MultipartWriter where
  uploadId : Option String
  parts : List MultipartPart
  cache : Option Buffer
  nextPartNumber : Nat
  tasks : ConcurrentTasks WriteInput MultipartPart

namespace MultipartWriter

abbrev PartFuture : Type := ExecuteFuture WriteInput MultipartPart

def timeoutError (input : WriteInput) : Error :=
  ((Error.new .unexpected "write part timeout").withContext
    "upload_id" input.uploadId).withContext
    "part_number" (toString input.partNumber) |>.setTemporary

/-- The factory of the part tasks. -/
def writePart (input : WriteInput) :
    PartReply → Option (WriteInput × Except Error MultipartPart)
  | .answered result => some (input, result)
  | .timedOut => some (input, .error (timeoutError input))

def new (capacity : Nat) : MultipartWriter :=
  { uploadId := none
    parts := []
    cache := none
    nextPartNumber := 0
    tasks := .new capacity }

/-- The input for the part that holds the cached buffer. -/
def nextInput (writer : MultipartWriter) (uploadId : String)
    (bytes : Buffer) : WriteInput :=
  { uploadId
    partNumber := writer.nextPartNumber
    bytes }

/-! ## `write` -/

inductive WriteFuture where
  | unresumed (bs : Buffer)
  | initiating (bs : Buffer)
  | executing (bs : Buffer) (future : PartFuture)

abbrev WriteProgress : Type := Progress WriteFuture (Except Error Unit)

/-- `fill_cache` at the end of `write`. -/
def fillCache (writer : MultipartWriter) (bs : Buffer) :
    MultipartWriter × WriteProgress :=
  match writer.cache with
  | none => ({ writer with cache := some bs }, .returned (.ok ()))
  | some _ => (writer, .panicked "assertion failed: self.cache.is_none()")

/-- `write` once the upload id is known. -/
def submitCache (writer : MultipartWriter) (uploadId : String) (bs : Buffer) :
    MultipartWriter × WriteProgress :=
  match writer.cache with
  | none => (writer, .panicked "pending write must exist")
  | some bytes =>
      (writer, .suspended
        (.executing bs (.unresumed (writer.nextInput uploadId bytes))))

def pollWrite (writer : MultipartWriter) :
    WriteFuture → Option (MultipartWriter × WriteProgress)
  | .unresumed bs =>
      match writer.uploadId with
      | some uploadId => some (writer.submitCache uploadId bs)
      | none =>
          match writer.cache with
          | none => some (writer.fillCache bs)
          | some _ => some (writer, .suspended (.initiating bs))
  | .initiating _ => none
  | .executing bs future => do
      match ← writer.tasks.pollExecute future with
      | (tasks, .suspended future) =>
          some ({ writer with tasks }, .suspended (.executing bs future))
      | (tasks, .returned (.ok ())) =>
          some ({ writer with
            tasks
            cache := none
            nextPartNumber := writer.nextPartNumber + 1 }.fillCache bs)
      | (tasks, .returned (.error err)) =>
          some ({ writer with tasks }, .returned (.error err))
      | (tasks, .panicked message) =>
          some ({ writer with tasks }, .panicked message)

/-- `initiate_part` has answered. -/
def initiated (writer : MultipartWriter) (bs : Buffer) :
    Except Error String → MultipartWriter × WriteProgress
  | .error err => (writer, .returned (.error err))
  | .ok uploadId =>
      { writer with uploadId := some uploadId }.submitCache uploadId bs

/-! ## `close` -/

inductive CloseFuture where
  | unresumed
  | writingOnce (size : Nat) (body : Buffer)
  | executing (uploadId : String) (future : PartFuture)
  | draining (uploadId : String) (future : NextFuture)
  | completing (uploadId : String)

abbrev CloseProgress : Type := Progress CloseFuture (Except Error Unit)

def mismatchError (writer : MultipartWriter) (uploadId : String) : Error :=
  (((Error.new .unexpected
      "multipart part numbers mismatch, please report bug to opendal").withContext
    "expected" (toString writer.nextPartNumber)).withContext
    "actual" (toString writer.parts.length)).withContext
    "upload_id" uploadId

def pollClose (writer : MultipartWriter) :
    CloseFuture → Option (MultipartWriter × CloseProgress)
  | .unresumed =>
      match writer.uploadId, writer.cache with
      | none, none => some (writer, .suspended (.writingOnce 0 Buffer.new))
      | none, some cache =>
          some (writer, .suspended (.writingOnce cache.len cache))
      | some uploadId, some cache =>
          some (writer, .suspended
            (.executing uploadId
              (.unresumed (writer.nextInput uploadId cache))))
      | some uploadId, none =>
          some (writer, .suspended (.draining uploadId .unresumed))
  | .writingOnce _ _ => none
  | .executing uploadId future => do
      match ← writer.tasks.pollExecute future with
      | (tasks, .suspended future) =>
          some ({ writer with tasks }, .suspended (.executing uploadId future))
      | (tasks, .returned (.ok ())) =>
          some ({ writer with
            tasks
            cache := none
            nextPartNumber := writer.nextPartNumber + 1 },
            .suspended (.draining uploadId .unresumed))
      | (tasks, .returned (.error err)) =>
          some ({ writer with tasks }, .returned (.error err))
      | (tasks, .panicked message) =>
          some ({ writer with tasks }, .panicked message)
  | .draining uploadId future => do
      match ← writer.tasks.pollNext future with
      | (tasks, .suspended future) =>
          some ({ writer with tasks }, .suspended (.draining uploadId future))
      | (tasks, .returned (some (.ok part))) =>
          some ({ writer with tasks, parts := writer.parts ++ [part] },
            .suspended (.draining uploadId .unresumed))
      | (tasks, .returned (some (.error err))) =>
          some ({ writer with tasks }, .returned (.error err))
      | (tasks, .returned none) =>
          if writer.parts.length ≠ writer.nextPartNumber then
            some ({ writer with tasks },
              .returned (.error (writer.mismatchError uploadId)))
          else
            some ({ writer with tasks }, .suspended (.completing uploadId))
      | (tasks, .panicked message) =>
          some ({ writer with tasks }, .panicked message)
  | .completing _ => none

/-- `write_once` has answered. -/
def wroteOnce (writer : MultipartWriter) :
    Except Error Unit → MultipartWriter × CloseProgress
  | .error err => (writer, .returned (.error err))
  | .ok () => ({ writer with cache := none }, .returned (.ok ()))

/-! ## `abort` -/

/-- `found` is the writer as `abort` has found it.  The source does not keep
it; it is here to say what a failed `abort` has dropped. -/
inductive AbortFuture where
  | unresumed
  | aborting (uploadId : String) (found : MultipartWriter)

abbrev AbortProgress : Type := Progress AbortFuture (Except Error Unit)

def pollAbort (writer : MultipartWriter) :
    AbortFuture → Option (MultipartWriter × AbortProgress)
  | .unresumed =>
      match writer.uploadId with
      | none => some (writer, .returned (.ok ()))
      | some uploadId =>
          some ({ writer with tasks := writer.tasks.clear, cache := none },
            .suspended (.aborting uploadId writer))
  | .aborting _ _ => none

end MultipartWriter

end OpenDal
