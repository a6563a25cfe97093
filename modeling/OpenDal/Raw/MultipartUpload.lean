import OpenDal.Raw.MultipartWriter

/-!
# What a multipart writer commits

A driver writes a list of buffers and closes the writer.  Every call that
fails, or whose future is dropped while it waits for a background task, is
issued again until it succeeds.  The environment decides when background
tasks end and how the service answers; the log records every call of the
service that succeeded.

The invariant `Consistent` ties the three pieces of state together: the cached
buffer, the part counter, and the task queue with the parts already collected.
-/

namespace OpenDal.MultipartUpload

open MultipartWriter

/-- A call of the service that succeeded. -/
inductive ServiceCall where
  | wroteOnce (size : Nat) (body : Buffer)
  | initiated (uploadId : String)
  | wrotePart (uploadId : String) (partNumber size : Nat) (body : Buffer)
      (part : MultipartPart)
  | completed (uploadId : String) (parts : List MultipartPart)
deriving DecidableEq

def ServiceCall.isCommit : ServiceCall → Bool
  | .wroteOnce _ _ => true
  | .completed _ _ => true
  | _ => false

def commits (log : List ServiceCall) : List ServiceCall :=
  log.filter ServiceCall.isCommit

/-- The part of `input` has been written with the result `part`. -/
def ServiceCall.ofPart (input : WriteInput) (part : MultipartPart) :
    ServiceCall :=
  .wrotePart input.uploadId input.partNumber input.bytes.len input.bytes part

inductive Call where
  | write (future : WriteFuture)
  | close (future : CloseFuture)

structure Upload where
  writer : MultipartWriter
  /-- The writes that have not been accepted yet. -/
  todo : List Buffer
  call : Option Call
  /-- `close` has returned `Ok`. -/
  closed : Bool
  log : List ServiceCall
  panicked : Bool

inductive Event where
  /-- Issue the next call, or the failed or dropped one again. -/
  | call
  | poll
  | drop
  | initiated (answer : Except Error String)
  | wroteOnce (answer : Except Error Unit)
  | completed (answer : Except Error Unit)
  | finish (position : Nat) (reply : PartReply)
  | finishAwaited (reply : PartReply)

def new (capacity : Nat) (inputs : List Buffer) : Upload :=
  { writer := .new capacity
    todo := inputs
    call := none
    closed := false
    log := []
    panicked := false }

def afterWrite (upload : Upload) :
    MultipartWriter × WriteProgress → Upload
  | (writer, .suspended future) =>
      { upload with writer, call := some (.write future) }
  | (writer, .returned (.ok ())) =>
      { upload with writer, call := none, todo := upload.todo.tail }
  | (writer, .returned (.error _)) => { upload with writer, call := none }
  | (writer, .panicked _) =>
      { upload with writer, call := none, panicked := true }

def afterClose (upload : Upload) :
    MultipartWriter × CloseProgress → Upload
  | (writer, .suspended future) =>
      { upload with writer, call := some (.close future) }
  | (writer, .returned (.ok ())) =>
      { upload with writer, call := none, closed := true }
  | (writer, .returned (.error _)) => { upload with writer, call := none }
  | (writer, .panicked _) =>
      { upload with writer, call := none, panicked := true }

/-- A future may be dropped unless it waits for an answer that commits. -/
def Call.droppable : Call → Bool
  | .close (.writingOnce _ _) => false
  | .close (.completing _) => false
  | _ => true

/-- The log after a part task that was started with `input` has ended. -/
def logPart (log : List ServiceCall) (input : WriteInput) :
    PartReply → List ServiceCall
  | .answered (.ok part) => log ++ [.ofPart input part]
  | _ => log

/-- The input of the part task that `execute` awaits directly. -/
def awaitedInput : Call → Option WriteInput
  | .write (.executing _ (.awaitingTask (.running input))) => some input
  | .close (.executing _ (.awaitingTask (.running input))) => some input
  | _ => none

/-- The call after the part task that it awaits directly has ended. -/
def Call.finish (reply : PartReply) : Call → Option Call
  | .write (.executing bs future) =>
      (future.finish writePart reply).map fun future =>
        .write (.executing bs future)
  | .close (.executing uploadId future) =>
      (future.finish writePart reply).map fun future =>
        .close (.executing uploadId future)
  | _ => none

def step (upload : Upload) : Event → Option Upload
  | .call =>
      if upload.closed || upload.call.isSome then
        none
      else
        match upload.todo with
        | bs :: _ =>
            some { upload with call := some (.write (.unresumed bs)) }
        | [] => some { upload with call := some (.close .unresumed) }
  | .poll =>
      match upload.call with
      | none => none
      | some (.write future) =>
          (upload.writer.pollWrite future).map (afterWrite upload)
      | some (.close future) =>
          (upload.writer.pollClose future).map (afterClose upload)
  | .drop =>
      match upload.call with
      | none => none
      | some call =>
          if call.droppable then some { upload with call := none } else none
  | .initiated answer =>
      match upload.call, answer with
      | some (.write (.initiating bs)), .ok uploadId =>
          some (afterWrite
            { upload with log := upload.log ++ [.initiated uploadId] }
            (upload.writer.initiated bs (.ok uploadId)))
      | some (.write (.initiating bs)), .error err =>
          some (afterWrite upload (upload.writer.initiated bs (.error err)))
      | _, _ => none
  | .wroteOnce answer =>
      match upload.call, answer with
      | some (.close (.writingOnce size body)), .ok () =>
          some (afterClose
            { upload with log := upload.log ++ [.wroteOnce size body] }
            (upload.writer.wroteOnce (.ok ())))
      | some (.close (.writingOnce _ _)), .error err =>
          some (afterClose upload (upload.writer.wroteOnce (.error err)))
      | _, _ => none
  | .completed answer =>
      match upload.call, answer with
      | some (.close (.completing uploadId)), .ok () =>
          some (afterClose
            { upload with
              log := upload.log ++ [.completed uploadId upload.writer.parts] }
            (upload.writer, .returned (.ok ())))
      | some (.close (.completing _)), .error err =>
          some (afterClose upload (upload.writer, .returned (.error err)))
      | _, _ => none
  | .finish position reply => do
      let tasks ← upload.writer.tasks.finish writePart position reply
      match upload.writer.tasks.tasks[position]? with
      | some (.running input) =>
          some { upload with
            writer := { upload.writer with tasks }
            log := logPart upload.log input reply }
      | _ => none
  | .finishAwaited reply => do
      let call ← upload.call
      let input ← awaitedInput call
      let call ← call.finish reply
      some { upload with
        call := some call
        log := logPart upload.log input reply }

/-- The service fails part writes only temporarily. -/
def Event.partsTemporary : Event → Prop
  | .finish _ (.answered (.error err)) => err.isTemporary = true
  | .finishAwaited (.answered (.error err)) => err.isTemporary = true
  | _ => True

/-! ## Parts and their orders -/

/-- An order is the input of the part task itself; it is completed by a part
that the log shows. -/
def contract (log : List ServiceCall) :
    Contract WriteInput WriteInput MultipartPart where
  serves := fun order input => input = order
  delivers := fun order part => .ofPart order part ∈ log
  fails := fun order input err => input = order ∧ err.isTemporary = true

/-- The part tasks for the buffers that have been submitted. -/
def orders (uploadId : String) (sent : List Buffer) : List WriteInput :=
  sent.mapIdx fun partNumber bytes => { uploadId, partNumber, bytes }

theorem orders_concat (uploadId : String) (sent : List Buffer)
    (bytes : Buffer) :
    orders uploadId (sent ++ [bytes]) =
      orders uploadId sent ++
        [{ uploadId, partNumber := sent.length, bytes }] := by
  simp [orders, List.mapIdx_concat]

theorem contract_weaker {log extra : List ServiceCall} :
    (contract log).Weaker (contract (log ++ extra)) where
  serves := fun _ _ same => same
  delivers := fun _ _ member => List.mem_append_left extra member
  fails := fun _ _ _ same => same

theorem logPart_eq_append (log : List ServiceCall) (input : WriteInput)
    (reply : PartReply) :
    ∃ extra, logPart log input reply = log ++ extra ∧ commits extra = [] := by
  cases reply with
  | timedOut => exact ⟨[], by simp [logPart], rfl⟩
  | answered result =>
      cases result with
      | error err => exact ⟨[], by simp [logPart], rfl⟩
      | ok part => exact ⟨[.ofPart input part], rfl, rfl⟩

/-- The end of a part task completes its order or fails temporarily. -/
theorem contract_respects {log : List ServiceCall}
    {order input handedBack : WriteInput} {reply : PartReply}
    {result : Except Error MultipartPart}
    (temporary : ∀ err, reply = .answered (.error err) →
      err.isTemporary = true)
    (serves : input = order)
    (produced : writePart input reply = some (handedBack, result)) :
    Task.Fulfils (contract (logPart log input reply)) order
      (.ready handedBack result) := by
  subst serves
  cases reply with
  | timedOut =>
      cases produced
      exact ⟨rfl, rfl⟩
  | answered answer =>
      cases produced
      cases result with
      | ok part => exact List.mem_append_right _ (List.mem_singleton.mpr rfl)
      | error err => exact ⟨rfl, temporary err rfl⟩

/-! ## The invariant -/

/-- An upload with the buffers `sent` submitted, of which the orders `open_`
are still in the task queue. -/
structure Uploading (log : List ServiceCall) (writer : MultipartWriter)
    (uploadId : String) (sent : List Buffer) (open_ : List WriteInput) :
    Prop where
  known : writer.uploadId = some uploadId
  started : .initiated uploadId ∈ log
  counted : writer.nextPartNumber = sent.length
  collected : ∃ done, orders uploadId sent = done ++ open_ ∧
    List.Forall₂ (contract log).delivers done writer.parts

/-- Where every accepted buffer is. -/
inductive Phase (log : List ServiceCall) (inputs todo : List Buffer)
    (open_ : List WriteInput) (writer : MultipartWriter) : Prop where
  | buffering (unknown : writer.uploadId = none)
      (uncounted : writer.nextPartNumber = 0) (noParts : writer.parts = [])
      (noOrders : open_ = [])
      (cached : inputs = writer.cache.toList ++ todo)
  | uploading {uploadId : String} {sent : List Buffer} {cache : Buffer}
      (upload : Uploading log writer uploadId sent open_)
      (cached : writer.cache = some cache)
      (split : inputs = sent ++ cache :: todo)
      (several : 2 ≤ inputs.length)
  | finishing {uploadId : String}
      (upload : Uploading log writer uploadId inputs open_)
      (uncached : writer.cache = none) (finished : todo = [])
      (several : 2 ≤ inputs.length)

/-- The call in flight is at a place where it can be. -/
def CallFits (log : List ServiceCall) (capacity : Nat)
    (inputs todo : List Buffer) (writer : MultipartWriter) : Call → Prop
  | .write (.unresumed bs) => ∃ rest, todo = bs :: rest
  | .write (.initiating bs) =>
      (∃ rest, todo = bs :: rest) ∧ writer.uploadId = none ∧
        writer.cache ≠ none
  | .write (.executing bs future) =>
      (∃ rest, todo = bs :: rest) ∧
        ∃ uploadId cache, writer.uploadId = some uploadId ∧
          writer.cache = some cache ∧
          future.Places (contract log) capacity
            (writer.nextInput uploadId cache)
  | .close .unresumed => todo = []
  | .close (.writingOnce size body) =>
      todo = [] ∧ writer.uploadId = none ∧
        body = writer.cache.getD Buffer.new ∧ size = body.len
  | .close (.executing uploadId future) =>
      todo = [] ∧ writer.uploadId = some uploadId ∧
        ∃ cache, writer.cache = some cache ∧
          future.Places (contract log) capacity
            (writer.nextInput uploadId cache)
  | .close (.draining uploadId future) =>
      todo = [] ∧ writer.uploadId = some uploadId ∧ writer.cache = none ∧
        future.Waits writer.tasks
  | .close (.completing uploadId) =>
      writer.uploadId = some uploadId ∧ .initiated uploadId ∈ log ∧
        2 ≤ inputs.length ∧
        List.Forall₂ (contract log).delivers (orders uploadId inputs)
          writer.parts

/-- The one commit that the inputs call for. -/
def Committed (inputs : List Buffer) (log : List ServiceCall) : Prop :=
  inputs.length ≤ 1 ∧
      commits log =
        [.wroteOnce (inputs.headD Buffer.new).len (inputs.headD Buffer.new)] ∨
    2 ≤ inputs.length ∧ ∃ uploadId parts,
      commits log = [.completed uploadId parts] ∧
      .initiated uploadId ∈ log ∧
      List.Forall₂ (contract log).delivers (orders uploadId inputs) parts

/-- The state before `close` has succeeded. -/
structure Pending (capacity : Nat) (inputs : List Buffer) (upload : Upload) :
    Prop where
  uncommitted : commits upload.log = []
  phase : ∃ open_,
    upload.writer.tasks.Aligned (contract upload.log) capacity open_ ∧
    Phase upload.log inputs upload.todo open_ upload.writer
  call : ∀ call, upload.call = some call →
    CallFits upload.log capacity inputs upload.todo upload.writer call

structure Consistent (capacity : Nat) (inputs : List Buffer)
    (upload : Upload) : Prop where
  sound : upload.panicked = false
  pending : upload.closed = false → Pending capacity inputs upload
  committed : upload.closed = true →
    upload.call = none ∧ Committed inputs upload.log

theorem consistent_new (capacity : Nat) (inputs : List Buffer) :
    Consistent capacity inputs (new capacity inputs) where
  sound := rfl
  pending := fun _ =>
    { uncommitted := rfl
      phase := ⟨[], ConcurrentTasks.aligned_new _ capacity,
        .buffering rfl rfl rfl rfl rfl⟩
      call := by simp [new] }
  committed := by simp [new]

/-! ## A growing log -/

variable {log extra : List ServiceCall} {capacity : Nat}
  {inputs todo : List Buffer} {open_ : List WriteInput}
  {writer : MultipartWriter} {upload later : Upload}

theorem Uploading.growLog {uploadId : String} {sent : List Buffer}
    (uploading : Uploading log writer uploadId sent open_) :
    Uploading (log ++ extra) writer uploadId sent open_ := by
  obtain ⟨done, split, parts⟩ := uploading.collected
  exact
    { uploading with
      started := List.mem_append_left extra uploading.started
      collected := ⟨done, split, parts.imp contract_weaker.delivers⟩ }

theorem Phase.growLog (phase : Phase log inputs todo open_ writer) :
    Phase (log ++ extra) inputs todo open_ writer := by
  cases phase with
  | buffering unknown uncounted noParts noOrders cached =>
      exact .buffering unknown uncounted noParts noOrders cached
  | uploading upload cached split several =>
      exact .uploading upload.growLog cached split several
  | finishing upload uncached finished several =>
      exact .finishing upload.growLog uncached finished several

theorem CallFits.growLog {call : Call}
    (fits : CallFits log capacity inputs todo writer call) :
    CallFits (log ++ extra) capacity inputs todo writer call := by
  cases call with
  | write future =>
      cases future with
      | unresumed bs => exact fits
      | initiating bs => exact fits
      | executing bs future =>
          obtain ⟨next, uploadId, cache, known, cached, places⟩ := fits
          exact ⟨next, uploadId, cache, known, cached,
            places.mono contract_weaker⟩
  | close future =>
      cases future with
      | unresumed => exact fits
      | writingOnce size body => exact fits
      | executing uploadId future =>
          obtain ⟨finished, known, cache, cached, places⟩ := fits
          exact ⟨finished, known, cache, cached, places.mono contract_weaker⟩
      | draining uploadId future => exact fits
      | completing uploadId =>
          obtain ⟨known, started, several, parts⟩ := fits
          exact ⟨known, List.mem_append_left extra started, several,
            parts.imp contract_weaker.delivers⟩

theorem Committed.growLog (committed : Committed inputs log)
    (none : commits extra = []) : Committed inputs (log ++ extra) := by
  have same : commits (log ++ extra) = commits log := by
    rw [commits, List.filter_append]
    exact (congrArg (commits log ++ ·) none).trans (List.append_nil _)
  rcases committed with ⟨few, once⟩ |
    ⟨several, uploadId, parts, completed, started, delivered⟩
  · exact .inl ⟨few, same.trans once⟩
  · exact .inr ⟨several, uploadId, parts, same.trans completed,
      List.mem_append_left extra started,
      delivered.imp contract_weaker.delivers⟩

end OpenDal.MultipartUpload
