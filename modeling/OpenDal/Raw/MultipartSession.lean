import OpenDal.Layers.CompleteWriter
import OpenDal.Raw.MultipartUpload

/-!
# Sessions of a multipart writer

Any sequence of calls, any failures of the service.  A task that fails for
good takes the queue down, and then nothing can be committed any more.
Otherwise every accepted write is in a collected part, in the queue or in the
cache.

Only `abort` drops something, and it matters only if `abort_part` fails, since
the writer can be used again then.  Parts that were dropped from the queue are
missed by the count in `close`.  The cached buffer is not counted yet, so it is
missed by nobody.
-/

namespace OpenDal.MultipartSession

open MultipartWriter
open MultipartUpload (orders orders_concat)

/-- A call of the service and its answer. -/
inductive ServiceCall where
  | initiatePart (answer : Except Error String)
  | writePart (input : WriteInput) (reply : PartReply)
  | writeOnce (size : Nat) (body : Buffer) (answer : Except Error Unit)
  | completePart (uploadId : String) (parts : List MultipartPart)
      (answer : Except Error Unit)
  | abortPart (uploadId : String) (answer : Except Error Unit)

inductive Event where
  | poll
  | initiated (answer : Except Error String)
  | wroteOnce (answer : Except Error Unit)
  | completed (answer : Except Error Unit)
  | aborted (answer : Except Error Unit)
  | finish (position : Nat) (reply : PartReply)
  | finishAwaited (reply : PartReply)

def resumeWrite (writer : MultipartWriter) :
    WriteFuture → Event →
      Option (MultipartWriter × WriteProgress × Option ServiceCall)
  | future, .poll => (writer.pollWrite future).map
      fun (writer, progress) => (writer, progress, none)
  | .initiating bs, .initiated answer =>
      some ((writer.initiated bs answer).1, (writer.initiated bs answer).2,
        some (.initiatePart answer))
  | .executing bs (.awaitingTask (.running input)), .finishAwaited reply => do
      let future ← ExecuteFuture.finish writePart reply
        (.awaitingTask (.running input))
      some (writer, .suspended (.executing bs future),
        some (.writePart input reply))
  | _, _ => none

def resumeClose (writer : MultipartWriter) :
    CloseFuture → Event →
      Option (MultipartWriter × CloseProgress × Option ServiceCall)
  | future, .poll => (writer.pollClose future).map
      fun (writer, progress) => (writer, progress, none)
  | .writingOnce size body, .wroteOnce answer =>
      some ((writer.wroteOnce answer).1, (writer.wroteOnce answer).2,
        some (.writeOnce size body answer))
  | .executing uploadId (.awaitingTask (.running input)),
      .finishAwaited reply => do
      let future ← ExecuteFuture.finish writePart reply
        (.awaitingTask (.running input))
      some (writer, .suspended (.executing uploadId future),
        some (.writePart input reply))
  | .completing uploadId, .completed answer =>
      some (writer, .returned answer,
        some (.completePart uploadId writer.parts answer))
  | _, _ => none

def resumeAbort (writer : MultipartWriter) :
    AbortFuture → Event →
      Option (MultipartWriter × AbortProgress × Option ServiceCall)
  | future, .poll => (writer.pollAbort future).map
      fun (writer, progress) => (writer, progress, none)
  | .aborting uploadId _, .aborted answer =>
      some (writer, .returned answer, some (.abortPart uploadId answer))
  | _, _ => none

/-- A part task in the queue comes to its end. -/
def background (writer : MultipartWriter) :
    Event → Option (MultipartWriter × Option ServiceCall)
  | .finish position reply => do
      let tasks ← writer.tasks.finish writePart position reply
      match writer.tasks.tasks[position]? with
      | some (.running input) =>
          some ({ writer with tasks }, some (.writePart input reply))
      | _ => none
  | _ => none

def model : OioWrite MultipartWriter WriteFuture CloseFuture AbortFuture Event
    ServiceCall where
  write := .unresumed
  close := .unresumed
  abort := .unresumed
  resumeWrite := resumeWrite
  resumeClose := resumeClose
  resumeAbort := resumeAbort
  background := background

abbrev Session : Type :=
  WriterSession MultipartWriter WriteFuture CloseFuture AbortFuture ServiceCall

/-! ## What a commit covers -/

/-- The part of `input` has been written with the result `part`. -/
def Written (log : List ServiceCall) (input : WriteInput)
    (part : MultipartPart) : Prop :=
  .writePart input (.answered (.ok part)) ∈ log

def isCommit : ServiceCall → Bool
  | .writeOnce _ _ (.ok ()) => true
  | .completePart _ _ (.ok ()) => true
  | _ => false

/-- The only write is the object, or each write is one of the parts, in
order. -/
def Covers (accepted : List Buffer) (log : List ServiceCall) :
    ServiceCall → Prop
  | .writeOnce size body _ => size = body.len ∧
      (accepted = [] ∧ body = Buffer.new ∨ accepted = [body])
  | .completePart uploadId parts _ => .initiatePart (.ok uploadId) ∈ log ∧
      List.Forall₂ (Written log) (orders uploadId accepted) parts
  | _ => True

def spec : CommitSpec ServiceCall where
  isCommit := isCommit
  covers := Covers

/-- Clearing this writer drops a buffer without a trace: nothing waits in the
queue, so that the parts are as many as have been counted. -/
def Loses (writer : MultipartWriter) : Prop :=
  writer.tasks.errored = false ∧ writer.cache ≠ none ∧
    writer.tasks.tasks = [] ∧ writer.tasks.results = []

/-- `abort_part` does not fail when something is dropped without a trace. -/
def KeepsCache : CallFuture WriteFuture CloseFuture AbortFuture → Event → Prop
  | .abort (.aborting _ found), .aborted (.error _) => ¬ Loses found
  | _, _ => True

def condition : SessionCondition MultipartWriter WriteFuture CloseFuture
    AbortFuture Event where
  call := fun _ _ _ => True
  resume := KeepsCache

/-- A call of `abort_part` that has failed. -/
def isFailedAbort : SessionEvent Event → Bool
  | .resume (.aborted (.error _)) => true
  | _ => false

theorem meets_of_not_failedAbort {event : SessionEvent Event}
    (kept : isFailedAbort event = false) (session : Session) :
    condition.Meets session event := by
  match event, kept with
  | .call _, _ => exact fun _ _ => trivial
  | .background _, _ => trivial
  | .resume event, kept =>
      intro future _
      simp only [condition, KeepsCache]
      split
      · cases kept
      · trivial

/-! ## The invariant -/

/-- An order is the input of a part task; a task may fail with any error. -/
def contract (log : List ServiceCall) :
    Contract WriteInput WriteInput MultipartPart where
  serves := fun order input => input = order
  delivers := Written log
  fails := fun order input _ => input = order

theorem contract_weaker {log extra : List ServiceCall} :
    (contract log).Weaker (contract (log ++ extra)) where
  serves := fun _ _ same => same
  delivers := fun _ _ member => List.mem_append_left extra member
  fails := fun _ _ _ same => same

theorem contract_respects {log : List ServiceCall}
    {order input handedBack : WriteInput} {reply : PartReply}
    {result : Except Error MultipartPart} (serves : input = order)
    (produced : writePart input reply = some (handedBack, result)) :
    Task.Fulfils (contract (log ++ [.writePart input reply])) order
      (.ready handedBack result) := by
  subst serves
  cases reply with
  | timedOut =>
      cases produced
      rfl
  | answered answer =>
      cases produced
      cases result with
      | ok part => exact List.mem_append_right _ (List.mem_singleton.mpr rfl)
      | error err => rfl

/-- An upload with the buffers `sent` submitted, of which the orders `open_`
are still in the queue. -/
structure Uploading (capacity : Nat) (log : List ServiceCall)
    (writer : MultipartWriter) (uploadId : String) (sent : List Buffer)
    (open_ : List WriteInput) : Prop where
  started : .initiatePart (.ok uploadId) ∈ log
  counted : writer.nextPartNumber = sent.length
  collected : ∃ done, orders uploadId sent = done ++ open_ ∧
    List.Forall₂ (Written log) done writer.parts
  aligned : writer.tasks.Aligned (contract log) capacity open_

/-- A failed `abort` has dropped some parts. -/
structure Short (writer : MultipartWriter) : Prop where
  uncached : writer.cache = none
  noTasks : writer.tasks.tasks = []
  noResults : writer.tasks.results = []
  missing : writer.parts.length < writer.nextPartNumber

/-- The state between two calls. -/
inductive Idle (capacity : Nat) (accepted : List Buffer)
    (log : List ServiceCall) (writer : MultipartWriter) : Prop where
  | buffering (unknown : writer.uploadId = none)
      (uncounted : writer.nextPartNumber = 0) (noParts : writer.parts = [])
      (aligned : writer.tasks.Aligned (contract log) capacity [])
      (cached : accepted = writer.cache.toList)
  | uploading {uploadId : String} {sent : List Buffer}
      {open_ : List WriteInput} (known : writer.uploadId = some uploadId)
      (upload : Uploading capacity log writer uploadId sent open_)
      (cached : accepted = sent ++ writer.cache.toList)
  | short {uploadId : String} (known : writer.uploadId = some uploadId)
      (short : Short writer)
  | down {uploadId : String} (known : writer.uploadId = some uploadId)
      (errored : writer.tasks.errored = true)

/-- An `execute` that submits the cached buffer. -/
inductive Submitting (capacity : Nat) (accepted : List Buffer)
    (log : List ServiceCall) (writer : MultipartWriter) (uploadId : String)
    (future : PartFuture) : Prop where
  | placing {sent : List Buffer} {open_ : List WriteInput} {cache : Buffer}
      (upload : Uploading capacity log writer uploadId sent open_)
      (cached : writer.cache = some cache) (split : accepted = sent ++ [cache])
      (places : future.Places (contract log) capacity
        (writer.nextInput uploadId cache))
  | down {input : WriteInput} (errored : writer.tasks.errored = true)
      (fresh : future = .unresumed input)

def Writing (capacity : Nat) (accepted : List Buffer)
    (log : List ServiceCall) (writer : MultipartWriter) (bs : Buffer) :
    WriteFuture → Prop
  | .unresumed new => new = bs ∧ Idle capacity accepted log writer
  | .initiating new => new = bs ∧ writer.uploadId = none ∧
      writer.cache ≠ none ∧ Idle capacity accepted log writer
  | .executing new future => new = bs ∧ ∃ uploadId,
      writer.uploadId = some uploadId ∧
        Submitting capacity accepted log writer uploadId future

/-- The loop of `close`. -/
inductive Draining (capacity : Nat) (accepted : List Buffer)
    (log : List ServiceCall) (writer : MultipartWriter) (uploadId : String)
    (future : NextFuture) : Prop where
  | collecting {open_ : List WriteInput}
      (upload : Uploading capacity log writer uploadId accepted open_)
      (waits : future.Waits writer.tasks)
  | short (short : Short writer) (fresh : future = .unresumed)
  | down (errored : writer.tasks.errored = true) (fresh : future = .unresumed)

def Closing (capacity : Nat) (accepted : List Buffer)
    (log : List ServiceCall) (writer : MultipartWriter) : CloseFuture → Prop
  | .unresumed => Idle capacity accepted log writer
  | .writingOnce size body => Idle capacity accepted log writer ∧
      size = body.len ∧
      (accepted = [] ∧ body = Buffer.new ∨ accepted = [body])
  | .executing uploadId future => writer.uploadId = some uploadId ∧
      Submitting capacity accepted log writer uploadId future
  | .draining uploadId future => writer.uploadId = some uploadId ∧
      writer.cache = none ∧
      Draining capacity accepted log writer uploadId future
  | .completing uploadId => writer.uploadId = some uploadId ∧
      writer.cache = none ∧
      Uploading capacity log writer uploadId accepted []

def Aborting (capacity : Nat) (accepted : List Buffer)
    (log : List ServiceCall) (writer : MultipartWriter) : AbortFuture → Prop
  | .unresumed => Idle capacity accepted log writer
  | .aborting _ found =>
      ¬ Loses found → Idle capacity accepted log writer

def stages (capacity : Nat) :
    Stages MultipartWriter WriteFuture CloseFuture AbortFuture
      ServiceCall where
  idle := Idle capacity
  writing := Writing capacity
  closing := Closing capacity
  aborting := Aborting capacity

variable {capacity : Nat} {accepted : List Buffer}
  {log extra : List ServiceCall} {writer later : MultipartWriter}
  {uploadId : String} {sent : List Buffer} {open_ : List WriteInput}
  {tasks : ConcurrentTasks WriteInput MultipartPart}

/-! ## A growing log -/

theorem Uploading.growLog
    (upload : Uploading capacity log writer uploadId sent open_) :
    Uploading capacity (log ++ extra) writer uploadId sent open_ := by
  obtain ⟨done, split, parts⟩ := upload.collected
  exact
    { started := List.mem_append_left extra upload.started
      counted := upload.counted
      collected := ⟨done, split, parts.imp contract_weaker.delivers⟩
      aligned := upload.aligned.mono contract_weaker }

theorem Idle.growLog (idle : Idle capacity accepted log writer) :
    Idle capacity accepted (log ++ extra) writer := by
  cases idle with
  | buffering unknown uncounted noParts aligned cached =>
      exact .buffering unknown uncounted noParts
        (aligned.mono contract_weaker) cached
  | uploading known upload cached =>
      exact .uploading known upload.growLog cached
  | short known short => exact .short known short
  | down known errored => exact .down known errored

/-! ## The end of a part task -/

section Background

variable {position : Nat} {reply : PartReply} {input : WriteInput}

theorem aligned_finish
    (aligned : writer.tasks.Aligned (contract log) capacity open_)
    (finished : writer.tasks.finish writePart position reply = some tasks)
    (running : writer.tasks.tasks[position]? = some (.running input)) :
    tasks.Aligned (contract (log ++ [.writePart input reply])) capacity
      open_ := by
  apply (aligned.mono contract_weaker).finish finished
  intro order started handedBack result found serves produced
  cases running.symm.trans found
  exact contract_respects serves produced

theorem Uploading.finish
    (upload : Uploading capacity log writer uploadId sent open_)
    (finished : writer.tasks.finish writePart position reply = some tasks)
    (running : writer.tasks.tasks[position]? = some (.running input)) :
    Uploading capacity (log ++ [.writePart input reply])
      { writer with tasks } uploadId sent open_ :=
  { started := upload.growLog.started
    counted := upload.counted
    collected := upload.growLog.collected
    aligned := aligned_finish upload.aligned finished running }

theorem Short.not_running (short : Short writer)
    (running : writer.tasks.tasks[position]? = some (.running input)) :
    False := by
  simp [short.noTasks] at running

theorem errored_finish (errored : writer.tasks.errored = true)
    (finished : writer.tasks.finish writePart position reply = some tasks) :
    tasks.errored = true :=
  (ConcurrentTasks.finish_keeps finished).2.trans errored

theorem Idle.finish (idle : Idle capacity accepted log writer)
    (finished : writer.tasks.finish writePart position reply = some tasks)
    (running : writer.tasks.tasks[position]? = some (.running input)) :
    Idle capacity accepted (log ++ [.writePart input reply])
      { writer with tasks } := by
  cases idle with
  | buffering unknown uncounted noParts aligned cached =>
      exact .buffering unknown uncounted noParts
        (aligned_finish aligned finished running) cached
  | uploading known upload cached =>
      exact .uploading known (upload.finish finished running) cached
  | short known short => exact (short.not_running running).elim
  | down known errored => exact .down known (errored_finish errored finished)

theorem Submitting.finish {future : PartFuture}
    (submitting : Submitting capacity accepted log writer uploadId future)
    (finished : writer.tasks.finish writePart position reply = some tasks)
    (running : writer.tasks.tasks[position]? = some (.running input)) :
    Submitting capacity accepted (log ++ [.writePart input reply])
      { writer with tasks } uploadId future := by
  cases submitting with
  | placing upload cached split places =>
      exact .placing (upload.finish finished running) cached split
        (places.mono contract_weaker)
  | down errored fresh =>
      exact .down (errored_finish errored finished) fresh

theorem Draining.finish {future : NextFuture}
    (draining : Draining capacity accepted log writer uploadId future)
    (finished : writer.tasks.finish writePart position reply = some tasks)
    (running : writer.tasks.tasks[position]? = some (.running input)) :
    Draining capacity accepted (log ++ [.writePart input reply])
      { writer with tasks } uploadId future := by
  cases draining with
  | collecting upload waits =>
      exact .collecting (upload.finish finished running)
        (waits.finish finished)
  | short short _ => exact (short.not_running running).elim
  | down errored fresh =>
      exact .down (errored_finish errored finished) fresh

theorem holds_finish
    (call : Option (CallFuture WriteFuture CloseFuture AbortFuture))
    (holds : (stages capacity).Holds accepted log writer call)
    (finished : writer.tasks.finish writePart position reply = some tasks)
    (running : writer.tasks.tasks[position]? = some (.running input)) :
    (stages capacity).Holds accepted (log ++ [.writePart input reply])
      { writer with tasks } call := by
  cases call with
  | none => exact Idle.finish holds finished running
  | some call =>
      cases call with
      | write bs future =>
          cases future with
          | unresumed new =>
              obtain ⟨same, idle⟩ := holds
              exact ⟨same, idle.finish finished running⟩
          | initiating new =>
              obtain ⟨same, unknown, cached, idle⟩ := holds
              exact ⟨same, unknown, cached, idle.finish finished running⟩
          | executing new future =>
              obtain ⟨same, uploadId, known, submitting⟩ := holds
              exact ⟨same, uploadId, known,
                submitting.finish finished running⟩
      | close future =>
          cases future with
          | unresumed => exact Idle.finish holds finished running
          | writingOnce size body =>
              obtain ⟨idle, body⟩ := holds
              exact ⟨idle.finish finished running, body⟩
          | executing uploadId future =>
              obtain ⟨known, submitting⟩ := holds
              exact ⟨known, submitting.finish finished running⟩
          | draining uploadId future =>
              obtain ⟨known, uncached, draining⟩ := holds
              exact ⟨known, uncached, draining.finish finished running⟩
          | completing uploadId =>
              obtain ⟨known, uncached, upload⟩ := holds
              exact ⟨known, uncached, upload.finish finished running⟩
      | abort future =>
          cases future with
          | unresumed => exact Idle.finish holds finished running
          | aborting uploadId found =>
              intro keeps
              exact Idle.finish (holds keeps) finished running

end Background

/-! ## Submitting the cached buffer -/

/-- What resuming `execute` comes to. -/
def AfterExecute (capacity : Nat) (accepted : List Buffer)
    (log : List ServiceCall) (writer : MultipartWriter) (uploadId : String) :
    Progress PartFuture (Except Error Unit) → Prop
  | .suspended future =>
      Submitting capacity accepted log writer uploadId future
  | .returned (.ok ()) => ∃ open_, Uploading capacity log
      { writer with
        cache := none
        nextPartNumber := writer.nextPartNumber + 1 }
      uploadId accepted open_
  | .returned (.error _) => Idle capacity accepted log writer
  | .panicked _ => False

theorem Uploading.submit {cache : Buffer}
    (upload : Uploading capacity log writer uploadId sent open_)
    (aligned : tasks.Aligned (contract log) capacity
      (open_ ++ [writer.nextInput uploadId cache])) :
    Uploading capacity log
      { writer with
        tasks
        cache := none
        nextPartNumber := writer.nextPartNumber + 1 }
      uploadId (sent ++ [cache])
      (open_ ++ [writer.nextInput uploadId cache]) := by
  obtain ⟨done, split, parts⟩ := upload.collected
  refine ⟨upload.started, by simp [upload.counted], ?_, aligned⟩
  refine ⟨done, ?_, parts⟩
  rw [orders_concat, split, nextInput, upload.counted, List.append_assoc]

theorem Uploading.withTasks
    (upload : Uploading capacity log writer uploadId sent open_)
    (aligned : tasks.Aligned (contract log) capacity open_) :
    Uploading capacity log { writer with tasks } uploadId sent open_ :=
  { upload with aligned }

theorem Submitting.poll {future : PartFuture}
    {progress : Progress PartFuture (Except Error Unit)}
    (known : writer.uploadId = some uploadId)
    (submitting : Submitting capacity accepted log writer uploadId future)
    (polled : writer.tasks.pollExecute future = some (tasks, progress)) :
    AfterExecute capacity accepted log { writer with tasks } uploadId
      progress := by
  cases submitting with
  | down errored fresh =>
      subst fresh
      simp only [ConcurrentTasks.pollExecute, errored, if_true,
        Option.some.injEq, Prod.mk.injEq] at polled
      obtain ⟨rfl, rfl⟩ := polled
      exact Idle.down known errored
  | placing upload cached split places =>
      have outcome := upload.aligned.pollExecute places polled
      cases outcome with
      | accepted aligned =>
          rw [split]
          exact ⟨_, upload.submit aligned⟩
      | refused fails aligned =>
          have kept := upload.withTasks (aligned fails)
          exact Idle.uploading known kept (by simp [cached, split])
      | gaveUp _ _ errored => exact Idle.down known errored
      | suspended aligned places =>
          exact Submitting.placing (upload.withTasks aligned) cached split
            places

theorem Submitting.finishAwaited {input : WriteInput} {reply : PartReply}
    {future : PartFuture}
    (submitting : Submitting capacity accepted log writer uploadId
      (.awaitingTask (.running input)))
    (finished : ExecuteFuture.finish writePart reply
      (.awaitingTask (.running input)) = some future) :
    Submitting capacity accepted (log ++ [.writePart input reply]) writer
      uploadId future := by
  cases submitting with
  | down _ fresh => cases fresh
  | placing upload cached split places =>
      refine .placing upload.growLog cached split ?_
      apply (places.mono contract_weaker).finish finished
      intro started handedBack result same serves produced
      cases same
      exact contract_respects serves produced

/-! ## `write` -/

theorem Uploading.submitting {cache : Buffer}
    (upload : Uploading capacity log writer uploadId sent open_)
    (cached : writer.cache = some cache) (split : accepted = sent ++ [cache]) :
    Submitting capacity accepted log writer uploadId
      (.unresumed (writer.nextInput uploadId cache)) :=
  .placing upload cached split rfl

theorem Idle.submitting {cache : Buffer}
    (idle : Idle capacity accepted log writer)
    (known : writer.uploadId = some uploadId)
    (cached : writer.cache = some cache) :
    Submitting capacity accepted log writer uploadId
      (.unresumed (writer.nextInput uploadId cache)) := by
  cases idle with
  | buffering unknown => simp [known] at unknown
  | uploading other upload split =>
      cases known.symm.trans other
      exact upload.submitting cached (by simpa [cached] using split)
  | short _ short => simp [short.uncached] at cached
  | down _ errored => exact .down errored rfl

theorem writing_pollWrite {bs : Buffer} {future : WriteFuture}
    {progress : WriteProgress}
    (writing : Writing capacity accepted log writer bs future)
    (polled : writer.pollWrite future = some (later, progress)) :
    (stages capacity).AfterWrite True accepted log later bs progress := by
  cases future with
  | unresumed new =>
      obtain ⟨rfl, idle⟩ := writing
      simp only [pollWrite] at polled
      split at polled
      · rename_i uploadId known
        unfold submitCache at polled
        split at polled
        · cases polled
          trivial
        · rename_i bytes cached
          cases polled
          exact ⟨rfl, uploadId, known, idle.submitting known cached⟩
      · rename_i unknown
        split at polled
        · rename_i empty
          rw [fillCache, empty, Option.some.injEq, Prod.mk.injEq] at polled
          obtain ⟨rfl, rfl⟩ := polled
          cases idle with
          | buffering _ uncounted noParts aligned cached =>
              exact .buffering unknown uncounted noParts aligned
                (by simp [cached, empty])
          | uploading known => simp [unknown] at known
          | short known => simp [unknown] at known
          | down known => simp [unknown] at known
        · rename_i cached
          cases polled
          exact ⟨rfl, unknown, by simp [cached], idle⟩
  | initiating new => cases polled
  | executing new future =>
      obtain ⟨rfl, uploadId, known, submitting⟩ := writing
      simp only [pollWrite, Option.bind_eq_bind,
        Option.bind_eq_some_iff] at polled
      obtain ⟨⟨tasks, executed⟩, resumed, same⟩ := polled
      have after := submitting.poll known resumed
      cases executed with
      | suspended future =>
          cases same
          exact ⟨rfl, uploadId, known, after⟩
      | returned result =>
          cases result with
          | ok done =>
              obtain ⟨open_, upload⟩ := after
              cases same
              have kept : Uploading capacity log
                  { writer with
                    tasks
                    cache := some new
                    nextPartNumber := writer.nextPartNumber + 1 }
                  uploadId accepted open_ :=
                ⟨upload.started, upload.counted, upload.collected,
                  upload.aligned⟩
              exact Idle.uploading known kept rfl
          | error err =>
              cases same
              exact after
      | panicked message => exact after.elim

theorem submitCache_of_cached {cache : Buffer} (uploadId : String)
    (bs : Buffer) (cached : writer.cache = some cache) :
    writer.submitCache uploadId bs =
      (writer, .suspended
        (.executing bs (.unresumed (writer.nextInput uploadId cache)))) := by
  simp [submitCache, cached]

theorem writing_initiated {bs : Buffer} {answer : Except Error String}
    (writing : Writing capacity accepted log writer bs (.initiating bs)) :
    (stages capacity).AfterWrite True accepted
      (log ++ [.initiatePart answer]) (writer.initiated bs answer).1 bs
      (writer.initiated bs answer).2 := by
  obtain ⟨_, unknown, filled, idle⟩ := writing
  cases answer with
  | error err => exact idle.growLog
  | ok uploadId =>
      obtain ⟨cache, cached⟩ := Option.ne_none_iff_exists'.mp filled
      have known : ({ writer with uploadId := some uploadId } :
          MultipartWriter).cache = some cache := cached
      rw [initiated, submitCache_of_cached uploadId bs known]
      cases idle with
      | buffering _ uncounted noParts aligned split =>
          have upload : Uploading capacity
              (log ++ [.initiatePart (.ok uploadId)])
              { writer with uploadId := some uploadId } uploadId [] [] :=
            { started := by simp
              counted := uncounted
              collected := ⟨[], rfl, by simp [noParts]⟩
              aligned := aligned.mono contract_weaker }
          have single : accepted = [] ++ [cache] := by simp [split, cached]
          exact ⟨rfl, uploadId, rfl, upload.submitting cached single⟩
      | uploading known => simp [unknown] at known
      | short known => simp [unknown] at known
      | down known => simp [unknown] at known

theorem writing_resume {bs : Buffer} {future : WriteFuture} {event : Event}
    {progress : WriteProgress} {served : Option ServiceCall}
    (writing : Writing capacity accepted log writer bs future)
    (resumed : resumeWrite writer future event =
      some (later, progress, served)) :
    (∀ call, served = some call → isCommit call = false) ∧
      (stages capacity).AfterWrite True accepted (log ++ served.toList) later
        bs progress := by
  unfold resumeWrite at resumed
  split at resumed
  · obtain ⟨⟨next, after⟩, polled, same⟩ := Option.map_eq_some_iff.mp resumed
    cases same
    refine ⟨by simp, ?_⟩
    simpa using writing_pollWrite writing polled
  · rename_i new answer
    cases resumed
    have same : new = bs := writing.1
    subst same
    exact ⟨by simp [isCommit], writing_initiated writing⟩
  · rename_i new input reply
    simp only [Option.bind_eq_bind, Option.bind_eq_some_iff] at resumed
    obtain ⟨next, finished, same⟩ := resumed
    cases same
    obtain ⟨rfl, uploadId, known, submitting⟩ := writing
    exact ⟨by simp [isCommit], rfl, uploadId, known,
      submitting.finishAwaited finished⟩
  · cases resumed

/-! ## `close` -/

theorem Idle.closing (idle : Idle capacity accepted log writer)
    {progress : CloseProgress}
    (polled : writer.pollClose .unresumed = some (later, progress)) :
    (stages capacity).AfterClose True accepted log later progress := by
  simp only [pollClose] at polled
  split at polled
  · rename_i unknown empty
    cases polled
    refine ⟨idle, rfl, .inl ⟨?_, rfl⟩⟩
    cases idle with
    | buffering _ _ _ _ cached => simp [cached, empty]
    | uploading known => simp [unknown] at known
    | short known => simp [unknown] at known
    | down known => simp [unknown] at known
  · rename_i cache unknown filled
    cases polled
    refine ⟨idle, rfl, .inr ?_⟩
    cases idle with
    | buffering _ _ _ _ cached => simp [cached, filled]
    | uploading known => simp [unknown] at known
    | short known => simp [unknown] at known
    | down known => simp [unknown] at known
  · rename_i uploadId cache known filled
    cases polled
    exact ⟨known, idle.submitting known filled⟩
  · rename_i uploadId known empty
    cases polled
    refine ⟨known, empty, ?_⟩
    cases idle with
    | buffering unknown => simp [known] at unknown
    | uploading other upload cached =>
        cases known.symm.trans other
        simp only [empty, Option.toList_none, List.append_nil] at cached
        subst cached
        exact .collecting upload trivial
    | short _ short => exact .short short rfl
    | down _ errored => exact .down errored rfl

theorem Uploading.collect {order : WriteInput} {part : MultipartPart}
    (upload : Uploading capacity log writer uploadId sent (order :: open_))
    (delivers : Written log order part)
    (aligned : tasks.Aligned (contract log) capacity open_) :
    Uploading capacity log
      { writer with tasks, parts := writer.parts ++ [part] } uploadId sent
      open_ := by
  obtain ⟨done, split, parts⟩ := upload.collected
  refine ⟨upload.started, upload.counted, ⟨done ++ [order], ?_, ?_⟩, aligned⟩
  · simp [split]
  · exact List.rel_append parts (.cons delivers .nil)

theorem Uploading.forall₂_parts
    (upload : Uploading capacity log writer uploadId accepted []) :
    List.Forall₂ (Written log) (orders uploadId accepted) writer.parts := by
  obtain ⟨done, split, parts⟩ := upload.collected
  rw [split, List.append_nil]
  exact parts

theorem Draining.poll {future : NextFuture} {progress : CloseProgress}
    (known : writer.uploadId = some uploadId) (uncached : writer.cache = none)
    (draining : Draining capacity accepted log writer uploadId future)
    (polled : writer.pollClose (.draining uploadId future) =
      some (later, progress)) :
    (stages capacity).AfterClose True accepted log later progress := by
  simp only [pollClose, Option.bind_eq_bind, Option.bind_eq_some_iff]
    at polled
  obtain ⟨⟨tasks, next⟩, resumed, same⟩ := polled
  cases draining with
  | collecting upload waits =>
      have outcome := upload.aligned.pollNext waits resumed
      cases outcome with
      | delivered oldest delivers aligned =>
          subst oldest
          cases same
          exact ⟨known, uncached,
            .collecting (upload.collect delivers aligned) trivial⟩
      | failed fails aligned =>
          cases same
          exact Idle.uploading known (upload.withTasks (aligned fails))
            (by simp [uncached])
      | gaveUp _ _ errored =>
          cases same
          exact Idle.down known errored
      | drained empty aligned =>
          subst empty
          have kept := upload.withTasks aligned
          simp only at same
          split at same
          · cases same
            exact Idle.uploading known kept (by simp [uncached])
          · cases same
            exact ⟨known, uncached, kept⟩
      | suspended aligned waits =>
          cases same
          exact ⟨known, uncached,
            .collecting (upload.withTasks aligned) waits⟩
  | short short fresh =>
      subst fresh
      simp only [ConcurrentTasks.pollNext, short.noTasks, short.noResults]
        at resumed
      split at resumed
      · cases resumed
        cases same
        exact Idle.short known short
      · cases resumed
        -- The parts that were dropped are still counted.
        have missed : writer.parts.length ≠ writer.nextPartNumber :=
          Nat.ne_of_lt short.missing
        simp only [missed, ne_eq, not_false_eq_true, if_true] at same
        cases same
        exact Idle.short known short
  | down errored fresh =>
      subst fresh
      simp only [ConcurrentTasks.pollNext, errored, if_true,
        Option.some.injEq, Prod.mk.injEq] at resumed
      obtain ⟨rfl, rfl⟩ := resumed
      cases same
      exact Idle.down known errored

theorem closing_pollClose {future : CloseFuture} {progress : CloseProgress}
    (closing : Closing capacity accepted log writer future)
    (polled : writer.pollClose future = some (later, progress)) :
    (stages capacity).AfterClose True accepted log later progress := by
  cases future with
  | unresumed => exact Idle.closing closing polled
  | writingOnce size body => cases polled
  | executing uploadId future =>
      obtain ⟨known, submitting⟩ := closing
      simp only [pollClose, Option.bind_eq_bind,
        Option.bind_eq_some_iff] at polled
      obtain ⟨⟨tasks, executed⟩, resumed, same⟩ := polled
      have after := submitting.poll known resumed
      cases executed with
      | suspended future =>
          cases same
          exact ⟨known, after⟩
      | returned result =>
          cases result with
          | ok done =>
              obtain ⟨open_, upload⟩ := after
              cases same
              exact ⟨known, rfl, .collecting upload trivial⟩
          | error err =>
              cases same
              exact after
      | panicked message => exact after.elim
  | draining uploadId future =>
      obtain ⟨known, uncached, draining⟩ := closing
      exact draining.poll known uncached polled
  | completing uploadId => cases polled

theorem closing_resume {future : CloseFuture} {event : Event}
    {progress : CloseProgress} {served : Option ServiceCall}
    (closing : Closing capacity accepted log writer future)
    (resumed : resumeClose writer future event =
      some (later, progress, served)) :
    (∀ call, served = some call → isCommit call = true →
      progress = .returned (.ok ()) ∧ Covers accepted log call) ∧
      (stages capacity).AfterClose True accepted (log ++ served.toList) later
        progress := by
  unfold resumeClose at resumed
  split at resumed
  · obtain ⟨⟨next, after⟩, polled, same⟩ := Option.map_eq_some_iff.mp resumed
    cases same
    refine ⟨by simp, ?_⟩
    simpa using closing_pollClose closing polled
  · rename_i size body answer
    obtain ⟨idle, written⟩ := closing
    cases resumed
    cases answer with
    | ok done =>
        refine ⟨?_, trivial⟩
        intro call same _
        cases same
        exact ⟨rfl, written⟩
    | error err =>
        refine ⟨?_, idle.growLog⟩
        intro call same commits
        cases same
        cases commits
  · simp only [Option.bind_eq_bind, Option.bind_eq_some_iff] at resumed
    obtain ⟨next, finished, same⟩ := resumed
    cases same
    obtain ⟨known, submitting⟩ := closing
    exact ⟨by simp [isCommit], known, submitting.finishAwaited finished⟩
  · rename_i uploadId answer
    obtain ⟨known, uncached, upload⟩ := closing
    cases resumed
    cases answer with
    | ok done =>
        refine ⟨?_, trivial⟩
        intro call same _
        cases same
        exact ⟨rfl, upload.started, upload.forall₂_parts⟩
    | error err =>
        refine ⟨?_, Idle.uploading known upload.growLog (by simp [uncached])⟩
        intro call same commits
        cases same
        cases commits
  · cases resumed

/-! ## `abort` -/

/-- Clearing the writer does no harm unless it drops a buffer without a
trace. -/
theorem Idle.clear (idle : Idle capacity accepted log writer)
    (known : writer.uploadId = some uploadId) (keeps : ¬ Loses writer) :
    Idle capacity accepted log
      { writer with tasks := writer.tasks.clear, cache := none } := by
  cases idle with
  | buffering unknown => simp [known] at unknown
  | short _ short =>
      exact .short known ⟨rfl, rfl, rfl, short.missing⟩
  | down _ errored => exact .down known errored
  | @uploading other sent open_ same upload cached =>
      obtain ⟨done, split, parts⟩ := upload.collected
      have total : done.length + open_.length = writer.nextPartNumber := by
        rw [upload.counted, ← List.length_append, ← split]
        simp [orders]
      have collected : done.length = writer.parts.length :=
        parts.length_eq
      cases open_ with
      | cons order rest =>
          refine .short known ⟨rfl, rfl, rfl, ?_⟩
          simp only [List.length_cons] at total
          simp only
          omega
      | nil =>
          obtain ⟨noResults, noTasks⟩ := upload.aligned.eq_nil
          have uncached : writer.cache = none := by
            by_contra filled
            exact keeps ⟨upload.aligned.healthy, filled, noTasks, noResults⟩
          have cleared : Uploading capacity log
              { writer with tasks := writer.tasks.clear, cache := none } other
              sent [] :=
            ⟨upload.started, upload.counted, ⟨done, split, parts⟩,
              upload.aligned.clear⟩
          exact .uploading same cleared (by simpa [uncached] using cached)

theorem aborting_resume {future : AbortFuture} {event : Event}
    {progress : AbortProgress} {served : Option ServiceCall}
    (aborting : Aborting capacity accepted log writer future)
    (keeps : KeepsCache (.abort future) event)
    (resumed : resumeAbort writer future event =
      some (later, progress, served)) :
    (∀ call, served = some call → isCommit call = false) ∧
      (stages capacity).AfterAbort True accepted (log ++ served.toList) later
        progress := by
  unfold resumeAbort at resumed
  split at resumed
  · obtain ⟨⟨next, after⟩, polled, same⟩ := Option.map_eq_some_iff.mp resumed
    cases same
    refine ⟨by simp, ?_⟩
    simp only [Option.toList_none, List.append_nil]
    cases future with
    | aborting uploadId found => cases polled
    | unresumed =>
        simp only [pollAbort] at polled
        split at polled
        · cases polled
          trivial
        · rename_i uploadId known
          cases polled
          intro keeps
          exact Idle.clear aborting known keeps
  · rename_i uploadId found answer
    cases resumed
    refine ⟨by simp [isCommit], ?_⟩
    cases answer with
    | ok done => trivial
    | error err => exact (aborting keeps).growLog
  · cases resumed

/-! ## All sessions -/

theorem background_eq_some {event : Event} {served : Option ServiceCall}
    (moved : background writer event = some (later, served)) :
    ∃ position reply input tasks,
      writer.tasks.finish writePart position reply = some tasks ∧
        writer.tasks.tasks[position]? = some (.running input) ∧
        later = { writer with tasks } ∧
        served = some (.writePart input reply) := by
  unfold background at moved
  split at moved
  · rename_i position reply
    simp only [Option.bind_eq_bind, Option.bind_eq_some_iff] at moved
    obtain ⟨tasks, finished, same⟩ := moved
    split at same
    · rename_i input running
      cases same
      exact ⟨position, reply, input, tasks, finished, running, rfl, rfl⟩
    · cases same
  · cases moved

theorem maintained (capacity : Nat) :
    (stages capacity).Maintained model spec condition True where
  start := by
    intro accepted log writer call idle _
    cases call with
    | write bs => exact ⟨rfl, idle⟩
    | close => exact idle
    | abort => exact idle
  resumeWrite := fun writing _ resumed => writing_resume writing resumed
  resumeClose := fun closing _ resumed => closing_resume closing resumed
  resumeAbort := fun aborting keeps resumed =>
    aborting_resume aborting keeps resumed
  background := by
    intro accepted log writer event later served call holds moved
    obtain ⟨position, reply, input, tasks, finished, running, rfl, rfl⟩ :=
      background_eq_some moved
    exact ⟨by simp [spec, isCommit], holds_finish call holds finished running⟩

theorem commitsLast : CommitsLast model spec where
  write := by
    intro writer future event later progress call resumed
    simp only [model] at resumed
    unfold resumeWrite at resumed
    split at resumed
    · obtain ⟨_, _, same⟩ := Option.map_eq_some_iff.mp resumed
      cases same
    · cases resumed
      rfl
    · simp only [Option.bind_eq_bind, Option.bind_eq_some_iff] at resumed
      obtain ⟨_, _, same⟩ := resumed
      cases same
      rfl
    · cases resumed
  close := by
    intro writer future event later progress call resumed commits
    simp only [model] at resumed
    unfold resumeClose at resumed
    split at resumed
    · obtain ⟨_, _, same⟩ := Option.map_eq_some_iff.mp resumed
      cases same
    · rename_i answer
      cases resumed
      cases answer with
      | ok done => rfl
      | error err => cases commits
    · simp only [Option.bind_eq_bind, Option.bind_eq_some_iff] at resumed
      obtain ⟨_, _, same⟩ := resumed
      cases same
      cases commits
    · rename_i answer
      cases resumed
      cases answer with
      | ok done => rfl
      | error err => cases commits
    · cases resumed
  abort := by
    intro writer future event later progress call resumed
    simp only [model] at resumed
    unfold resumeAbort at resumed
    split at resumed
    · obtain ⟨_, _, same⟩ := Option.map_eq_some_iff.mp resumed
      cases same
    · cases resumed
      rfl
    · cases resumed
  background := by
    intro writer event later call moved
    obtain ⟨_, _, _, _, _, _, _, served⟩ := background_eq_some moved
    cases served
    rfl

theorem idle_new (capacity : Nat) :
    Idle capacity [] [] (MultipartWriter.new capacity) :=
  .buffering rfl rfl rfl (ConcurrentTasks.aligned_new _ capacity) rfl

theorem safely (capacity : Nat) :
    CommitsSafely model spec condition (MultipartWriter.new capacity) :=
  commitsSafely commitsLast (maintained capacity) (idle_new capacity)

end OpenDal.MultipartSession
