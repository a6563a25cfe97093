import OpenDal.Layers.CompleteWriter
import OpenDal.Raw.BlockUpload

/-!
# Sessions of a block writer

Any sequence of calls, any failures of the service.  Nobody counts the blocks,
so whatever a failed `abort` has dropped is missing from the next commit: the
cached buffer and every block in the queue.
-/

namespace OpenDal.BlockSession

open BlockWriter
open BlockUpload (orders)

variable {U : Type}

/-- A call of the service and its answer. -/
inductive ServiceCall (U : Type) where
  | writeBlock (input : BlockInput U) (reply : WriteReply)
  | writeOnce (size : Nat) (body : Buffer) (answer : Except Error Unit)
  | completeBlock (blockIds : List U) (answer : Except Error Unit)
  | abortBlock (blockIds : List U) (answer : Except Error Unit)

inductive Event where
  | poll
  | wroteOnce (answer : Except Error Unit)
  | completed (answer : Except Error Unit)
  | aborted (answer : Except Error Unit)
  | finish (position : Nat) (reply : WriteReply)
  | finishAwaited (reply : WriteReply)

/-- The writer and how many ids may have been drawn. -/
structure Drawing (U : Type) where
  writer : BlockWriter U
  drawn : Nat

section Model

variable [ToString U] (uuid : Nat → U)

def resumeWrite (state : Drawing U) :
    WriteFuture U → Event →
      Option (Drawing U × WriteProgress U × Option (ServiceCall U))
  | future, .poll => (state.writer.pollWrite (uuid state.drawn) future).map
      fun (writer, progress) => (⟨writer, state.drawn + 1⟩, progress, none)
  | .executing bs (.awaitingTask (.running input)), .finishAwaited reply => do
      let future ← ExecuteFuture.finish (blockTask U).factory reply
        (.awaitingTask (.running input))
      some (state, .suspended (.executing bs future),
        some (.writeBlock input reply))
  | _, _ => none

def resumeClose (state : Drawing U) :
    CloseFuture U → Event →
      Option (Drawing U × CloseProgress U × Option (ServiceCall U))
  | future, .poll => (state.writer.pollClose (uuid state.drawn) future).map
      fun (writer, progress) => (⟨writer, state.drawn + 1⟩, progress, none)
  | .writingOnce size body, .wroteOnce answer =>
      some (⟨(state.writer.wroteOnce answer).1, state.drawn⟩,
        (state.writer.wroteOnce answer).2,
        some (.writeOnce size body answer))
  | .executing (.awaitingTask (.running input)), .finishAwaited reply => do
      let future ← ExecuteFuture.finish (blockTask U).factory reply
        (.awaitingTask (.running input))
      some (state, .suspended (.executing future),
        some (.writeBlock input reply))
  | .completing, .completed answer =>
      some (state, .returned answer,
        some (.completeBlock state.writer.blockIds answer))
  | _, _ => none

def resumeAbort (state : Drawing U) :
    AbortFuture U → Event →
      Option (Drawing U × AbortProgress U × Option (ServiceCall U))
  | future, .poll => (state.writer.pollAbort future).map
      fun (writer, progress) => (⟨writer, state.drawn⟩, progress, none)
  | .aborting blockIds _, .aborted answer =>
      some (state, .returned answer, some (.abortBlock blockIds answer))
  | _, _ => none

/-- A block task in the queue comes to its end. -/
def background (state : Drawing U) :
    Event → Option (Drawing U × Option (ServiceCall U))
  | .finish position reply => do
      let tasks ←
        state.writer.tasks.finish (blockTask U).factory position reply
      match state.writer.tasks.tasks[position]? with
      | some (.running input) =>
          some (⟨{ state.writer with tasks }, state.drawn⟩,
            some (.writeBlock input reply))
      | _ => none
  | _ => none

def model : OioWrite (Drawing U) (WriteFuture U) (CloseFuture U)
    (AbortFuture U) Event (ServiceCall U) where
  write := .unresumed
  close := .unresumed
  abort := .unresumed
  resumeWrite := resumeWrite uuid
  resumeClose := resumeClose uuid
  resumeAbort := resumeAbort
  background := background

end Model

def new (capacity : Nat) : Drawing U :=
  ⟨.new capacity, 0⟩

abbrev Session (U : Type) : Type :=
  WriterSession (Drawing U) (WriteFuture U) (CloseFuture U) (AbortFuture U)
    (ServiceCall U)

/-! ## What a commit covers -/

/-- The block of `input` has been written. -/
def Written (log : List (ServiceCall U)) (input : BlockInput U) : Prop :=
  .writeBlock input (.answered (.ok ())) ∈ log

theorem written_append {log extra : List (ServiceCall U)}
    (input : BlockInput U) (written : Written log input) :
    Written (log ++ extra) input :=
  List.mem_append_left extra written

theorem written_of_succeeded {log : List (ServiceCall U)}
    {input : BlockInput U} {reply : WriteReply}
    (succeeded : reply.succeeded = true) :
    Written (log ++ [.writeBlock input reply]) input := by
  match reply, succeeded with
  | .answered (.ok ()), _ => simp [Written]

def isCommit : ServiceCall U → Bool
  | .writeOnce _ _ (.ok ()) => true
  | .completeBlock _ (.ok ()) => true
  | _ => false

/-- The only write is the object, or each write is one of the blocks, in
order; the ids were drawn one after the other. -/
def Covers (uuid : Nat → U) (accepted : List Buffer)
    (log : List (ServiceCall U)) : ServiceCall U → Prop
  | .writeOnce size body _ => size = body.len ∧
      (accepted = [] ∧ body = Buffer.new ∨ accepted = [body])
  | .completeBlock blockIds _ =>
      (∃ draws : List Nat, draws.Pairwise (· < ·) ∧
        blockIds = draws.map uuid) ∧
        List.Forall₂ (fun body blockId => Written log ⟨blockId, body⟩)
          accepted blockIds
  | _ => True

def spec (uuid : Nat → U) : CommitSpec (ServiceCall U) where
  isCommit := isCommit
  covers := Covers uuid

/-- Clearing this writer drops something. -/
def Loses (writer : BlockWriter U) : Prop :=
  writer.tasks.errored = false ∧
    (writer.cache ≠ none ∨ writer.tasks.tasks ≠ [] ∨
      writer.tasks.results ≠ [])

/-- `abort_block` does not fail when something is dropped. -/
def KeepsBlocks :
    CallFuture (WriteFuture U) (CloseFuture U) (AbortFuture U) → Event → Prop
  | .abort (.aborting _ found), .aborted (.error _) => ¬ Loses found
  | _, _ => True

def condition : SessionCondition (Drawing U) (WriteFuture U) (CloseFuture U)
    (AbortFuture U) Event where
  call := fun _ _ _ => True
  resume := KeepsBlocks

/-! ## The invariant -/

variable [ToString U]

def contract (log : List (ServiceCall U)) :
    Contract (BlockInput U) (BlockInput U) U :=
  (blockTask U).lenientContract (Written log)

/-- An upload with the attempts `sent` accepted, of which the orders `open_`
are still in the queue. -/
structure Uploading (uuid : Nat → U) (capacity : Nat)
    (log : List (ServiceCall U)) (state : Drawing U)
    (sent : List (Nat × Buffer)) (open_ : List (BlockInput U)) : Prop where
  increasing : (sent.map Prod.fst).Pairwise (· < ·)
  known : ∀ attempt ∈ sent, attempt.1 < state.drawn
  collected : ∃ done, orders uuid sent = done ++ open_ ∧
    List.Forall₂ (contract log).delivers done state.writer.blockIds
  aligned : state.writer.tasks.Aligned (contract log) capacity open_

/-- The state between two calls. -/
inductive Idle (uuid : Nat → U) (capacity : Nat) (accepted : List Buffer)
    (log : List (ServiceCall U)) (state : Drawing U) : Prop where
  | buffering (unstarted : state.writer.started = false)
      (upload : Uploading uuid capacity log state [] [])
      (cached : accepted = state.writer.cache.toList)
  | uploading {sent : List (Nat × Buffer)} {open_ : List (BlockInput U)}
      (started : state.writer.started = true)
      (upload : Uploading uuid capacity log state sent open_)
      (cached : accepted =
        sent.map Prod.snd ++ state.writer.cache.toList)
  | down (started : state.writer.started = true)
      (errored : state.writer.tasks.errored = true)

/-- An `execute` that submits the cached buffer under a new id. -/
inductive Submitting (uuid : Nat → U) (capacity : Nat)
    (accepted : List Buffer) (log : List (ServiceCall U)) (state : Drawing U)
    (future : BlockFuture U) : Prop where
  | placing {sent : List (Nat × Buffer)} {open_ : List (BlockInput U)}
      {number : Nat} {cache : Buffer}
      (upload : Uploading uuid capacity log state sent open_)
      (cached : state.writer.cache = some cache)
      (split : accepted = sent.map Prod.snd ++ [cache])
      (drawn : number < state.drawn)
      (fresh : ∀ attempt ∈ sent, attempt.1 < number)
      (places : future.Places (contract log) capacity ⟨uuid number, cache⟩)
  | down {input : BlockInput U} (errored : state.writer.tasks.errored = true)
      (fresh : future = .unresumed input)

def Writing (uuid : Nat → U) (capacity : Nat) (accepted : List Buffer)
    (log : List (ServiceCall U)) (state : Drawing U) (bs : Buffer) :
    WriteFuture U → Prop
  | .unresumed new => new = bs ∧ Idle uuid capacity accepted log state
  | .executing new future => new = bs ∧ state.writer.started = true ∧
      Submitting uuid capacity accepted log state future

/-- The loop of `close`. -/
inductive Draining (uuid : Nat → U) (capacity : Nat) (accepted : List Buffer)
    (log : List (ServiceCall U)) (state : Drawing U) (future : NextFuture) :
    Prop where
  | collecting {sent : List (Nat × Buffer)} {open_ : List (BlockInput U)}
      (upload : Uploading uuid capacity log state sent open_)
      (split : accepted = sent.map Prod.snd)
      (waits : future.Waits state.writer.tasks)
  | down (errored : state.writer.tasks.errored = true)
      (fresh : future = .unresumed)

def Closing (uuid : Nat → U) (capacity : Nat) (accepted : List Buffer)
    (log : List (ServiceCall U)) (state : Drawing U) : CloseFuture U → Prop
  | .unresumed => Idle uuid capacity accepted log state
  | .writingOnce size body => Idle uuid capacity accepted log state ∧
      size = body.len ∧
      (accepted = [] ∧ body = Buffer.new ∨ accepted = [body])
  | .executing future => state.writer.started = true ∧
      Submitting uuid capacity accepted log state future
  | .draining future => state.writer.started = true ∧
      state.writer.cache = none ∧
      Draining uuid capacity accepted log state future
  | .completing => state.writer.started = true ∧
      state.writer.cache = none ∧ ∃ sent : List (Nat × Buffer),
        Uploading uuid capacity log state sent [] ∧
          accepted = sent.map Prod.snd

def Aborting (uuid : Nat → U) (capacity : Nat) (accepted : List Buffer)
    (log : List (ServiceCall U)) (state : Drawing U) : AbortFuture U → Prop
  | .unresumed => Idle uuid capacity accepted log state
  | .aborting _ found =>
      ¬ Loses found → Idle uuid capacity accepted log state

def stages (uuid : Nat → U) (capacity : Nat) :
    Stages (Drawing U) (WriteFuture U) (CloseFuture U) (AbortFuture U)
      (ServiceCall U) where
  idle := Idle uuid capacity
  writing := Writing uuid capacity
  closing := Closing uuid capacity
  aborting := Aborting uuid capacity

variable {uuid : Nat → U} {capacity : Nat} {accepted : List Buffer}
  {log extra : List (ServiceCall U)} {state later : Drawing U}
  {sent : List (Nat × Buffer)} {open_ : List (BlockInput U)}
  {tasks : ConcurrentTasks (BlockInput U) U}

/-! ## A growing log -/

theorem contract_weaker :
    (contract log).Weaker (contract (log ++ extra)) :=
  WriteTask.lenientContract_weaker written_append

theorem Uploading.growLog
    (upload : Uploading uuid capacity log state sent open_) :
    Uploading uuid capacity (log ++ extra) state sent open_ := by
  obtain ⟨done, split, blocks⟩ := upload.collected
  exact
    { increasing := upload.increasing
      known := upload.known
      collected := ⟨done, split, blocks.imp contract_weaker.delivers⟩
      aligned := upload.aligned.mono contract_weaker }

theorem Idle.growLog (idle : Idle uuid capacity accepted log state) :
    Idle uuid capacity accepted (log ++ extra) state := by
  cases idle with
  | buffering unstarted upload cached =>
      exact .buffering unstarted upload.growLog cached
  | uploading started upload cached =>
      exact .uploading started upload.growLog cached
  | down started errored => exact .down started errored

/-! ## The end of a block task -/

section Background

variable {position : Nat} {reply : WriteReply} {input : BlockInput U}

theorem Uploading.finish
    (upload : Uploading uuid capacity log state sent open_)
    (finished : state.writer.tasks.finish (blockTask U).factory position
      reply = some tasks)
    (running : state.writer.tasks.tasks[position]? =
      some (.running input)) :
    Uploading uuid capacity (log ++ [.writeBlock input reply])
      ⟨{ state.writer with tasks }, state.drawn⟩ sent open_ :=
  { increasing := upload.increasing
    known := upload.known
    collected := upload.growLog.collected
    aligned := WriteTask.lenient_aligned_finish upload.aligned finished
      running written_append written_of_succeeded }

theorem errored_finish (errored : state.writer.tasks.errored = true)
    (finished : state.writer.tasks.finish (blockTask U).factory position
      reply = some tasks) : tasks.errored = true :=
  (ConcurrentTasks.finish_keeps finished).2.trans errored

theorem Idle.finish (idle : Idle uuid capacity accepted log state)
    (finished : state.writer.tasks.finish (blockTask U).factory position
      reply = some tasks)
    (running : state.writer.tasks.tasks[position]? =
      some (.running input)) :
    Idle uuid capacity accepted (log ++ [.writeBlock input reply])
      ⟨{ state.writer with tasks }, state.drawn⟩ := by
  cases idle with
  | buffering unstarted upload cached =>
      exact .buffering unstarted (upload.finish finished running) cached
  | uploading started upload cached =>
      exact .uploading started (upload.finish finished running) cached
  | down started errored =>
      exact .down started (errored_finish errored finished)

theorem Submitting.finish {future : BlockFuture U}
    (submitting : Submitting uuid capacity accepted log state future)
    (finished : state.writer.tasks.finish (blockTask U).factory position
      reply = some tasks)
    (running : state.writer.tasks.tasks[position]? =
      some (.running input)) :
    Submitting uuid capacity accepted (log ++ [.writeBlock input reply])
      ⟨{ state.writer with tasks }, state.drawn⟩ future := by
  cases submitting with
  | placing upload cached split drawn fresh places =>
      exact .placing (upload.finish finished running) cached split drawn
        fresh (places.mono contract_weaker)
  | down errored fresh =>
      exact .down (errored_finish errored finished) fresh

theorem Draining.finish {future : NextFuture}
    (draining : Draining uuid capacity accepted log state future)
    (finished : state.writer.tasks.finish (blockTask U).factory position
      reply = some tasks)
    (running : state.writer.tasks.tasks[position]? =
      some (.running input)) :
    Draining uuid capacity accepted (log ++ [.writeBlock input reply])
      ⟨{ state.writer with tasks }, state.drawn⟩ future := by
  cases draining with
  | collecting upload split waits =>
      exact .collecting (upload.finish finished running) split
        (waits.finish finished)
  | down errored fresh =>
      exact .down (errored_finish errored finished) fresh

theorem holds_finish
    (call : Option (CallFuture (WriteFuture U) (CloseFuture U)
      (AbortFuture U)))
    (holds : (stages uuid capacity).Holds accepted log state call)
    (finished : state.writer.tasks.finish (blockTask U).factory position
      reply = some tasks)
    (running : state.writer.tasks.tasks[position]? =
      some (.running input)) :
    (stages uuid capacity).Holds accepted (log ++ [.writeBlock input reply])
      ⟨{ state.writer with tasks }, state.drawn⟩ call := by
  cases call with
  | none => exact Idle.finish holds finished running
  | some call =>
      cases call with
      | write bs future =>
          cases future with
          | unresumed new =>
              obtain ⟨same, idle⟩ := holds
              exact ⟨same, idle.finish finished running⟩
          | executing new future =>
              obtain ⟨same, started, submitting⟩ := holds
              exact ⟨same, started, submitting.finish finished running⟩
      | close future =>
          cases future with
          | unresumed => exact Idle.finish holds finished running
          | writingOnce size body =>
              obtain ⟨idle, body⟩ := holds
              exact ⟨idle.finish finished running, body⟩
          | executing future =>
              obtain ⟨started, submitting⟩ := holds
              exact ⟨started, submitting.finish finished running⟩
          | draining future =>
              obtain ⟨started, uncached, draining⟩ := holds
              exact ⟨started, uncached, draining.finish finished running⟩
          | completing =>
              obtain ⟨started, uncached, sent, upload, split⟩ := holds
              exact ⟨started, uncached, sent,
                upload.finish finished running, split⟩
      | abort future =>
          cases future with
          | unresumed => exact Idle.finish holds finished running
          | aborting blockIds found =>
              intro keeps
              exact Idle.finish (holds keeps) finished running

end Background

/-! ## Submitting the cached buffer -/

/-- What resuming `execute` comes to. -/
def AfterExecute (uuid : Nat → U) (capacity : Nat) (accepted : List Buffer)
    (log : List (ServiceCall U)) (state : Drawing U) :
    Progress (BlockFuture U) (Except Error Unit) → Prop
  | .suspended future =>
      Submitting uuid capacity accepted log state future
  | .returned (.ok ()) => ∃ sent : List (Nat × Buffer), ∃ open_,
      Uploading uuid capacity log state sent open_ ∧
        accepted = sent.map Prod.snd
  | .returned (.error _) => Idle uuid capacity accepted log state
  | .panicked _ => False

theorem Uploading.withTasks {drawn : Nat}
    (upload : Uploading uuid capacity log state sent open_)
    (drew : state.drawn ≤ drawn)
    (aligned : tasks.Aligned (contract log) capacity open_) :
    Uploading uuid capacity log ⟨{ state.writer with tasks }, drawn⟩ sent
      open_ :=
  { increasing := upload.increasing
    known := fun attempt member =>
      Nat.lt_of_lt_of_le (upload.known attempt member) drew
    collected := upload.collected
    aligned := aligned }

theorem Uploading.withCache {writer : BlockWriter U} {drawn : Nat}
    (upload : Uploading uuid capacity log ⟨writer, drawn⟩ sent open_)
    (cache : Option Buffer) :
    Uploading uuid capacity log ⟨{ writer with cache }, drawn⟩ sent open_ :=
  ⟨upload.increasing, upload.known, upload.collected, upload.aligned⟩

theorem Uploading.submit {number drawn : Nat} {cache : Buffer}
    (upload : Uploading uuid capacity log state sent open_)
    (before : number < drawn)
    (fresh : ∀ attempt ∈ sent, attempt.1 < number)
    (aligned : tasks.Aligned (contract log) capacity
      (open_ ++ [⟨uuid number, cache⟩])) :
    Uploading uuid capacity log ⟨{ state.writer with tasks }, drawn⟩
      (sent ++ [(number, cache)]) (open_ ++ [⟨uuid number, cache⟩]) := by
  obtain ⟨done, split, blocks⟩ := upload.collected
  refine ⟨?_, ?_, ⟨done, ?_, blocks⟩, aligned⟩
  · rw [List.map_append, List.pairwise_append]
    refine ⟨upload.increasing, List.pairwise_singleton _ _, ?_⟩
    intro earlier member last isLast
    obtain ⟨attempt, sentBefore, rfl⟩ := List.mem_map.mp member
    rw [List.map_singleton, List.mem_singleton] at isLast
    subst isLast
    exact fresh attempt sentBefore
  · intro attempt member
    rcases List.mem_append.mp member with earlier | last
    · exact Nat.lt_trans (fresh attempt earlier) before
    · rw [List.mem_singleton.mp last]
      exact before
  · simp only [orders] at split ⊢
    simp [split]

theorem Submitting.poll {future : BlockFuture U}
    {progress : Progress (BlockFuture U) (Except Error Unit)}
    (started : state.writer.started = true)
    (submitting : Submitting uuid capacity accepted log state future)
    (polled : state.writer.tasks.pollExecute future =
      some (tasks, progress)) :
    AfterExecute uuid capacity accepted log
      ⟨{ state.writer with tasks }, state.drawn + 1⟩ progress := by
  cases submitting with
  | down errored fresh =>
      subst fresh
      simp only [ConcurrentTasks.pollExecute, errored, if_true,
        Option.some.injEq, Prod.mk.injEq] at polled
      obtain ⟨rfl, rfl⟩ := polled
      exact Idle.down started errored
  | placing upload cached split drawn fresh places =>
      have drew : state.drawn ≤ state.drawn + 1 := Nat.le_succ _
      have outcome := upload.aligned.pollExecute places polled
      cases outcome with
      | accepted aligned =>
          have later := upload.submit (Nat.lt_succ_of_lt drawn) fresh aligned
          exact ⟨_, _, later, by simp [split]⟩
      | refused fails aligned =>
          exact Idle.uploading started (upload.withTasks drew (aligned fails))
            (by simp [cached, split])
      | gaveUp _ _ errored => exact Idle.down started errored
      | suspended aligned places =>
          exact Submitting.placing (upload.withTasks drew aligned) cached
            split (Nat.lt_succ_of_lt drawn) fresh places

theorem Submitting.finishAwaited {input : BlockInput U} {reply : WriteReply}
    {future : BlockFuture U}
    (submitting : Submitting uuid capacity accepted log state
      (.awaitingTask (.running input)))
    (finished : ExecuteFuture.finish (blockTask U).factory reply
      (.awaitingTask (.running input)) = some future) :
    Submitting uuid capacity accepted (log ++ [.writeBlock input reply])
      state future := by
  cases submitting with
  | down _ fresh => cases fresh
  | placing upload cached split drawn fresh places =>
      refine .placing upload.growLog cached split drawn fresh ?_
      exact WriteTask.lenient_places_finish places finished written_append
        written_of_succeeded

theorem Uploading.submitting {cache : Buffer}
    (upload : Uploading uuid capacity log state sent open_)
    (cached : state.writer.cache = some cache)
    (split : accepted = sent.map Prod.snd ++ [cache]) :
    Submitting uuid capacity accepted log
      ⟨{ state.writer with started := true }, state.drawn + 1⟩
      (.unresumed ⟨uuid state.drawn, cache⟩) := by
  have kept : Uploading uuid capacity log
      ⟨{ state.writer with started := true }, state.drawn + 1⟩ sent open_ :=
    { increasing := upload.increasing
      known := fun attempt member =>
        Nat.lt_succ_of_lt (upload.known attempt member)
      collected := upload.collected
      aligned := upload.aligned }
  exact .placing kept cached split (Nat.lt_succ_self _) upload.known rfl

theorem Idle.submitting {cache : Buffer}
    (idle : Idle uuid capacity accepted log state)
    (cached : state.writer.cache = some cache) :
    Submitting uuid capacity accepted log
      ⟨{ state.writer with started := true }, state.drawn + 1⟩
      (.unresumed ⟨uuid state.drawn, cache⟩) := by
  cases idle with
  | buffering _ upload split =>
      exact upload.submitting cached (by simpa [cached] using split)
  | uploading _ upload split =>
      exact upload.submitting cached (by simpa [cached] using split)
  | down _ errored => exact .down errored rfl

/-! ## `write` -/

theorem writing_pollWrite {bs : Buffer} {future : WriteFuture U}
    {writer : BlockWriter U} {progress : WriteProgress U}
    (writing : Writing uuid capacity accepted log state bs future)
    (polled : state.writer.pollWrite (uuid state.drawn) future =
      some (writer, progress)) :
    (stages uuid capacity).AfterWrite True accepted log
      ⟨writer, state.drawn + 1⟩ bs progress := by
  cases future with
  | unresumed new =>
      obtain ⟨rfl, idle⟩ := writing
      cases cached : state.writer.cache with
      | some cache =>
          rw [pollWrite_submit cached] at polled
          cases polled
          exact ⟨rfl, rfl, idle.submitting cached⟩
      | none =>
          cases begun : state.writer.started with
          | true =>
              simp only [pollWrite, begun, cached] at polled
              cases polled
              trivial
          | false =>
              rw [pollWrite_first begun cached] at polled
              cases polled
              cases idle with
              | buffering unstarted upload split =>
                  have kept := (upload.withTasks (Nat.le_succ state.drawn)
                    upload.aligned).withCache (some new)
                  exact .buffering unstarted kept (by simp [split, cached])
              | uploading started => simp [begun] at started
              | down started => simp [begun] at started
  | executing new future =>
      obtain ⟨rfl, started, submitting⟩ := writing
      simp only [pollWrite, Option.bind_eq_bind,
        Option.bind_eq_some_iff] at polled
      obtain ⟨⟨tasks, executed⟩, resumed, same⟩ := polled
      have after := submitting.poll started resumed
      cases executed with
      | suspended future =>
          cases same
          exact ⟨rfl, started, after⟩
      | returned result =>
          cases result with
          | ok done =>
              obtain ⟨sent, open_, upload, split⟩ := after
              cases same
              exact Idle.uploading started (upload.withCache (some new))
                (by simp [split])
          | error err =>
              cases same
              exact after
      | panicked message => exact after.elim

theorem writing_resume {bs : Buffer} {future : WriteFuture U} {event : Event}
    {progress : WriteProgress U} {served : Option (ServiceCall U)}
    (writing : Writing uuid capacity accepted log state bs future)
    (resumed : resumeWrite uuid state future event =
      some (later, progress, served)) :
    (∀ call, served = some call → isCommit call = false) ∧
      (stages uuid capacity).AfterWrite True accepted (log ++ served.toList)
        later bs progress := by
  unfold resumeWrite at resumed
  split at resumed
  · obtain ⟨⟨next, after⟩, polled, same⟩ := Option.map_eq_some_iff.mp resumed
    cases same
    refine ⟨by simp, ?_⟩
    simpa using writing_pollWrite writing polled
  · simp only [Option.bind_eq_bind, Option.bind_eq_some_iff] at resumed
    obtain ⟨next, finished, same⟩ := resumed
    cases same
    obtain ⟨rfl, started, submitting⟩ := writing
    exact ⟨by simp [isCommit], rfl, started,
      submitting.finishAwaited finished⟩
  · cases resumed

/-! ## `close` -/

theorem Idle.closing (idle : Idle uuid capacity accepted log state)
    {writer : BlockWriter U} {progress : CloseProgress U}
    (polled : state.writer.pollClose (uuid state.drawn) .unresumed =
      some (writer, progress)) :
    (stages uuid capacity).AfterClose True accepted log
      ⟨writer, state.drawn + 1⟩ progress := by
  have drawnLater : Idle uuid capacity accepted log
      ⟨state.writer, state.drawn + 1⟩ := by
    cases idle with
    | buffering unstarted upload cached =>
        exact .buffering unstarted
          (upload.withTasks (Nat.le_succ _) upload.aligned) cached
    | uploading started upload cached =>
        exact .uploading started
          (upload.withTasks (Nat.le_succ _) upload.aligned) cached
    | down started errored => exact .down started errored
  simp only [pollClose] at polled
  split at polled
  · rename_i cache begun filled
    cases polled
    refine ⟨drawnLater, rfl, .inr ?_⟩
    cases idle with
    | buffering _ _ cached => simp [cached, filled]
    | uploading started => simp [begun] at started
    | down started => simp [begun] at started
  · rename_i begun empty
    cases polled
    refine ⟨drawnLater, rfl, .inl ⟨?_, rfl⟩⟩
    cases idle with
    | buffering _ _ cached => simp [cached, empty]
    | uploading started => simp [begun] at started
    | down started => simp [begun] at started
  · rename_i cache begun filled
    cases polled
    have submitting := idle.submitting filled
    rw [← begun] at submitting
    exact ⟨begun, submitting⟩
  · rename_i begun empty
    cases polled
    refine ⟨begun, empty, ?_⟩
    cases drawnLater with
    | buffering unstarted => simp [begun] at unstarted
    | uploading _ upload cached =>
        exact .collecting upload (by simpa [empty] using cached) trivial
    | down _ errored => exact .down errored rfl

theorem Uploading.collect {order : BlockInput U} {blockId : U} {drawn : Nat}
    (upload : Uploading uuid capacity log state sent (order :: open_))
    (drew : state.drawn ≤ drawn)
    (delivers : (contract log).delivers order blockId)
    (aligned : tasks.Aligned (contract log) capacity open_) :
    Uploading uuid capacity log
      ⟨{ state.writer with
          tasks
          blockIds := state.writer.blockIds ++ [blockId] }, drawn⟩
      sent open_ := by
  obtain ⟨done, split, blocks⟩ := upload.collected
  refine ⟨upload.increasing, ?_, ⟨done ++ [order], ?_, ?_⟩, aligned⟩
  · exact fun attempt member =>
      Nat.lt_of_lt_of_le (upload.known attempt member) drew
  · simp [split]
  · exact List.rel_append blocks (.cons delivers .nil)

theorem Uploading.covers
    (upload : Uploading uuid capacity log state sent [])
    (answer : Except Error Unit) :
    Covers uuid (sent.map Prod.snd) log
      (.completeBlock state.writer.blockIds answer) := by
  obtain ⟨done, split, blocks⟩ := upload.collected
  rw [List.append_nil] at split
  rw [← split, orders, List.forall₂_map_left_iff] at blocks
  refine ⟨⟨sent.map Prod.fst, upload.increasing, ?_⟩, ?_⟩
  · have named := blocks.imp fun _ _ delivers => delivers.1.symm
    have same : List.Forall₂ (· = ·) (sent.map (uuid ∘ Prod.fst))
        state.writer.blockIds := List.forall₂_map_left_iff.mpr named
    rw [List.forall₂_eq_eq_eq] at same
    rw [List.map_map]
    exact same.symm
  · rw [List.forall₂_map_left_iff]
    apply blocks.imp
    intro attempt blockId delivers
    obtain ⟨rfl, written⟩ := delivers
    exact written

theorem Draining.poll {future : NextFuture} {writer : BlockWriter U}
    {progress : CloseProgress U} (started : state.writer.started = true)
    (uncached : state.writer.cache = none)
    (draining : Draining uuid capacity accepted log state future)
    (polled : state.writer.pollClose (uuid state.drawn) (.draining future) =
      some (writer, progress)) :
    (stages uuid capacity).AfterClose True accepted log
      ⟨writer, state.drawn + 1⟩ progress := by
  simp only [pollClose, Option.bind_eq_bind, Option.bind_eq_some_iff]
    at polled
  obtain ⟨⟨tasks, next⟩, resumed, same⟩ := polled
  have drew : state.drawn ≤ state.drawn + 1 := Nat.le_succ _
  cases draining with
  | collecting upload split waits =>
      have outcome := upload.aligned.pollNext waits resumed
      cases outcome with
      | delivered oldest delivers aligned =>
          subst oldest
          cases same
          exact ⟨started, uncached,
            .collecting (upload.collect drew delivers aligned) split trivial⟩
      | failed fails aligned =>
          cases same
          exact Idle.uploading started (upload.withTasks drew (aligned fails))
            (by simp [uncached, split])
      | gaveUp _ _ errored =>
          cases same
          exact Idle.down started errored
      | drained empty aligned =>
          subst empty
          cases same
          exact ⟨started, uncached, _, upload.withTasks drew aligned, split⟩
      | suspended aligned waits =>
          cases same
          exact ⟨started, uncached,
            .collecting (upload.withTasks drew aligned) split waits⟩
  | down errored fresh =>
      subst fresh
      simp only [ConcurrentTasks.pollNext, errored, if_true,
        Option.some.injEq, Prod.mk.injEq] at resumed
      obtain ⟨rfl, rfl⟩ := resumed
      cases same
      exact Idle.down started errored

theorem closing_pollClose {future : CloseFuture U} {writer : BlockWriter U}
    {progress : CloseProgress U}
    (closing : Closing uuid capacity accepted log state future)
    (polled : state.writer.pollClose (uuid state.drawn) future =
      some (writer, progress)) :
    (stages uuid capacity).AfterClose True accepted log
      ⟨writer, state.drawn + 1⟩ progress := by
  cases future with
  | unresumed => exact Idle.closing closing polled
  | writingOnce size body => cases polled
  | executing future =>
      obtain ⟨started, submitting⟩ := closing
      simp only [pollClose, Option.bind_eq_bind,
        Option.bind_eq_some_iff] at polled
      obtain ⟨⟨tasks, executed⟩, resumed, same⟩ := polled
      have after := submitting.poll started resumed
      cases executed with
      | suspended future =>
          cases same
          exact ⟨started, after⟩
      | returned result =>
          cases result with
          | ok done =>
              obtain ⟨sent, open_, upload, split⟩ := after
              cases same
              exact ⟨started, rfl,
                .collecting (upload.withCache none) split trivial⟩
          | error err =>
              cases same
              exact after
      | panicked message => exact after.elim
  | draining future =>
      obtain ⟨started, uncached, draining⟩ := closing
      exact draining.poll started uncached polled
  | completing => cases polled

theorem closing_resume {future : CloseFuture U} {event : Event}
    {progress : CloseProgress U} {served : Option (ServiceCall U)}
    (closing : Closing uuid capacity accepted log state future)
    (resumed : resumeClose uuid state future event =
      some (later, progress, served)) :
    (∀ call, served = some call → isCommit call = true →
      progress = .returned (.ok ()) ∧ Covers uuid accepted log call) ∧
      (stages uuid capacity).AfterClose True accepted (log ++ served.toList)
        later progress := by
  unfold resumeClose at resumed
  split at resumed
  · obtain ⟨⟨next, after⟩, polled, same⟩ := Option.map_eq_some_iff.mp resumed
    cases same
    refine ⟨by simp, ?_⟩
    simpa using closing_pollClose closing polled
  · rename_i size body answer
    obtain ⟨idle, written⟩ := closing
    cases resumed
    cases answer with
    | ok done =>
        refine ⟨?_, trivial⟩
        intro call same _
        cases same
        exact ⟨rfl, written⟩
    | error err =>
        refine ⟨?_, idle.growLog⟩
        intro call same commits
        cases same
        cases commits
  · simp only [Option.bind_eq_bind, Option.bind_eq_some_iff] at resumed
    obtain ⟨next, finished, same⟩ := resumed
    cases same
    obtain ⟨started, submitting⟩ := closing
    exact ⟨by simp [isCommit], started, submitting.finishAwaited finished⟩
  · rename_i answer
    obtain ⟨started, uncached, sent, upload, split⟩ := closing
    cases resumed
    cases answer with
    | ok done =>
        refine ⟨?_, trivial⟩
        intro call same _
        cases same
        rw [split]
        exact ⟨rfl, upload.covers _⟩
    | error err =>
        refine ⟨?_, Idle.uploading started upload.growLog
          (by simp [uncached, split])⟩
        intro call same commits
        cases same
        cases commits
  · cases resumed

/-! ## `abort` -/

/-- Clearing the writer does no harm if there is nothing to drop. -/
theorem Idle.clear (idle : Idle uuid capacity accepted log state)
    (begun : state.writer.started = true) (keeps : ¬ Loses state.writer) :
    Idle uuid capacity accepted log
      ⟨{ state.writer with tasks := state.writer.tasks.clear, cache := none },
        state.drawn⟩ := by
  cases idle with
  | buffering unstarted => simp [begun] at unstarted
  | down _ errored => exact .down begun errored
  | uploading _ upload cached =>
      simp only [Loses, upload.aligned.healthy, true_and, not_or, ne_eq,
        not_not] at keeps
      obtain ⟨uncached, noTasks, noResults⟩ := keeps
      have drained := upload.aligned.orders_eq_nil noResults noTasks
      subst drained
      have cleared := (upload.withTasks (Nat.le_refl _)
        upload.aligned.clear).withCache none
      exact .uploading begun cleared (by simpa [uncached] using cached)

theorem aborting_resume {future : AbortFuture U} {event : Event}
    {progress : AbortProgress U} {served : Option (ServiceCall U)}
    (aborting : Aborting uuid capacity accepted log state future)
    (keeps : KeepsBlocks (.abort future) event)
    (resumed : resumeAbort state future event =
      some (later, progress, served)) :
    (∀ call, served = some call → isCommit call = false) ∧
      (stages uuid capacity).AfterAbort True accepted (log ++ served.toList)
        later progress := by
  unfold resumeAbort at resumed
  split at resumed
  · obtain ⟨⟨next, after⟩, polled, same⟩ := Option.map_eq_some_iff.mp resumed
    cases same
    refine ⟨by simp, ?_⟩
    simp only [Option.toList_none, List.append_nil]
    cases future with
    | aborting blockIds found => cases polled
    | unresumed =>
        simp only [pollAbort] at polled
        split at polled
        · cases polled
          trivial
        · rename_i begun
          cases polled
          intro keeps
          exact Idle.clear aborting (by simpa using begun) keeps
  · rename_i blockIds found answer
    cases resumed
    refine ⟨by simp [isCommit], ?_⟩
    cases answer with
    | ok done => trivial
    | error err => exact (aborting keeps).growLog
  · cases resumed

/-! ## All sessions -/

theorem background_eq_some {event : Event} {served : Option (ServiceCall U)}
    (moved : background state event = some (later, served)) :
    ∃ position reply input tasks,
      state.writer.tasks.finish (blockTask U).factory position reply =
          some tasks ∧
        state.writer.tasks.tasks[position]? = some (.running input) ∧
        later = ⟨{ state.writer with tasks }, state.drawn⟩ ∧
        served = some (.writeBlock input reply) := by
  unfold background at moved
  split at moved
  · rename_i position reply
    simp only [Option.bind_eq_bind, Option.bind_eq_some_iff] at moved
    obtain ⟨tasks, finished, same⟩ := moved
    split at same
    · rename_i input running
      cases same
      exact ⟨position, reply, input, tasks, finished, running, rfl, rfl⟩
    · cases same
  · cases moved

theorem maintained (uuid : Nat → U) (capacity : Nat) :
    (stages uuid capacity).Maintained (model uuid) (spec uuid) condition
      True where
  start := by
    intro accepted log state call idle _
    cases call with
    | write bs => exact ⟨rfl, idle⟩
    | close => exact idle
    | abort => exact idle
  resumeWrite := fun writing _ resumed => writing_resume writing resumed
  resumeClose := fun closing _ resumed => closing_resume closing resumed
  resumeAbort := fun aborting keeps resumed =>
    aborting_resume aborting keeps resumed
  background := by
    intro accepted log state event later served call holds moved
    obtain ⟨position, reply, input, tasks, finished, running, rfl, rfl⟩ :=
      background_eq_some moved
    exact ⟨by simp [spec, isCommit], holds_finish call holds finished running⟩

theorem commitsLast (uuid : Nat → U) :
    CommitsLast (model uuid) (spec uuid) where
  write := by
    intro state future event later progress call resumed
    simp only [model] at resumed
    unfold resumeWrite at resumed
    split at resumed
    · obtain ⟨_, _, same⟩ := Option.map_eq_some_iff.mp resumed
      cases same
    · simp only [Option.bind_eq_bind, Option.bind_eq_some_iff] at resumed
      obtain ⟨_, _, same⟩ := resumed
      cases same
      rfl
    · cases resumed
  close := by
    intro state future event later progress call resumed commits
    simp only [model] at resumed
    unfold resumeClose at resumed
    split at resumed
    · obtain ⟨_, _, same⟩ := Option.map_eq_some_iff.mp resumed
      cases same
    · rename_i answer
      cases resumed
      cases answer with
      | ok done => rfl
      | error err => cases commits
    · simp only [Option.bind_eq_bind, Option.bind_eq_some_iff] at resumed
      obtain ⟨_, _, same⟩ := resumed
      cases same
      cases commits
    · rename_i answer
      cases resumed
      cases answer with
      | ok done => rfl
      | error err => cases commits
    · cases resumed
  abort := by
    intro state future event later progress call resumed
    simp only [model] at resumed
    unfold resumeAbort at resumed
    split at resumed
    · obtain ⟨_, _, same⟩ := Option.map_eq_some_iff.mp resumed
      cases same
    · cases resumed
      rfl
    · cases resumed
  background := by
    intro state event later call moved
    obtain ⟨_, _, _, _, _, _, _, served⟩ := background_eq_some moved
    cases served
    rfl

theorem idle_new (uuid : Nat → U) (capacity : Nat) :
    Idle uuid capacity [] [] (new capacity) := by
  refine .buffering rfl ?_ rfl
  exact ⟨.nil, by simp, ⟨[], rfl, .nil⟩,
    ConcurrentTasks.aligned_new _ capacity⟩

theorem safely (uuid : Nat → U) (capacity : Nat) :
    CommitsSafely (model uuid) (spec uuid) condition (new capacity) :=
  commitsSafely (commitsLast uuid) (maintained uuid capacity)
    (idle_new uuid capacity)

end OpenDal.BlockSession
