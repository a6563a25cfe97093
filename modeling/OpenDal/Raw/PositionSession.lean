import OpenDal.Layers.CompleteWriter
import OpenDal.Raw.PositionUpload

/-!
# Sessions of a position writer

Any sequence of calls, any failures of the service.  Two things make a writer
lose track of the file: an `abort` that has dropped bytes and fails, and a
`close` that has written the last buffer and fails to close the file.  The
second does not move `next_offset` behind the buffer, so the next `write` would
be put on top of it.
-/

namespace OpenDal.PositionSession

open PositionWriter
open PositionUpload (tiles size size_append tiles_append)

/-- A call of the service and its answer. -/
inductive ServiceCall where
  | writeAllAt (input : PositionInput) (reply : WriteReply)
  | close (answer : Except Error Unit)
  | abort (answer : Except Error Unit)

inductive Event where
  | poll
  | wroteLast (answer : Except Error Unit)
  | closed (answer : Except Error Unit)
  | aborted (answer : Except Error Unit)
  | finish (position : Nat) (reply : WriteReply)
  | finishAwaited (reply : WriteReply)

def resumeWrite (writer : PositionWriter) :
    WriteFuture → Event →
      Option (PositionWriter × WriteProgress × Option ServiceCall)
  | future, .poll => (writer.pollWrite future).map
      fun (writer, progress) => (writer, progress, none)
  | .executing bs length (.awaitingTask (.running input)),
      .finishAwaited reply => do
      let future ← ExecuteFuture.finish positionTask.factory reply
        (.awaitingTask (.running input))
      some (writer, .suspended (.executing bs length future),
        some (.writeAllAt input reply))
  | _, _ => none

def resumeClose (writer : PositionWriter) :
    CloseFuture → Event →
      Option (PositionWriter × CloseProgress × Option ServiceCall)
  | future, .poll => (writer.pollClose future).map
      fun (writer, progress) => (writer, progress, none)
  | .writingLast offset buffer, .wroteLast answer =>
      some ((writer.wroteLast answer).1, (writer.wroteLast answer).2,
        some (.writeAllAt ⟨offset, buffer⟩ (.answered answer)))
  | .closing, .closed answer =>
      some (writer, .returned answer, some (.close answer))
  | _, _ => none

def resumeAbort (writer : PositionWriter) :
    AbortFuture → Event →
      Option (PositionWriter × AbortProgress × Option ServiceCall)
  | future, .poll => (writer.pollAbort future).map
      fun (writer, progress) => (writer, progress, none)
  | .aborting _, .aborted answer =>
      some (writer, .returned answer, some (.abort answer))
  | _, _ => none

/-- A task in the queue comes to its end. -/
def background (writer : PositionWriter) :
    Event → Option (PositionWriter × Option ServiceCall)
  | .finish position reply => do
      let tasks ← writer.tasks.finish positionTask.factory position reply
      match writer.tasks.tasks[position]? with
      | some (.running input) =>
          some ({ writer with tasks }, some (.writeAllAt input reply))
      | _ => none
  | _ => none

def model : OioWrite PositionWriter WriteFuture CloseFuture AbortFuture Event
    ServiceCall where
  write := .unresumed
  close := .draining .unresumed
  abort := .unresumed
  resumeWrite := resumeWrite
  resumeClose := resumeClose
  resumeAbort := resumeAbort
  background := background

abbrev Session : Type :=
  WriterSession PositionWriter WriteFuture CloseFuture AbortFuture ServiceCall

/-! ## What a commit covers -/

/-- The input has been written. -/
def Written (log : List ServiceCall) (input : PositionInput) : Prop :=
  .writeAllAt input (.answered (.ok ())) ∈ log

theorem written_append {log extra : List ServiceCall} (input : PositionInput)
    (written : Written log input) : Written (log ++ extra) input :=
  List.mem_append_left extra written

theorem written_of_succeeded {log : List ServiceCall} {input : PositionInput}
    {reply : WriteReply} (succeeded : reply.succeeded = true) :
    Written (log ++ [.writeAllAt input reply]) input := by
  match reply, succeeded with
  | .answered (.ok ()), _ => simp [Written]

def isCommit : ServiceCall → Bool
  | .close (.ok ()) => true
  | _ => false

/-- Every buffer has been written behind the one before it, and nothing else
has. -/
structure Tiled (accepted : List Buffer) (log : List ServiceCall) : Prop where
  written : ∀ tile ∈ tiles 0 accepted, Written log tile
  placed : ∀ input, Written log input → input ∈ tiles 0 accepted

def Covers (accepted : List Buffer) (log : List ServiceCall) :
    ServiceCall → Prop
  | .close _ => Tiled accepted log
  | _ => True

def spec : CommitSpec ServiceCall where
  isCommit := isCommit
  covers := Covers

/-- Clearing this writer drops bytes that have not been written. -/
def Loses (writer : PositionWriter) : Prop :=
  writer.tasks.errored = false ∧
    (writer.cache ≠ none ∨ ¬ ∀ task ∈ writer.tasks.tasks, ∃ input output,
      task = .ready input (.ok output))

/-- The file ends where the accepted writes end. -/
def AtEnd (accepted : List Buffer) (writer : PositionWriter) : Prop :=
  writer.nextOffset + size writer.cache.toList = size accepted

/-- `abort` of the service does not fail when something is dropped. -/
def KeepsBytes : CallFuture WriteFuture CloseFuture AbortFuture → Event → Prop
  | .abort (.aborting found), .aborted (.error _) => ¬ Loses found
  | _, _ => True

/-- `write` is not called with the offset behind the end of the file. -/
def Continues (accepted : List Buffer) (writer : PositionWriter) :
    WriteCall → Prop
  | .write _ => writer.tasks.errored = true ∨ AtEnd accepted writer
  | _ => True

def condition : SessionCondition PositionWriter WriteFuture CloseFuture
    AbortFuture Event where
  call := Continues
  resume := KeepsBytes

/-! ## The invariant -/

def contract (log : List ServiceCall) :
    Contract PositionInput PositionInput Unit :=
  positionTask.lenientContract (Written log)

/-- The buffers `sent` have been submitted; the orders `open_` are still in
the queue. -/
structure Sending (capacity : Nat) (accepted : List Buffer)
    (log : List ServiceCall) (writer : PositionWriter) (sent : List Buffer)
    (open_ : List PositionInput) : Prop where
  split : accepted = sent ++ writer.cache.toList
  offset : writer.nextOffset = size sent
  collected : ∃ done, tiles 0 sent = done ++ open_ ∧
    ∀ tile ∈ done, Written log tile
  placed : ∀ input, Written log input → input ∈ tiles 0 accepted
  aligned : writer.tasks.Aligned (contract log) capacity open_

/-- Everything has been written. -/
structure Complete (capacity : Nat) (accepted : List Buffer)
    (log : List ServiceCall) (writer : PositionWriter) : Prop where
  uncached : writer.cache = none
  tiled : Tiled accepted log
  aligned : writer.tasks.Aligned (contract log) capacity []

/-- The state in which `write` may be called. -/
inductive Ready (capacity : Nat) (accepted : List Buffer)
    (log : List ServiceCall) (writer : PositionWriter) : Prop where
  | sending {sent : List Buffer} {open_ : List PositionInput}
      (sending : Sending capacity accepted log writer sent open_)
  | down (errored : writer.tasks.errored = true)

/-- The state between two calls. -/
inductive Idle (capacity : Nat) (accepted : List Buffer)
    (log : List ServiceCall) (writer : PositionWriter) : Prop where
  | ready (ready : Ready capacity accepted log writer)
  | complete (complete : Complete capacity accepted log writer)

/-- An `execute` that submits the cached buffer. -/
inductive Submitting (capacity : Nat) (accepted : List Buffer)
    (log : List ServiceCall) (writer : PositionWriter) (length : Nat)
    (future : PositionFuture) : Prop where
  | placing {sent : List Buffer} {open_ : List PositionInput}
      {bytes : Buffer}
      (sending : Sending capacity accepted log writer sent open_)
      (cached : writer.cache = some bytes) (measured : length = bytes.len)
      (places : future.Places (contract log) capacity
        ⟨writer.nextOffset, bytes⟩)
  | down {input : PositionInput} (errored : writer.tasks.errored = true)
      (fresh : future = .unresumed input)

def Writing (capacity : Nat) (accepted : List Buffer)
    (log : List ServiceCall) (writer : PositionWriter) (bs : Buffer) :
    WriteFuture → Prop
  | .unresumed new => new = bs ∧ Ready capacity accepted log writer
  | .executing new length future => new = bs ∧
      Submitting capacity accepted log writer length future

/-- The loop of `close`. -/
inductive Draining (capacity : Nat) (accepted : List Buffer)
    (log : List ServiceCall) (writer : PositionWriter)
    (future : NextFuture) : Prop where
  | sending {sent : List Buffer} {open_ : List PositionInput}
      (sending : Sending capacity accepted log writer sent open_)
      (waits : future.Waits writer.tasks)
  | complete (complete : Complete capacity accepted log writer)
      (waits : future.Waits writer.tasks)
  | down (errored : writer.tasks.errored = true) (fresh : future = .unresumed)

def Closing (capacity : Nat) (accepted : List Buffer)
    (log : List ServiceCall) (writer : PositionWriter) : CloseFuture → Prop
  | .draining future => Draining capacity accepted log writer future
  | .writingLast offset buffer => offset = writer.nextOffset ∧
      writer.cache = some buffer ∧
      ∃ sent, Sending capacity accepted log writer sent []
  | .closing => Complete capacity accepted log writer

def Aborting (capacity : Nat) (accepted : List Buffer)
    (log : List ServiceCall) (writer : PositionWriter) : AbortFuture → Prop
  | .unresumed => Idle capacity accepted log writer
  | .aborting found => ¬ Loses found → Idle capacity accepted log writer

def stages (capacity : Nat) :
    Stages PositionWriter WriteFuture CloseFuture AbortFuture
      ServiceCall where
  idle := Idle capacity
  writing := Writing capacity
  closing := Closing capacity
  aborting := Aborting capacity

variable {capacity : Nat} {accepted : List Buffer}
  {log extra : List ServiceCall} {writer later : PositionWriter}
  {sent : List Buffer} {open_ : List PositionInput}
  {tasks : ConcurrentTasks PositionInput Unit}

/-! ## A growing log -/

theorem contract_weaker :
    (contract log).Weaker (contract (log ++ extra)) :=
  WriteTask.lenientContract_weaker written_append

/-- Only calls other than successful writes are added. -/
def Inert (calls : List ServiceCall) : Prop :=
  ∀ input, ¬ Written calls input

theorem inert_close (answer : Except Error Unit) :
    Inert [.close answer] := by
  simp [Inert, Written]

theorem inert_abort (answer : Except Error Unit) :
    Inert [.abort answer] := by
  simp [Inert, Written]

/-- What has been written after a write that belongs to a tile. -/
theorem placed_append {input : PositionInput} (reply : WriteReply)
    (placed : ∀ input, Written log input → input ∈ tiles 0 accepted)
    (member : input ∈ tiles 0 accepted) :
    ∀ other, Written (log ++ [.writeAllAt input reply]) other →
      other ∈ tiles 0 accepted := by
  intro other written
  rcases List.mem_append.mp written with earlier | last
  · exact placed other earlier
  · simp only [List.mem_singleton, ServiceCall.writeAllAt.injEq] at last
    rw [last.1]
    exact member

theorem placed_inert (inert : Inert extra)
    (placed : ∀ input, Written log input → input ∈ tiles 0 accepted) :
    ∀ other, Written (log ++ extra) other → other ∈ tiles 0 accepted := by
  intro other written
  rcases List.mem_append.mp written with earlier | last
  · exact placed other earlier
  · exact absurd last (inert other)

theorem Sending.growLog (sending : Sending capacity accepted log writer sent
      open_)
    (placed : ∀ input, Written (log ++ extra) input →
      input ∈ tiles 0 accepted) :
    Sending capacity accepted (log ++ extra) writer sent open_ := by
  obtain ⟨done, split, written⟩ := sending.collected
  exact
    { split := sending.split
      offset := sending.offset
      collected := ⟨done, split, fun tile member =>
        written_append tile (written tile member)⟩
      placed := placed
      aligned := sending.aligned.mono contract_weaker }

theorem Complete.growLog (complete : Complete capacity accepted log writer)
    (placed : ∀ input, Written (log ++ extra) input →
      input ∈ tiles 0 accepted) :
    Complete capacity accepted (log ++ extra) writer where
  uncached := complete.uncached
  tiled :=
    { written := fun tile member =>
        written_append tile (complete.tiled.written tile member)
      placed := placed }
  aligned := complete.aligned.mono contract_weaker

theorem Idle.growLog (idle : Idle capacity accepted log writer)
    (inert : Inert extra) : Idle capacity accepted (log ++ extra) writer := by
  cases idle with
  | complete complete =>
      exact .complete
        (complete.growLog (placed_inert inert complete.tiled.placed))
  | ready ready =>
      cases ready with
      | down errored => exact .ready (.down errored)
      | sending sending =>
          exact .ready (.sending
            (sending.growLog (placed_inert inert sending.placed)))

theorem Sending.mem_tiles
    (sending : Sending capacity accepted log writer sent open_)
    {order : PositionInput} (member : order ∈ open_) :
    order ∈ tiles 0 accepted := by
  obtain ⟨done, split, _⟩ := sending.collected
  rw [sending.split, tiles_append, split]
  simp [member]

theorem Sending.cached_mem_tiles {bytes : Buffer}
    (sending : Sending capacity accepted log writer sent open_)
    (cached : writer.cache = some bytes) :
    ⟨writer.nextOffset, bytes⟩ ∈ tiles 0 accepted := by
  rw [sending.split, tiles_append, cached, sending.offset]
  simp [tiles]

/-! ## The end of a task -/

section Background

variable {position : Nat} {reply : WriteReply} {input : PositionInput}

theorem Sending.finish
    (sending : Sending capacity accepted log writer sent open_)
    (finished : writer.tasks.finish positionTask.factory position reply =
      some tasks)
    (running : writer.tasks.tasks[position]? = some (.running input)) :
    Sending capacity accepted (log ++ [.writeAllAt input reply])
      { writer with tasks } sent open_ := by
  obtain ⟨order, member, rfl⟩ := sending.aligned.serves_running running
  have grown := sending.growLog
    (placed_append reply sending.placed (sending.mem_tiles member))
  exact
    { split := sending.split
      offset := sending.offset
      collected := grown.collected
      placed := grown.placed
      aligned := WriteTask.lenient_aligned_finish sending.aligned finished
        running written_append written_of_succeeded }

theorem Complete.not_running
    (complete : Complete capacity accepted log writer)
    (running : writer.tasks.tasks[position]? = some (.running input)) :
    False := by
  simp [complete.aligned.eq_nil.2] at running

theorem errored_finish (errored : writer.tasks.errored = true)
    (finished : writer.tasks.finish positionTask.factory position reply =
      some tasks) : tasks.errored = true :=
  (ConcurrentTasks.finish_keeps finished).2.trans errored

theorem Ready.finish (ready : Ready capacity accepted log writer)
    (finished : writer.tasks.finish positionTask.factory position reply =
      some tasks)
    (running : writer.tasks.tasks[position]? = some (.running input)) :
    Ready capacity accepted (log ++ [.writeAllAt input reply])
      { writer with tasks } := by
  cases ready with
  | sending sending => exact .sending (sending.finish finished running)
  | down errored => exact .down (errored_finish errored finished)

theorem Idle.finish (idle : Idle capacity accepted log writer)
    (finished : writer.tasks.finish positionTask.factory position reply =
      some tasks)
    (running : writer.tasks.tasks[position]? = some (.running input)) :
    Idle capacity accepted (log ++ [.writeAllAt input reply])
      { writer with tasks } := by
  cases idle with
  | ready ready => exact .ready (ready.finish finished running)
  | complete complete => exact (complete.not_running running).elim

theorem Submitting.finish {length : Nat} {future : PositionFuture}
    (submitting : Submitting capacity accepted log writer length future)
    (finished : writer.tasks.finish positionTask.factory position reply =
      some tasks)
    (running : writer.tasks.tasks[position]? = some (.running input)) :
    Submitting capacity accepted (log ++ [.writeAllAt input reply])
      { writer with tasks } length future := by
  cases submitting with
  | placing sending cached measured places =>
      exact .placing (sending.finish finished running) cached measured
        (places.mono contract_weaker)
  | down errored fresh =>
      exact .down (errored_finish errored finished) fresh

theorem Draining.finish {future : NextFuture}
    (draining : Draining capacity accepted log writer future)
    (finished : writer.tasks.finish positionTask.factory position reply =
      some tasks)
    (running : writer.tasks.tasks[position]? = some (.running input)) :
    Draining capacity accepted (log ++ [.writeAllAt input reply])
      { writer with tasks } future := by
  cases draining with
  | sending sending waits =>
      exact .sending (sending.finish finished running) (waits.finish finished)
  | complete complete _ => exact (complete.not_running running).elim
  | down errored fresh =>
      exact .down (errored_finish errored finished) fresh

theorem holds_finish
    (call : Option (CallFuture WriteFuture CloseFuture AbortFuture))
    (holds : (stages capacity).Holds accepted log writer call)
    (finished : writer.tasks.finish positionTask.factory position reply =
      some tasks)
    (running : writer.tasks.tasks[position]? = some (.running input)) :
    (stages capacity).Holds accepted (log ++ [.writeAllAt input reply])
      { writer with tasks } call := by
  cases call with
  | none => exact Idle.finish holds finished running
  | some call =>
      cases call with
      | write bs future =>
          cases future with
          | unresumed new =>
              obtain ⟨same, ready⟩ := holds
              exact ⟨same, ready.finish finished running⟩
          | executing new length future =>
              obtain ⟨same, submitting⟩ := holds
              exact ⟨same, submitting.finish finished running⟩
      | close future =>
          cases future with
          | draining future => exact Draining.finish holds finished running
          | writingLast offset buffer =>
              obtain ⟨same, cached, sent, sending⟩ := holds
              exact ⟨same, cached, sent, sending.finish finished running⟩
          | closing => exact (Complete.not_running holds running).elim
      | abort future =>
          cases future with
          | unresumed => exact Idle.finish holds finished running
          | aborting found =>
              intro keeps
              exact Idle.finish (holds keeps) finished running

end Background

/-! ## `write` -/

/-- What resuming `execute` comes to. -/
def AfterExecute (capacity : Nat) (accepted : List Buffer)
    (log : List ServiceCall) (writer : PositionWriter) (length : Nat) :
    Progress PositionFuture (Except Error Unit) → Prop
  | .suspended future =>
      Submitting capacity accepted log writer length future
  | .returned (.ok ()) => ∃ open_, Sending capacity accepted log
      { writer with
        cache := none
        nextOffset := writer.nextOffset + length }
      accepted open_
  | .returned (.error _) => Ready capacity accepted log writer
  | .panicked _ => False

theorem Sending.withTasks
    (sending : Sending capacity accepted log writer sent open_)
    (aligned : tasks.Aligned (contract log) capacity open_) :
    Sending capacity accepted log { writer with tasks } sent open_ :=
  ⟨sending.split, sending.offset, sending.collected, sending.placed, aligned⟩

theorem Sending.submit {bytes : Buffer}
    (sending : Sending capacity accepted log writer sent open_)
    (cached : writer.cache = some bytes)
    (aligned : tasks.Aligned (contract log) capacity
      (open_ ++ [⟨writer.nextOffset, bytes⟩])) :
    Sending capacity accepted log
      { writer with
        tasks
        cache := none
        nextOffset := writer.nextOffset + bytes.len }
      accepted (open_ ++ [⟨writer.nextOffset, bytes⟩]) := by
  have split : accepted = sent ++ [bytes] := by
    simpa [cached] using sending.split
  obtain ⟨done, ordered, written⟩ := sending.collected
  refine ⟨by simp, ?_, ⟨done, ?_, written⟩, sending.placed, aligned⟩
  · rw [split, size_append, ← sending.offset]
    simp [size]
  · rw [split, tiles_append, ordered, ← Nat.zero_add (size sent),
      ← sending.offset]
    simp [tiles, sending.offset]

theorem Submitting.poll {length : Nat} {future : PositionFuture}
    {progress : Progress PositionFuture (Except Error Unit)}
    (submitting : Submitting capacity accepted log writer length future)
    (polled : writer.tasks.pollExecute future = some (tasks, progress)) :
    AfterExecute capacity accepted log { writer with tasks } length
      progress := by
  cases submitting with
  | down errored fresh =>
      subst fresh
      simp only [ConcurrentTasks.pollExecute, errored, if_true,
        Option.some.injEq, Prod.mk.injEq] at polled
      obtain ⟨rfl, rfl⟩ := polled
      exact Ready.down errored
  | placing sending cached measured places =>
      subst measured
      have outcome := sending.aligned.pollExecute places polled
      cases outcome with
      | accepted aligned => exact ⟨_, sending.submit cached aligned⟩
      | refused fails aligned =>
          exact Ready.sending (sending.withTasks (aligned fails))
      | gaveUp _ _ errored => exact Ready.down errored
      | suspended aligned places =>
          exact Submitting.placing (sending.withTasks aligned) cached rfl
            places

theorem Submitting.finishAwaited {length : Nat} {input : PositionInput}
    {reply : WriteReply} {future : PositionFuture}
    (submitting : Submitting capacity accepted log writer length
      (.awaitingTask (.running input)))
    (finished : ExecuteFuture.finish positionTask.factory reply
      (.awaitingTask (.running input)) = some future) :
    Submitting capacity accepted (log ++ [.writeAllAt input reply]) writer
      length future := by
  cases submitting with
  | down _ fresh => cases fresh
  | placing sending cached measured places =>
      have same : input = ⟨writer.nextOffset, _⟩ := places.1
      have member : input ∈ tiles 0 accepted :=
        same ▸ sending.cached_mem_tiles cached
      refine .placing
        (sending.growLog (placed_append reply sending.placed member)) cached
        measured ?_
      exact WriteTask.lenient_places_finish places finished written_append
        written_of_succeeded

theorem Sending.fill
    (sending : Sending capacity accepted log writer accepted open_)
    (bs : Buffer) :
    Sending capacity (accepted ++ [bs]) log
      { writer with cache := some bs } accepted open_ := by
  refine ⟨rfl, sending.offset, sending.collected, ?_, sending.aligned⟩
  intro input written
  rw [tiles_append]
  exact List.mem_append_left _ (sending.placed input written)

theorem writing_pollWrite {bs : Buffer} {future : WriteFuture}
    {progress : WriteProgress}
    (writing : Writing capacity accepted log writer bs future)
    (polled : writer.pollWrite future = some (later, progress)) :
    (stages capacity).AfterWrite False accepted log later bs progress := by
  cases future with
  | unresumed new =>
      obtain ⟨rfl, ready⟩ := writing
      simp only [pollWrite] at polled
      split at polled
      · rename_i empty
        rw [fillCache, empty, Option.some.injEq, Prod.mk.injEq] at polled
        obtain ⟨rfl, rfl⟩ := polled
        cases ready with
        | sending sending =>
            have all := sending.split
            simp only [empty, Option.toList_none, List.append_nil] at all
            subst all
            exact .ready (.sending (sending.fill new))
        | down errored => exact .ready (.down errored)
      · rename_i bytes cached
        cases polled
        refine ⟨rfl, ?_⟩
        cases ready with
        | sending sending => exact .placing sending cached rfl rfl
        | down errored => exact .down errored rfl
  | executing new length future =>
      obtain ⟨rfl, submitting⟩ := writing
      simp only [pollWrite, Option.bind_eq_bind,
        Option.bind_eq_some_iff] at polled
      obtain ⟨⟨tasks, executed⟩, resumed, same⟩ := polled
      have after := submitting.poll resumed
      cases executed with
      | suspended future =>
          cases same
          exact ⟨rfl, after⟩
      | returned result =>
          cases result with
          | ok done =>
              obtain ⟨open_, sending⟩ := after
              cases same
              exact .ready (.sending (sending.fill new))
          | error err =>
              cases same
              exact .ready after
      | panicked message => exact after.elim

theorem writing_resume {bs : Buffer} {future : WriteFuture} {event : Event}
    {progress : WriteProgress} {served : Option ServiceCall}
    (writing : Writing capacity accepted log writer bs future)
    (resumed : resumeWrite writer future event =
      some (later, progress, served)) :
    (∀ call, served = some call → isCommit call = false) ∧
      (stages capacity).AfterWrite False accepted (log ++ served.toList)
        later bs progress := by
  unfold resumeWrite at resumed
  split at resumed
  · obtain ⟨⟨next, after⟩, polled, same⟩ := Option.map_eq_some_iff.mp resumed
    cases same
    refine ⟨by simp, ?_⟩
    simpa using writing_pollWrite writing polled
  · simp only [Option.bind_eq_bind, Option.bind_eq_some_iff] at resumed
    obtain ⟨next, finished, same⟩ := resumed
    cases same
    obtain ⟨rfl, submitting⟩ := writing
    exact ⟨by simp [isCommit], rfl, submitting.finishAwaited finished⟩
  · cases resumed

/-! ## `close` -/

theorem Sending.written (sending : Sending capacity accepted log writer sent [])
    {tile : PositionInput} (member : tile ∈ tiles 0 sent) :
    Written log tile := by
  obtain ⟨done, split, written⟩ := sending.collected
  rw [split, List.append_nil] at member
  exact written tile member

theorem Sending.complete
    (sending : Sending capacity accepted log writer sent [])
    (uncached : writer.cache = none) :
    Complete capacity accepted log writer where
  uncached := uncached
  tiled :=
    { written := by
        intro tile member
        rw [sending.split, uncached, Option.toList_none,
          List.append_nil] at member
        exact sending.written member
      placed := sending.placed }
  aligned := sending.aligned

theorem Sending.wroteLast {buffer : Buffer}
    (sending : Sending capacity accepted log writer sent [])
    (cached : writer.cache = some buffer) :
    Complete capacity accepted
      (log ++ [.writeAllAt ⟨writer.nextOffset, buffer⟩ (.answered (.ok ()))])
      { writer with cache := none } where
  uncached := rfl
  tiled :=
    { written := by
        intro tile member
        rw [sending.split, cached, tiles_append, Option.toList_some,
          List.mem_append] at member
        rcases member with earlier | last
        · exact written_append tile (sending.written earlier)
        · simp only [tiles, List.mem_singleton, Nat.zero_add] at last
          rw [last, ← sending.offset]
          simp [Written]
      placed := placed_append _ sending.placed
        (sending.cached_mem_tiles cached) }
  aligned := sending.aligned.mono contract_weaker

theorem Draining.poll {future : NextFuture} {progress : CloseProgress}
    (draining : Draining capacity accepted log writer future)
    (polled : writer.pollClose (.draining future) = some (later, progress)) :
    (stages capacity).AfterClose False accepted log later progress := by
  simp only [pollClose, Option.bind_eq_bind, Option.bind_eq_some_iff]
    at polled
  obtain ⟨⟨tasks, next⟩, resumed, same⟩ := polled
  cases draining with
  | sending sending waits =>
      have outcome := sending.aligned.pollNext waits resumed
      cases outcome with
      | @delivered order _ _ oldest delivers aligned =>
          subst oldest
          cases same
          obtain ⟨done, split, written⟩ := sending.collected
          refine .sending ⟨sending.split, sending.offset,
            ⟨done ++ [order], by simp [split], ?_⟩, sending.placed, aligned⟩
            trivial
          intro tile member
          rcases List.mem_append.mp member with earlier | last
          · exact written tile earlier
          · rw [List.mem_singleton.mp last]
            exact delivers.2
      | failed fails aligned =>
          cases same
          exact .ready (.sending (sending.withTasks (aligned fails)))
      | gaveUp _ _ errored =>
          cases same
          exact .ready (.down errored)
      | drained empty aligned =>
          subst empty
          have kept := sending.withTasks aligned
          simp only at same
          split at same
          · rename_i buffer cached
            cases same
            exact ⟨rfl, cached, _, kept⟩
          · rename_i uncached
            cases same
            exact kept.complete uncached
      | suspended aligned waits =>
          cases same
          exact .sending (sending.withTasks aligned) waits
  | complete complete waits =>
      have outcome := complete.aligned.pollNext waits resumed
      cases outcome with
      | delivered oldest => cases oldest
      | failed fails aligned =>
          cases same
          exact .complete
            ⟨complete.uncached, complete.tiled, aligned fails⟩
      | gaveUp _ _ errored =>
          cases same
          exact .ready (.down errored)
      | drained _ aligned =>
          simp only [complete.uncached] at same
          cases same
          exact ⟨rfl, complete.tiled, aligned⟩
      | suspended aligned waits =>
          cases same
          exact .complete ⟨complete.uncached, complete.tiled, aligned⟩ waits
  | down errored fresh =>
      subst fresh
      simp only [ConcurrentTasks.pollNext, errored, if_true,
        Option.some.injEq, Prod.mk.injEq] at resumed
      obtain ⟨rfl, rfl⟩ := resumed
      cases same
      exact .ready (.down errored)

theorem closing_resume {future : CloseFuture} {event : Event}
    {progress : CloseProgress} {served : Option ServiceCall}
    (closing : Closing capacity accepted log writer future)
    (resumed : resumeClose writer future event =
      some (later, progress, served)) :
    (∀ call, served = some call → isCommit call = true →
      progress = .returned (.ok ()) ∧ Covers accepted log call) ∧
      (stages capacity).AfterClose False accepted (log ++ served.toList)
        later progress := by
  unfold resumeClose at resumed
  split at resumed
  · obtain ⟨⟨next, after⟩, polled, same⟩ := Option.map_eq_some_iff.mp resumed
    cases same
    refine ⟨by simp, ?_⟩
    simp only [Option.toList_none, List.append_nil]
    cases future with
    | draining future => exact Draining.poll closing polled
    | writingLast offset buffer => cases polled
    | closing => cases polled
  · rename_i offset buffer answer
    obtain ⟨rfl, cached, sent, sending⟩ := closing
    cases resumed
    refine ⟨by simp [isCommit], ?_⟩
    cases answer with
    | ok done => exact sending.wroteLast cached
    | error err =>
        have member := sending.cached_mem_tiles cached
        exact .ready (.sending
          (sending.growLog (placed_append _ sending.placed member)))
  · rename_i answer
    cases resumed
    cases answer with
    | ok done =>
        refine ⟨?_, trivial⟩
        intro call same _
        cases same
        exact ⟨rfl, Complete.tiled closing⟩
    | error err =>
        refine ⟨by simp [isCommit], ?_⟩
        exact (Idle.complete closing).growLog (inert_close _)
  · cases resumed

/-! ## `abort` -/

/-- Clearing the writer does no harm if all it drops has been written. -/
theorem Idle.clear (idle : Idle capacity accepted log writer)
    (keeps : ¬ Loses writer) :
    Idle capacity accepted log
      { writer with tasks := writer.tasks.clear, cache := none } := by
  cases idle with
  | complete complete =>
      exact .complete ⟨rfl, complete.tiled, complete.aligned.clear⟩
  | ready ready =>
      cases ready with
      | down errored => exact .ready (.down errored)
      | sending sending =>
          simp only [Loses, sending.aligned.healthy, true_and, not_or, ne_eq,
            not_not] at keeps
          obtain ⟨uncached, succeeded⟩ := keeps
          have delivered := sending.aligned.delivers_of_succeeded succeeded
          obtain ⟨done, split, written⟩ := sending.collected
          refine .ready (.sending ⟨?_, sending.offset,
            ⟨tiles 0 _, (List.append_nil _).symm, ?_⟩, sending.placed,
            sending.aligned.clear⟩)
          · simpa [uncached] using sending.split
          · intro tile member
            rw [split] at member
            rcases List.mem_append.mp member with earlier | last
            · exact written tile earlier
            · obtain ⟨_, delivers⟩ := delivered tile last
              exact delivers.2

theorem aborting_resume {future : AbortFuture} {event : Event}
    {progress : AbortProgress} {served : Option ServiceCall}
    (aborting : Aborting capacity accepted log writer future)
    (keeps : KeepsBytes (.abort future) event)
    (resumed : resumeAbort writer future event =
      some (later, progress, served)) :
    (∀ call, served = some call → isCommit call = false) ∧
      (stages capacity).AfterAbort False accepted (log ++ served.toList)
        later progress := by
  unfold resumeAbort at resumed
  split at resumed
  · obtain ⟨⟨next, after⟩, polled, same⟩ := Option.map_eq_some_iff.mp resumed
    cases same
    refine ⟨by simp, ?_⟩
    simp only [Option.toList_none, List.append_nil]
    cases future with
    | aborting found => cases polled
    | unresumed =>
        cases polled
        intro keeps
        exact Idle.clear aborting keeps
  · rename_i found answer
    cases resumed
    refine ⟨by simp [isCommit], ?_⟩
    cases answer with
    | ok done => trivial
    | error err => exact (aborting keeps).growLog (inert_abort _)
  · cases resumed

/-! ## All sessions -/

theorem background_eq_some {event : Event} {served : Option ServiceCall}
    (moved : background writer event = some (later, served)) :
    ∃ position reply input tasks,
      writer.tasks.finish positionTask.factory position reply = some tasks ∧
        writer.tasks.tasks[position]? = some (.running input) ∧
        later = { writer with tasks } ∧
        served = some (.writeAllAt input reply) := by
  unfold background at moved
  split at moved
  · rename_i position reply
    simp only [Option.bind_eq_bind, Option.bind_eq_some_iff] at moved
    obtain ⟨tasks, finished, same⟩ := moved
    split at same
    · rename_i input running
      cases same
      exact ⟨position, reply, input, tasks, finished, running, rfl, rfl⟩
    · cases same
  · cases moved

/-- A file that is complete can be continued at its end. -/
theorem Idle.ready_of_atEnd (idle : Idle capacity accepted log writer)
    (continues : writer.tasks.errored = true ∨ AtEnd accepted writer) :
    Ready capacity accepted log writer := by
  cases idle with
  | ready ready => exact ready
  | complete complete =>
      rcases continues with errored | atEnd
      · exact .down errored
      · simp only [AtEnd, complete.uncached, Option.toList_none] at atEnd
        have sending : Sending capacity accepted log writer accepted [] :=
          { split := by simp [complete.uncached]
            offset := by simpa [size] using atEnd
            collected := ⟨tiles 0 accepted, (List.append_nil _).symm,
              complete.tiled.written⟩
            placed := complete.tiled.placed
            aligned := complete.aligned }
        exact .sending sending

theorem Idle.draining (idle : Idle capacity accepted log writer) :
    Draining capacity accepted log writer .unresumed := by
  cases idle with
  | complete complete => exact .complete complete trivial
  | ready ready =>
      cases ready with
      | sending sending => exact .sending sending trivial
      | down errored => exact .down errored rfl

theorem maintained (capacity : Nat) :
    (stages capacity).Maintained model spec condition False where
  start := by
    intro accepted log writer call idle continues
    cases call with
    | write bs => exact ⟨rfl, Idle.ready_of_atEnd idle continues⟩
    | close => exact Idle.draining idle
    | abort => exact idle
  resumeWrite := fun writing _ resumed => writing_resume writing resumed
  resumeClose := fun closing _ resumed => closing_resume closing resumed
  resumeAbort := fun aborting keeps resumed =>
    aborting_resume aborting keeps resumed
  background := by
    intro accepted log writer event later served call holds moved
    obtain ⟨position, reply, input, tasks, finished, running, rfl, rfl⟩ :=
      background_eq_some moved
    exact ⟨by simp [spec, isCommit], holds_finish call holds finished running⟩

theorem commitsLast : CommitsLast model spec where
  write := by
    intro writer future event later progress call resumed
    simp only [model] at resumed
    unfold resumeWrite at resumed
    split at resumed
    · obtain ⟨_, _, same⟩ := Option.map_eq_some_iff.mp resumed
      cases same
    · simp only [Option.bind_eq_bind, Option.bind_eq_some_iff] at resumed
      obtain ⟨_, _, same⟩ := resumed
      cases same
      rfl
    · cases resumed
  close := by
    intro writer future event later progress call resumed commits
    simp only [model] at resumed
    unfold resumeClose at resumed
    split at resumed
    · obtain ⟨_, _, same⟩ := Option.map_eq_some_iff.mp resumed
      cases same
    · cases resumed
      cases commits
    · rename_i answer
      cases resumed
      cases answer with
      | ok done => rfl
      | error err => cases commits
    · cases resumed
  abort := by
    intro writer future event later progress call resumed
    simp only [model] at resumed
    unfold resumeAbort at resumed
    split at resumed
    · obtain ⟨_, _, same⟩ := Option.map_eq_some_iff.mp resumed
      cases same
    · cases resumed
      rfl
    · cases resumed
  background := by
    intro writer event later call moved
    obtain ⟨_, _, _, _, _, _, _, served⟩ := background_eq_some moved
    cases served
    rfl

theorem idle_new (capacity : Nat) :
    Idle capacity [] [] (PositionWriter.new capacity) := by
  have sending : Sending capacity [] [] (PositionWriter.new capacity) []
      [] :=
    { split := rfl
      offset := rfl
      collected := ⟨[], rfl, by simp⟩
      placed := by simp [Written]
      aligned := ConcurrentTasks.aligned_new _ capacity }
  exact .ready (.sending sending)

theorem safely (capacity : Nat) :
    CommitsSafely model spec condition (PositionWriter.new capacity) :=
  commitsSafely commitsLast (maintained capacity) (idle_new capacity)

end OpenDal.PositionSession
