import OpenDal.Raw.MultipartSession
import OpenDal.Raw.BlockSession
import OpenDal.Raw.PositionSession

/-!
# Panics of the three writers

The task queue never runs into one of its `expect`s.  Neither does a position
writer.  The other two writers expect a cached buffer once the upload has been
started; there is none after a `close` that got as far as its last step, or
after a failed `abort`, and the next `write` panics.

What is shown of a call that does not panic is that it is never stuck: as long
as it is in flight, the environment can do something about it.
-/

namespace OpenDal

open Automaton

variable {I O Ω : Type}

/-! ## The queue -/

/-- There is a task to wait for. -/
def ExecuteFuture.Poised (queue : ConcurrentTasks I O) :
    ExecuteFuture I O → Prop
  | .awaitingFront _ => 1 < queue.capacity ∧ queue.tasks ≠ []
  | _ => True

def NextFuture.Poised (queue : ConcurrentTasks I O) : NextFuture → Prop
  | .awaitingFront => queue.tasks ≠ []
  | .unresumed => True

/-- A call that returns, or waits for what it is poised for. -/
inductive Progress.Waits {F α : Type} (poised : F → Prop) :
    Progress F α → Prop where
  | suspended {future : F} (ready : poised future) :
      Waits poised (.suspended future)
  | returned {value : α} : Waits poised (.returned value)

namespace ConcurrentTasks

variable {queue later : ConcurrentTasks I O}

theorem pushOrWait_poised {input : I}
    {progress : Progress (ExecuteFuture I O) (Except Error Unit)}
    (pushed : queue.pushOrWait input = (later, progress))
    (concurrent : 1 < queue.capacity) :
    progress.Waits (·.Poised later) := by
  unfold pushOrWait at pushed
  split at pushed
  · cases pushed
    exact .returned
  · rename_i full
    split at pushed
    · rename_i empty
      simp only [empty, List.length_nil] at full
      omega
    · rename_i filled
      cases pushed
      exact .suspended ⟨concurrent, by simp [filled]⟩

theorem executeLoop_poised {input : I}
    {progress : Progress (ExecuteFuture I O) (Except Error Unit)}
    (looped : queue.executeLoop input = (later, progress))
    (concurrent : 1 < queue.capacity) :
    progress.Waits (·.Poised later) := by
  unfold executeLoop at looped
  split at looped
  · exact pushOrWait_poised looped concurrent
  · cases looped
    exact .returned
  · exact pushOrWait_poised looped concurrent

theorem pollExecute_poised {future : ExecuteFuture I O}
    {progress : Progress (ExecuteFuture I O) (Except Error Unit)}
    (poised : future.Poised queue)
    (polled : queue.pollExecute future = some (later, progress)) :
    progress.Waits (·.Poised later) := by
  cases future with
  | unresumed input =>
      simp only [pollExecute] at polled
      split at polled
      · cases polled
        exact .returned
      · split at polled
        · cases polled
          exact .suspended trivial
        · rename_i concurrent
          simp only [isConcurrent, Bool.not_eq_true', decide_eq_false_iff_not,
            not_not] at concurrent
          rw [Option.some.injEq] at polled
          exact executeLoop_poised polled concurrent
  | awaitingTask task =>
      cases task with
      | running input => cases polled
      | ready input result =>
          cases result with
          | ok output =>
              cases polled
              exact .returned
          | error err =>
              cases polled
              exact .returned
  | awaitingFront input =>
      simp only [pollExecute] at polled
      split at polled
      · rw [Option.some.injEq] at polled
        exact executeLoop_poised polled poised.1
      · cases polled
        exact .returned
      · cases polled

theorem pollNext_poised {future : NextFuture}
    {progress : Progress NextFuture (Option (Except Error O))}
    (polled : queue.pollNext future = some (later, progress)) :
    progress.Waits (·.Poised later) := by
  cases future with
  | unresumed =>
      simp only [pollNext] at polled
      split at polled
      · cases polled
        exact .returned
      · split at polled
        · cases polled
          exact .returned
        · split at polled
          · cases polled
            exact .returned
          · rename_i filled
            cases polled
            apply Progress.Waits.suspended
            simp [NextFuture.Poised, filled]
  | awaitingFront =>
      simp only [pollNext] at polled
      split at polled
      · cases polled
        exact .returned
      · cases polled
        exact .returned
      · cases polled

theorem finish_tasks_ne_nil
    {factory : I → Ω → Option (I × Except Error O)} {position : Nat} {ω : Ω}
    (finished : queue.finish factory position ω = some later)
    (filled : queue.tasks ≠ []) : later.tasks ≠ [] := by
  simp only [finish, Option.bind_eq_bind, Option.bind_eq_some_iff]
    at finished
  obtain ⟨task, _, ended, _, same⟩ := finished
  cases same
  simpa using filled

end ConcurrentTasks

theorem ExecuteFuture.Poised.finish
    {factory : I → Ω → Option (I × Except Error O)} {position : Nat} {ω : Ω}
    {queue later : ConcurrentTasks I O} {future : ExecuteFuture I O}
    (poised : future.Poised queue)
    (finished : queue.finish factory position ω = some later) :
    future.Poised later := by
  cases future with
  | unresumed input => trivial
  | awaitingTask task => trivial
  | awaitingFront input =>
      refine ⟨?_, ConcurrentTasks.finish_tasks_ne_nil finished poised.2⟩
      rw [(ConcurrentTasks.finish_keeps finished).1]
      exact poised.1

theorem NextFuture.Poised.finish
    {factory : I → Ω → Option (I × Except Error O)} {position : Nat} {ω : Ω}
    {queue later : ConcurrentTasks I O} {future : NextFuture}
    (poised : future.Poised queue)
    (finished : queue.finish factory position ω = some later) :
    future.Poised later := by
  cases future with
  | unresumed => trivial
  | awaitingFront => exact ConcurrentTasks.finish_tasks_ne_nil finished poised

theorem ExecuteFuture.poised_of_finish
    {factory : I → Ω → Option (I × Except Error O)} {ω : Ω} {task : Task I O}
    {next : ExecuteFuture I O} (queue : ConcurrentTasks I O)
    (finished : ExecuteFuture.finish factory ω (.awaitingTask task) =
      some next) : next.Poised queue := by
  obtain ⟨ended, _, same⟩ := Option.map_eq_some_iff.mp finished
  subst same
  trivial

/-- A future that is poised can be resumed, unless a task is running that it
waits for. -/
theorem ExecuteFuture.Poised.resumable {queue : ConcurrentTasks I O}
    {future : ExecuteFuture I O} (poised : future.Poised queue) :
    (∃ outcome, queue.pollExecute future = some outcome) ∨
      (∃ input, future = .awaitingTask (.running input)) ∨
      ∃ input, queue.tasks[0]? = some (.running input) := by
  cases future with
  | unresumed input =>
      left
      simp only [ConcurrentTasks.pollExecute]
      split
      · exact ⟨_, rfl⟩
      · split <;> exact ⟨_, rfl⟩
  | awaitingTask task =>
      cases task with
      | running input => exact .inr (.inl ⟨input, rfl⟩)
      | ready input result => cases result <;> exact .inl ⟨_, rfl⟩
  | awaitingFront input =>
      simp only [ConcurrentTasks.pollExecute]
      cases tasks : queue.tasks with
      | nil => exact absurd tasks poised.2
      | cons front rest =>
          cases front with
          | running started => simp
          | ready started result =>
              cases result <;> exact .inl ⟨_, rfl⟩

theorem NextFuture.Poised.resumable {queue : ConcurrentTasks I O}
    {future : NextFuture} (poised : future.Poised queue) :
    (∃ outcome, queue.pollNext future = some outcome) ∨
      ∃ input, queue.tasks[0]? = some (.running input) := by
  cases future with
  | unresumed =>
      left
      simp only [ConcurrentTasks.pollNext]
      split
      · exact ⟨_, rfl⟩
      · split
        · exact ⟨_, rfl⟩
        · split <;> exact ⟨_, rfl⟩
  | awaitingFront =>
      have filled : queue.tasks ≠ [] := poised
      simp only [ConcurrentTasks.pollNext]
      cases tasks : queue.tasks with
      | nil => exact absurd tasks filled
      | cons front rest =>
          cases front with
          | running started => simp
          | ready started result =>
              cases result <;> exact .inl ⟨_, rfl⟩

/-! ## Sessions that do not panic -/

section Sessions

variable {W WF CF AF E L : Type}

/-- The environment can do something about the call in flight. -/
def OioWrite.CanMove (model : OioWrite W WF CF AF E L) (writer : W)
    (call : CallFuture WF CF AF) : Prop :=
  ∃ event, (∃ outcome, model.background writer event = some outcome) ∨
    match call with
    | .write _ future =>
        ∃ outcome, model.resumeWrite writer future event = some outcome
    | .close future =>
        ∃ outcome, model.resumeClose writer future event = some outcome
    | .abort future =>
        ∃ outcome, model.resumeAbort writer future event = some outcome

/-- No session whose calls meet the condition panics, and no call gets
stuck. -/
def NeverPanics (model : OioWrite W WF CF AF E L)
    (condition : SessionCondition W WF CF AF E) (writer : W) : Prop :=
  ∀ (events : List (SessionEvent E)) (session : WriterSession W WF CF AF L),
    run (WriterSession.step model) (WriterSession.new writer) events =
      some session →
    Along (WriterSession.step model) condition.Meets
      (WriterSession.new writer) events →
    session.panicked = false ∧ (session.call.isSome = true →
      ∃ event, (session.step model event).isSome = true)

/-- Nothing counts as a commit. -/
def noCommits (L : Type) : CommitSpec L where
  isCommit := fun _ => false
  covers := fun _ _ _ => True

theorem neverPanics {model : OioWrite W WF CF AF E L}
    {condition : SessionCondition W WF CF AF E} {writer : W}
    {stages : Stages W WF CF AF L}
    (maintained : stages.Maintained model (noCommits L) condition False)
    (moves : ∀ {accepted log writer call},
      stages.Holds accepted log writer (some call) →
      model.CanMove writer call)
    (initially : stages.idle [] [] writer) :
    NeverPanics model condition writer := by
  intro events session ran meets
  have governed := (maintained.run initially meets ran).2
  cases governed with
  | broken _ _ explained => exact explained.elim
  | ended _ sound idle => exact ⟨sound, by simp [idle]⟩
  | running inner sound _ holds =>
      refine ⟨sound, ?_⟩
      intro inFlight
      obtain ⟨call, called⟩ := Option.isSome_iff_exists.mp inFlight
      rw [called] at holds
      obtain ⟨event, moved | resumed⟩ := moves holds
      · obtain ⟨outcome, moved⟩ := moved
        exact ⟨.background event,
          by simp [WriterSession.step, sound, inner, moved]⟩
      · refine ⟨.resume event, ?_⟩
        cases call with
        | write bs future =>
            obtain ⟨outcome, resumed⟩ := resumed
            simp [WriterSession.step, inner, called, resumed]
        | close future =>
            obtain ⟨outcome, resumed⟩ := resumed
            simp [WriterSession.step, inner, called, resumed]
        | abort future =>
            obtain ⟨outcome, resumed⟩ := resumed
            simp [WriterSession.step, inner, called, resumed]

end Sessions

/-! ## `MultipartWriter` -/

namespace MultipartSession

open MultipartWriter

variable {capacity : Nat} {accepted : List Buffer}
  {log : List ServiceCall} {writer later : MultipartWriter}

/-- `write` is not called on an upload without a cached buffer. -/
def WritesCached (_ : List Buffer) (writer : MultipartWriter) :
    WriteCall → Prop
  | .write _ => writer.uploadId = none ∨ writer.cache ≠ none
  | _ => True

def panicCondition : SessionCondition MultipartWriter WriteFuture CloseFuture
    AbortFuture Event where
  call := WritesCached
  resume := fun _ _ => True

def WritePoised (writer : MultipartWriter) : WriteFuture → Prop
  | .unresumed _ => writer.uploadId = none ∨ writer.cache ≠ none
  | .initiating _ => writer.cache ≠ none
  | .executing _ future => future.Poised writer.tasks

def ClosePoised (writer : MultipartWriter) : CloseFuture → Prop
  | .executing _ future => future.Poised writer.tasks
  | .draining _ future => future.Poised writer.tasks
  | _ => True

def poisedStages :
    Stages MultipartWriter WriteFuture CloseFuture AbortFuture
      ServiceCall where
  idle := fun _ _ _ => True
  writing := fun _ _ writer _ future => WritePoised writer future
  closing := fun _ _ writer future => ClosePoised writer future
  aborting := fun _ _ _ _ => True

theorem submitCache_poised {uploadId : String} {bs : Buffer}
    (filled : writer.cache ≠ none) :
    poisedStages.AfterWrite False accepted log
      (writer.submitCache uploadId bs).1 bs
      (writer.submitCache uploadId bs).2 := by
  obtain ⟨cache, cached⟩ := Option.ne_none_iff_exists'.mp filled
  rw [submitCache_of_cached uploadId bs cached]
  trivial

theorem pollWrite_poised {bs : Buffer} {future : WriteFuture}
    {progress : WriteProgress} (poised : WritePoised writer future)
    (polled : writer.pollWrite future = some (later, progress)) :
    poisedStages.AfterWrite False accepted log later bs progress := by
  cases future with
  | unresumed other =>
      simp only [pollWrite] at polled
      split at polled
      · rename_i uploadId known
        have filled : writer.cache ≠ none := by
          rcases poised with unknown | filled
          · simp [known] at unknown
          · exact filled
        obtain ⟨cache, cached⟩ := Option.ne_none_iff_exists'.mp filled
        rw [submitCache_of_cached uploadId other cached] at polled
        cases polled
        trivial
      · split at polled
        · rename_i empty
          rw [fillCache, empty] at polled
          cases polled
          trivial
        · rename_i cached
          cases polled
          simp [Stages.AfterWrite, poisedStages, WritePoised, cached]
  | initiating other => cases polled
  | executing other future =>
      simp only [pollWrite, Option.bind_eq_bind,
        Option.bind_eq_some_iff] at polled
      obtain ⟨⟨tasks, executed⟩, resumed, same⟩ := polled
      cases ConcurrentTasks.pollExecute_poised poised resumed with
      | suspended ready =>
          cases same
          exact ready
      | @returned result => cases result <;> cases same <;> trivial

theorem pollClose_poised {future : CloseFuture} {progress : CloseProgress}
    (poised : ClosePoised writer future)
    (polled : writer.pollClose future = some (later, progress)) :
    poisedStages.AfterClose False accepted log later progress := by
  cases future with
  | unresumed =>
      simp only [pollClose] at polled
      split at polled <;> cases polled <;> trivial
  | writingOnce size body => cases polled
  | executing uploadId future =>
      simp only [pollClose, Option.bind_eq_bind,
        Option.bind_eq_some_iff] at polled
      obtain ⟨⟨tasks, executed⟩, resumed, same⟩ := polled
      cases ConcurrentTasks.pollExecute_poised poised resumed with
      | suspended ready =>
          cases same
          exact ready
      | @returned result => cases result <;> cases same <;> trivial
  | draining uploadId future =>
      simp only [pollClose, Option.bind_eq_bind,
        Option.bind_eq_some_iff] at polled
      obtain ⟨⟨tasks, next⟩, resumed, same⟩ := polled
      cases ConcurrentTasks.pollNext_poised resumed with
      | suspended ready =>
          cases same
          exact ready
      | @returned value =>
          cases value with
          | none =>
              simp only at same
              split at same <;> cases same <;> trivial
          | some result => cases result <;> cases same <;> trivial
  | completing uploadId => cases polled

theorem poised_maintained :
    poisedStages.Maintained model (noCommits ServiceCall) panicCondition
      False where
  start := by
    intro accepted log writer call _ meets
    cases call with
    | write bs => exact meets
    | close => trivial
    | abort => trivial
  resumeWrite := by
    intro accepted log writer bs future event later progress served poised
      meets resumed
    refine ⟨fun _ _ => rfl, ?_⟩
    simp only [model] at resumed
    unfold resumeWrite at resumed
    split at resumed
    · obtain ⟨⟨next, after⟩, polled, same⟩ :=
        Option.map_eq_some_iff.mp resumed
      cases same
      exact pollWrite_poised poised polled
    · rename_i answer
      cases resumed
      cases answer with
      | error err => trivial
      | ok uploadId => exact submitCache_poised poised
    · simp only [Option.bind_eq_bind, Option.bind_eq_some_iff] at resumed
      obtain ⟨next, finished, same⟩ := resumed
      cases same
      exact ExecuteFuture.poised_of_finish _ finished
    · cases resumed
  resumeClose := by
    intro accepted log writer future event later progress served poised
      meets resumed
    refine ⟨fun _ _ commits => (by cases commits), ?_⟩
    simp only [model] at resumed
    unfold resumeClose at resumed
    split at resumed
    · obtain ⟨⟨next, after⟩, polled, same⟩ :=
        Option.map_eq_some_iff.mp resumed
      cases same
      exact pollClose_poised poised polled
    · rename_i answer
      cases resumed
      cases answer <;> trivial
    · simp only [Option.bind_eq_bind, Option.bind_eq_some_iff] at resumed
      obtain ⟨next, finished, same⟩ := resumed
      cases same
      exact ExecuteFuture.poised_of_finish _ finished
    · rename_i answer
      cases resumed
      cases answer <;> trivial
    · cases resumed
  resumeAbort := by
    intro accepted log writer future event later progress served aborting
      meets resumed
    refine ⟨fun _ _ => rfl, ?_⟩
    simp only [model] at resumed
    unfold resumeAbort at resumed
    split at resumed
    · obtain ⟨⟨next, after⟩, polled, same⟩ :=
        Option.map_eq_some_iff.mp resumed
      cases same
      cases future with
      | aborting uploadId found => cases polled
      | unresumed =>
          simp only [pollAbort] at polled
          split at polled <;> cases polled <;> trivial
    · rename_i answer
      cases resumed
      cases answer <;> trivial
    · cases resumed
  background := by
    intro accepted log writer event later served call holds moved
    refine ⟨fun _ _ => rfl, ?_⟩
    obtain ⟨position, reply, input, tasks, finished, _, rfl, rfl⟩ :=
      background_eq_some moved
    cases call with
    | none => trivial
    | some call =>
        cases call with
        | write bs future =>
            cases future with
            | unresumed other => exact holds
            | initiating other => exact holds
            | executing other future =>
                exact ExecuteFuture.Poised.finish holds finished
        | close future =>
            cases future with
            | unresumed => trivial
            | writingOnce size body => trivial
            | executing uploadId future =>
                exact ExecuteFuture.Poised.finish holds finished
            | draining uploadId future =>
                exact NextFuture.Poised.finish holds finished
            | completing uploadId => trivial
        | abort future => trivial

theorem write_canMove_of_poll {bs : Buffer} {future : WriteFuture}
    (polled : (writer.pollWrite future).isSome = true) :
    model.CanMove writer (.write bs future) := by
  obtain ⟨outcome, polled⟩ := Option.isSome_iff_exists.mp polled
  exact ⟨.poll, .inr ⟨_, by simp [model, resumeWrite, polled]; rfl⟩⟩

theorem close_canMove_of_poll {future : CloseFuture}
    (polled : (writer.pollClose future).isSome = true) :
    model.CanMove writer (.close future) := by
  obtain ⟨outcome, polled⟩ := Option.isSome_iff_exists.mp polled
  exact ⟨.poll, .inr ⟨_, by simp [model, resumeClose, polled]; rfl⟩⟩

theorem background_front {input : WriteInput}
    (running : writer.tasks.tasks[0]? = some (.running input)) :
    ∃ outcome, model.background writer (.finish 0 .timedOut) =
      some outcome := by
  simp [model, background, ConcurrentTasks.finish, Task.finish, writePart,
    running]

theorem write_canMove {bs : Buffer} {future : WriteFuture}
    (poised : WritePoised writer future) :
    model.CanMove writer (.write bs future) := by
  cases future with
  | unresumed other =>
      apply write_canMove_of_poll
      simp only [pollWrite]
      split
      · rfl
      · split <;> rfl
  | initiating other =>
      exact ⟨.initiated (.error ConcurrentTasks.unrecoverable),
        .inr ⟨_, rfl⟩⟩
  | executing other future =>
      rcases poised.resumable with ⟨⟨tasks, progress⟩, polled⟩ |
        ⟨input, rfl⟩ | ⟨input, running⟩
      · apply write_canMove_of_poll
        cases progress with
        | suspended future => simp [pollWrite, polled]
        | returned result => cases result <;> simp [pollWrite, polled]
        | panicked message => simp [pollWrite, polled]
      · exact ⟨.finishAwaited .timedOut, .inr ⟨_, rfl⟩⟩
      · exact ⟨.finish 0 .timedOut, .inl (background_front running)⟩

theorem close_canMove {future : CloseFuture}
    (poised : ClosePoised writer future) :
    model.CanMove writer (.close future) := by
  cases future with
  | unresumed =>
      apply close_canMove_of_poll
      simp only [pollClose]
      split <;> rfl
  | writingOnce size body =>
      exact ⟨.wroteOnce (.ok ()), .inr ⟨_, rfl⟩⟩
  | executing uploadId future =>
      rcases poised.resumable with ⟨⟨tasks, progress⟩, polled⟩ |
        ⟨input, rfl⟩ | ⟨input, running⟩
      · apply close_canMove_of_poll
        cases progress with
        | suspended future => simp [pollClose, polled]
        | returned result => cases result <;> simp [pollClose, polled]
        | panicked message => simp [pollClose, polled]
      · exact ⟨.finishAwaited .timedOut, .inr ⟨_, rfl⟩⟩
      · exact ⟨.finish 0 .timedOut, .inl (background_front running)⟩
  | draining uploadId future =>
      rcases poised.resumable with ⟨⟨tasks, progress⟩, polled⟩ |
        ⟨input, running⟩
      · apply close_canMove_of_poll
        cases progress with
        | suspended future => simp [pollClose, polled]
        | returned value =>
            cases value with
            | none =>
                simp only [pollClose, polled, Option.bind_eq_bind,
                  Option.bind_some]
                split <;> rfl
            | some result => cases result <;> simp [pollClose, polled]
        | panicked message => simp [pollClose, polled]
      · exact ⟨.finish 0 .timedOut, .inl (background_front running)⟩
  | completing uploadId =>
      exact ⟨.completed (.ok ()), .inr ⟨_, rfl⟩⟩

theorem neverPanics (capacity : Nat) :
    NeverPanics model panicCondition (MultipartWriter.new capacity) := by
  refine OpenDal.neverPanics poised_maintained ?_ trivial
  intro accepted log writer call holds
  cases call with
  | write bs future => exact write_canMove holds
  | close future => exact close_canMove holds
  | abort future =>
      cases future with
      | unresumed =>
          refine ⟨.poll, .inr ?_⟩
          cases known : writer.uploadId <;>
            simp [model, resumeAbort, pollAbort, known]
      | aborting uploadId found =>
          exact ⟨.aborted (.ok ()), .inr ⟨_, rfl⟩⟩

end MultipartSession

/-! ## `BlockWriter` -/

namespace BlockSession

open BlockWriter

variable {U : Type} {uuid : Nat → U} {accepted : List Buffer}
  {log : List (ServiceCall U)} {state later : Drawing U}

/-- `write` is not called on an upload without a cached buffer. -/
def WritesCached (_ : List Buffer) (state : Drawing U) : WriteCall → Prop
  | .write _ => state.writer.started = false ∨ state.writer.cache ≠ none
  | _ => True

def panicCondition : SessionCondition (Drawing U) (WriteFuture U)
    (CloseFuture U) (AbortFuture U) Event where
  call := WritesCached
  resume := fun _ _ => True

def WritePoised (state : Drawing U) : WriteFuture U → Prop
  | .unresumed _ => state.writer.started = false ∨ state.writer.cache ≠ none
  | .executing _ future => future.Poised state.writer.tasks

def ClosePoised (state : Drawing U) : CloseFuture U → Prop
  | .executing future => future.Poised state.writer.tasks
  | .draining future => future.Poised state.writer.tasks
  | _ => True

def poisedStages :
    Stages (Drawing U) (WriteFuture U) (CloseFuture U) (AbortFuture U)
      (ServiceCall U) where
  idle := fun _ _ _ => True
  writing := fun _ _ state _ future => WritePoised state future
  closing := fun _ _ state future => ClosePoised state future
  aborting := fun _ _ _ _ => True

theorem pollWrite_poised {bs : Buffer} {fresh : U} {future : WriteFuture U}
    {writer : BlockWriter U} {progress : WriteProgress U} {drawn : Nat}
    (poised : WritePoised state future)
    (polled : state.writer.pollWrite fresh future =
      some (writer, progress)) :
    poisedStages.AfterWrite False accepted log ⟨writer, drawn⟩ bs
      progress := by
  cases future with
  | unresumed other =>
      cases cached : state.writer.cache with
      | some cache =>
          rw [pollWrite_submit cached] at polled
          cases polled
          trivial
      | none =>
          have unstarted : state.writer.started = false := by
            rcases poised with unstarted | filled
            · exact unstarted
            · exact absurd cached filled
          rw [pollWrite_first unstarted cached] at polled
          cases polled
          trivial
  | executing other future =>
      simp only [pollWrite, Option.bind_eq_bind,
        Option.bind_eq_some_iff] at polled
      obtain ⟨⟨tasks, executed⟩, resumed, same⟩ := polled
      cases ConcurrentTasks.pollExecute_poised poised resumed with
      | suspended ready =>
          cases same
          exact ready
      | @returned result => cases result <;> cases same <;> trivial

theorem pollClose_poised {fresh : U} {future : CloseFuture U}
    {writer : BlockWriter U} {progress : CloseProgress U} {drawn : Nat}
    (poised : ClosePoised state future)
    (polled : state.writer.pollClose fresh future =
      some (writer, progress)) :
    poisedStages.AfterClose False accepted log ⟨writer, drawn⟩
      progress := by
  cases future with
  | unresumed =>
      simp only [pollClose] at polled
      split at polled <;> cases polled <;> trivial
  | writingOnce size body => cases polled
  | executing future =>
      simp only [pollClose, Option.bind_eq_bind,
        Option.bind_eq_some_iff] at polled
      obtain ⟨⟨tasks, executed⟩, resumed, same⟩ := polled
      cases ConcurrentTasks.pollExecute_poised poised resumed with
      | suspended ready =>
          cases same
          exact ready
      | @returned result => cases result <;> cases same <;> trivial
  | draining future =>
      simp only [pollClose, Option.bind_eq_bind,
        Option.bind_eq_some_iff] at polled
      obtain ⟨⟨tasks, next⟩, resumed, same⟩ := polled
      cases ConcurrentTasks.pollNext_poised resumed with
      | suspended ready =>
          cases same
          exact ready
      | @returned value =>
          cases value with
          | none =>
              cases same
              trivial
          | some result => cases result <;> cases same <;> trivial
  | completing => cases polled

variable [ToString U]

theorem poised_maintained (uuid : Nat → U) :
    poisedStages.Maintained (model uuid) (noCommits (ServiceCall U))
      panicCondition False where
  start := by
    intro accepted log state call _ meets
    cases call with
    | write bs => exact meets
    | close => trivial
    | abort => trivial
  resumeWrite := by
    intro accepted log state bs future event later progress served poised
      meets resumed
    refine ⟨fun _ _ => rfl, ?_⟩
    simp only [model] at resumed
    unfold resumeWrite at resumed
    split at resumed
    · obtain ⟨⟨next, after⟩, polled, same⟩ :=
        Option.map_eq_some_iff.mp resumed
      cases same
      exact pollWrite_poised poised polled
    · simp only [Option.bind_eq_bind, Option.bind_eq_some_iff] at resumed
      obtain ⟨next, finished, same⟩ := resumed
      cases same
      exact ExecuteFuture.poised_of_finish _ finished
    · cases resumed
  resumeClose := by
    intro accepted log state future event later progress served poised
      meets resumed
    refine ⟨fun _ _ commits => (by cases commits), ?_⟩
    simp only [model] at resumed
    unfold resumeClose at resumed
    split at resumed
    · obtain ⟨⟨next, after⟩, polled, same⟩ :=
        Option.map_eq_some_iff.mp resumed
      cases same
      exact pollClose_poised poised polled
    · rename_i answer
      cases resumed
      cases answer <;> trivial
    · simp only [Option.bind_eq_bind, Option.bind_eq_some_iff] at resumed
      obtain ⟨next, finished, same⟩ := resumed
      cases same
      exact ExecuteFuture.poised_of_finish _ finished
    · rename_i answer
      cases resumed
      cases answer <;> trivial
    · cases resumed
  resumeAbort := by
    intro accepted log state future event later progress served aborting
      meets resumed
    refine ⟨fun _ _ => rfl, ?_⟩
    simp only [model] at resumed
    unfold resumeAbort at resumed
    split at resumed
    · obtain ⟨⟨next, after⟩, polled, same⟩ :=
        Option.map_eq_some_iff.mp resumed
      cases same
      cases future with
      | aborting blockIds found => cases polled
      | unresumed =>
          simp only [pollAbort] at polled
          split at polled <;> cases polled <;> trivial
    · rename_i answer
      cases resumed
      cases answer <;> trivial
    · cases resumed
  background := by
    intro accepted log state event later served call holds moved
    refine ⟨fun _ _ => rfl, ?_⟩
    obtain ⟨position, reply, input, tasks, finished, _, rfl, rfl⟩ :=
      background_eq_some moved
    cases call with
    | none => trivial
    | some call =>
        cases call with
        | write bs future =>
            cases future with
            | unresumed other => exact holds
            | executing other future =>
                exact ExecuteFuture.Poised.finish holds finished
        | close future =>
            cases future with
            | unresumed => trivial
            | writingOnce size body => trivial
            | executing future =>
                exact ExecuteFuture.Poised.finish holds finished
            | draining future =>
                exact NextFuture.Poised.finish holds finished
            | completing => trivial
        | abort future => trivial

theorem write_canMove_of_poll {bs : Buffer} {future : WriteFuture U}
    (polled : (state.writer.pollWrite (uuid state.drawn) future).isSome =
      true) :
    (model uuid).CanMove state (.write bs future) := by
  obtain ⟨outcome, polled⟩ := Option.isSome_iff_exists.mp polled
  exact ⟨.poll, .inr ⟨_, by simp [model, resumeWrite, polled]; rfl⟩⟩

theorem close_canMove_of_poll {future : CloseFuture U}
    (polled : (state.writer.pollClose (uuid state.drawn) future).isSome =
      true) :
    (model uuid).CanMove state (.close future) := by
  obtain ⟨outcome, polled⟩ := Option.isSome_iff_exists.mp polled
  exact ⟨.poll, .inr ⟨_, by simp [model, resumeClose, polled]; rfl⟩⟩

theorem background_front {input : BlockInput U}
    (running : state.writer.tasks.tasks[0]? = some (.running input)) :
    ∃ outcome, (model uuid).background state (.finish 0 .timedOut) =
      some outcome := by
  simp [model, background, ConcurrentTasks.finish, Task.finish,
    WriteTask.factory, running]

theorem write_canMove {bs : Buffer} {future : WriteFuture U}
    (poised : WritePoised state future) :
    (model uuid).CanMove state (.write bs future) := by
  cases future with
  | unresumed other =>
      apply write_canMove_of_poll
      simp only [pollWrite]
      split
      · rfl
      · split <;> rfl
  | executing other future =>
      rcases poised.resumable with ⟨⟨tasks, progress⟩, polled⟩ |
        ⟨input, rfl⟩ | ⟨input, running⟩
      · apply write_canMove_of_poll
        cases progress with
        | suspended future => simp [pollWrite, polled]
        | returned result => cases result <;> simp [pollWrite, polled]
        | panicked message => simp [pollWrite, polled]
      · exact ⟨.finishAwaited .timedOut, .inr ⟨_, rfl⟩⟩
      · exact ⟨.finish 0 .timedOut, .inl (background_front running)⟩

theorem close_canMove {future : CloseFuture U}
    (poised : ClosePoised state future) :
    (model uuid).CanMove state (.close future) := by
  cases future with
  | unresumed =>
      apply close_canMove_of_poll
      simp only [pollClose]
      split <;> rfl
  | writingOnce size body =>
      exact ⟨.wroteOnce (.ok ()), .inr ⟨_, rfl⟩⟩
  | executing future =>
      rcases poised.resumable with ⟨⟨tasks, progress⟩, polled⟩ |
        ⟨input, rfl⟩ | ⟨input, running⟩
      · apply close_canMove_of_poll
        cases progress with
        | suspended future => simp [pollClose, polled]
        | returned result => cases result <;> simp [pollClose, polled]
        | panicked message => simp [pollClose, polled]
      · exact ⟨.finishAwaited .timedOut, .inr ⟨_, rfl⟩⟩
      · exact ⟨.finish 0 .timedOut, .inl (background_front running)⟩
  | draining future =>
      rcases poised.resumable with ⟨⟨tasks, progress⟩, polled⟩ |
        ⟨input, running⟩
      · apply close_canMove_of_poll
        cases progress with
        | suspended future => simp [pollClose, polled]
        | returned value =>
            cases value with
            | none => simp [pollClose, polled]
            | some result => cases result <;> simp [pollClose, polled]
        | panicked message => simp [pollClose, polled]
      · exact ⟨.finish 0 .timedOut, .inl (background_front running)⟩
  | completing =>
      exact ⟨.completed (.ok ()), .inr ⟨_, rfl⟩⟩

theorem neverPanics (uuid : Nat → U) (capacity : Nat) :
    NeverPanics (model uuid) panicCondition (new capacity) := by
  refine OpenDal.neverPanics (poised_maintained uuid) ?_ trivial
  intro accepted log state call holds
  cases call with
  | write bs future => exact write_canMove holds
  | close future => exact close_canMove holds
  | abort future =>
      cases future with
      | unresumed =>
          refine ⟨.poll, .inr ?_⟩
          cases begun : state.writer.started <;>
            simp [model, resumeAbort, pollAbort, begun]
      | aborting blockIds found =>
          exact ⟨.aborted (.ok ()), .inr ⟨_, rfl⟩⟩

end BlockSession

/-! ## `PositionWriter` -/

namespace PositionSession

open PositionWriter

variable {accepted : List Buffer} {log : List ServiceCall}
  {writer later : PositionWriter}

/-- Every call may be made. -/
def panicCondition : SessionCondition PositionWriter WriteFuture CloseFuture
    AbortFuture Event where
  call := fun _ _ _ => True
  resume := fun _ _ => True

def WritePoised (writer : PositionWriter) : WriteFuture → Prop
  | .unresumed _ => True
  | .executing _ _ future => future.Poised writer.tasks

def ClosePoised (writer : PositionWriter) : CloseFuture → Prop
  | .draining future => future.Poised writer.tasks
  | _ => True

def poisedStages :
    Stages PositionWriter WriteFuture CloseFuture AbortFuture
      ServiceCall where
  idle := fun _ _ _ => True
  writing := fun _ _ writer _ future => WritePoised writer future
  closing := fun _ _ writer future => ClosePoised writer future
  aborting := fun _ _ _ _ => True

theorem pollWrite_poised {bs : Buffer} {future : WriteFuture}
    {progress : WriteProgress} (poised : WritePoised writer future)
    (polled : writer.pollWrite future = some (later, progress)) :
    poisedStages.AfterWrite False accepted log later bs progress := by
  cases future with
  | unresumed other =>
      simp only [pollWrite] at polled
      split at polled
      · rename_i empty
        rw [fillCache, empty] at polled
        cases polled
        trivial
      · cases polled
        trivial
  | executing other length future =>
      simp only [pollWrite, Option.bind_eq_bind,
        Option.bind_eq_some_iff] at polled
      obtain ⟨⟨tasks, executed⟩, resumed, same⟩ := polled
      cases ConcurrentTasks.pollExecute_poised poised resumed with
      | suspended ready =>
          cases same
          exact ready
      | @returned result => cases result <;> cases same <;> trivial

theorem pollClose_poised {future : CloseFuture} {progress : CloseProgress}
    (polled : writer.pollClose future = some (later, progress)) :
    poisedStages.AfterClose False accepted log later progress := by
  cases future with
  | draining future =>
      simp only [pollClose, Option.bind_eq_bind,
        Option.bind_eq_some_iff] at polled
      obtain ⟨⟨tasks, next⟩, resumed, same⟩ := polled
      cases ConcurrentTasks.pollNext_poised resumed with
      | suspended ready =>
          cases same
          exact ready
      | @returned value =>
          cases value with
          | none =>
              simp only at same
              split at same <;> cases same <;> trivial
          | some result => cases result <;> cases same <;> trivial
  | writingLast offset buffer => cases polled
  | closing => cases polled

theorem poised_maintained :
    poisedStages.Maintained model (noCommits ServiceCall) panicCondition
      False where
  start := by
    intro accepted log writer call _ _
    cases call <;> trivial
  resumeWrite := by
    intro accepted log writer bs future event later progress served poised
      meets resumed
    refine ⟨fun _ _ => rfl, ?_⟩
    simp only [model] at resumed
    unfold resumeWrite at resumed
    split at resumed
    · obtain ⟨⟨next, after⟩, polled, same⟩ :=
        Option.map_eq_some_iff.mp resumed
      cases same
      exact pollWrite_poised poised polled
    · simp only [Option.bind_eq_bind, Option.bind_eq_some_iff] at resumed
      obtain ⟨next, finished, same⟩ := resumed
      cases same
      exact ExecuteFuture.poised_of_finish _ finished
    · cases resumed
  resumeClose := by
    intro accepted log writer future event later progress served poised
      meets resumed
    refine ⟨fun _ _ commits => (by cases commits), ?_⟩
    simp only [model] at resumed
    unfold resumeClose at resumed
    split at resumed
    · obtain ⟨⟨next, after⟩, polled, same⟩ :=
        Option.map_eq_some_iff.mp resumed
      cases same
      exact pollClose_poised polled
    · rename_i answer
      cases resumed
      cases answer <;> trivial
    · rename_i answer
      cases resumed
      cases answer <;> trivial
    · cases resumed
  resumeAbort := by
    intro accepted log writer future event later progress served aborting
      meets resumed
    refine ⟨fun _ _ => rfl, ?_⟩
    simp only [model] at resumed
    unfold resumeAbort at resumed
    split at resumed
    · obtain ⟨⟨next, after⟩, polled, same⟩ :=
        Option.map_eq_some_iff.mp resumed
      cases same
      cases future with
      | aborting found => cases polled
      | unresumed =>
          cases polled
          trivial
    · rename_i answer
      cases resumed
      cases answer <;> trivial
    · cases resumed
  background := by
    intro accepted log writer event later served call holds moved
    refine ⟨fun _ _ => rfl, ?_⟩
    obtain ⟨position, reply, input, tasks, finished, _, rfl, rfl⟩ :=
      background_eq_some moved
    cases call with
    | none => trivial
    | some call =>
        cases call with
        | write bs future =>
            cases future with
            | unresumed other => trivial
            | executing other length future =>
                exact ExecuteFuture.Poised.finish holds finished
        | close future =>
            cases future with
            | draining future =>
                exact NextFuture.Poised.finish holds finished
            | writingLast offset buffer => trivial
            | closing => trivial
        | abort future => trivial

theorem write_canMove_of_poll {bs : Buffer} {future : WriteFuture}
    (polled : (writer.pollWrite future).isSome = true) :
    model.CanMove writer (.write bs future) := by
  obtain ⟨outcome, polled⟩ := Option.isSome_iff_exists.mp polled
  exact ⟨.poll, .inr ⟨_, by simp [model, resumeWrite, polled]; rfl⟩⟩

theorem background_front {input : PositionInput}
    (running : writer.tasks.tasks[0]? = some (.running input)) :
    ∃ outcome, model.background writer (.finish 0 .timedOut) =
      some outcome := by
  simp [model, background, ConcurrentTasks.finish, Task.finish,
    WriteTask.factory, running]

theorem write_canMove {bs : Buffer} {future : WriteFuture}
    (poised : WritePoised writer future) :
    model.CanMove writer (.write bs future) := by
  cases future with
  | unresumed other =>
      apply write_canMove_of_poll
      simp only [pollWrite]
      split <;> rfl
  | executing other length future =>
      rcases poised.resumable with ⟨⟨tasks, progress⟩, polled⟩ |
        ⟨input, rfl⟩ | ⟨input, running⟩
      · apply write_canMove_of_poll
        cases progress with
        | suspended future => simp [pollWrite, polled]
        | returned result => cases result <;> simp [pollWrite, polled]
        | panicked message => simp [pollWrite, polled]
      · exact ⟨.finishAwaited .timedOut, .inr ⟨_, rfl⟩⟩
      · exact ⟨.finish 0 .timedOut, .inl (background_front running)⟩

theorem close_canMove {future : CloseFuture}
    (poised : ClosePoised writer future) :
    model.CanMove writer (.close future) := by
  cases future with
  | draining future =>
      rcases poised.resumable with ⟨⟨tasks, progress⟩, resumed⟩ |
        ⟨input, running⟩
      · have polled : (writer.pollClose (.draining future)).isSome =
            true := by
          cases progress with
          | suspended future => simp [pollClose, resumed]
          | returned value =>
              cases value with
              | none =>
                  simp only [pollClose, resumed, Option.bind_eq_bind,
                    Option.bind_some]
                  split <;> rfl
              | some result => cases result <;> simp [pollClose, resumed]
          | panicked message => simp [pollClose, resumed]
        obtain ⟨outcome, polled⟩ := Option.isSome_iff_exists.mp polled
        exact ⟨.poll, .inr ⟨_, by simp [model, resumeClose, polled]; rfl⟩⟩
      · exact ⟨.finish 0 .timedOut, .inl (background_front running)⟩
  | writingLast offset buffer =>
      exact ⟨.wroteLast (.ok ()), .inr ⟨_, rfl⟩⟩
  | closing => exact ⟨.closed (.ok ()), .inr ⟨_, rfl⟩⟩

theorem neverPanics (capacity : Nat) :
    NeverPanics model panicCondition (PositionWriter.new capacity) := by
  refine OpenDal.neverPanics poised_maintained ?_ trivial
  intro accepted log writer call holds
  cases call with
  | write bs future => exact write_canMove holds
  | close future => exact close_canMove holds
  | abort future =>
      cases future with
      | unresumed => exact ⟨.poll, .inr ⟨_, rfl⟩⟩
      | aborting found => exact ⟨.aborted (.ok ()), .inr ⟨_, rfl⟩⟩

end PositionSession

end OpenDal
