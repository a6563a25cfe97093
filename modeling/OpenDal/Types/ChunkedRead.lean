import OpenDal.Raw.TaskOrder
import OpenDal.Types.BufferStream

/-!
# What a chunked read returns

The chunks that have been handed to the task queue and not been returned yet
are its open orders.  They follow each other without a gap from the position
up to which everything has been returned to the offset of the generator.

`Fits` is this invariant for every place where `ChunkedReader::read` can be
suspended; `Fits.pollRead` says what one resumption can come to.  The readers
enter through a `Cursor` only.
-/

namespace OpenDal

/-- A piece of the range that is read with one request. -/
structure Chunk where
  offset : Nat
  size : Nat
deriving DecidableEq

namespace Chunk

/-- The chunks lead from `position` to `stop`. -/
def Chain : Nat → List Chunk → Nat → Prop
  | position, [], stop => position = stop
  | position, chunk :: rest, stop =>
      chunk.offset = position ∧ 0 < chunk.size ∧
        Chain (position + chunk.size) rest stop

theorem Chain.concat {position middle size : Nat} {chunks : List Chunk}
    (chain : Chain position chunks middle) (positive : 0 < size) :
    Chain position (chunks ++ [⟨middle, size⟩]) (middle + size) := by
  induction chunks generalizing position with
  | nil =>
      cases chain
      exact ⟨rfl, positive, rfl⟩
  | cons chunk rest induction =>
      obtain ⟨start, nonempty, chain⟩ := chain
      exact ⟨start, nonempty, induction chain⟩

theorem Chain.position_le {position stop : Nat} {chunks : List Chunk}
    (chain : Chain position chunks stop) : position ≤ stop := by
  induction chunks generalizing position with
  | nil => exact Nat.le_of_eq chain
  | cons chunk rest induction =>
      obtain ⟨_, _, chain⟩ := chain
      have further := induction chain
      omega

end Chunk

variable {R : Type}

namespace ChunkedReader

/-! ## The invariant -/

/-- The reader while the chunks `open_` are in its task queue. -/
structure Running (contract : Contract Chunk R Buffer) (ctx : ReadContext R)
    (stop : Nat) (open_ : List Chunk) (reader : ChunkedReader R) : Prop where
  context : reader.generator.ctx = ctx
  ends : reader.generator.Ends stop
  aligned : reader.tasks.Aligned contract ctx.capacity open_
  exhausted : reader.done = true → reader.generator.offset = stop

/-- Everything before `position` has been returned. -/
def Fits (contract : Contract Chunk R Buffer) (ctx : ReadContext R)
    (stop position : Nat) (reader : ChunkedReader R) : ReadFuture R → Prop
  | .looping => ∃ open_, reader.Running contract ctx stop open_ ∧
      Chunk.Chain position open_ reader.generator.offset
  | .executing future => ∃ open_ chunk,
      reader.Running contract ctx stop open_ ∧
      Chunk.Chain position (open_ ++ [chunk]) reader.generator.offset ∧
      reader.tasks.hasRemaining = true ∧
      future.Places contract ctx.capacity chunk ∧
      ∀ r, future ≠ .awaitingFront r
  | .draining future => ∃ open_, reader.Running contract ctx stop open_ ∧
      Chunk.Chain position open_ reader.generator.offset ∧
      future.Waits reader.tasks ∧
      (open_ = [] → reader.generator.offset = stop)

theorem fits_new (contract : Contract Chunk R Buffer) (ctx : ReadContext R)
    {offset size : Nat} :
    Fits contract ctx (offset + size) offset
      (ChunkedReader.new ctx ⟨offset, some size⟩) .looping :=
  ⟨[],
    { context := rfl
      ends := ⟨size, rfl, rfl⟩
      aligned := ConcurrentTasks.aligned_new contract ctx.capacity
      exhausted := fun done => by cases done }, rfl⟩

section

variable {contract : Contract Chunk R Buffer} {ctx : ReadContext R}
  {stop : Nat} {reader : ChunkedReader R}

private theorem Running.withTasks
    {open_ others : List Chunk} {tasks : ConcurrentTasks R Buffer}
    (running : reader.Running contract ctx stop open_)
    (aligned : tasks.Aligned contract ctx.capacity others) :
    Running contract ctx stop others { reader with tasks } :=
  { running with aligned }

private theorem Running.hasRemaining
    (running : reader.Running contract ctx stop []) :
    reader.tasks.hasRemaining = true := by
  obtain ⟨delivered, waiting, split, _, tasks⟩ := running.aligned.sequence
  obtain ⟨rfl, rfl⟩ := List.append_eq_nil_iff.mp split.symm
  rw [List.forall₂_nil_left_iff] at tasks
  simp [ConcurrentTasks.hasRemaining, tasks, running.aligned.reserved,
    ctx.capacity_pos]

theorem Fits.position_le {position : Nat} {future : ReadFuture R}
    (fits : Fits contract ctx stop position reader future) :
    position ≤ stop := by
  obtain ⟨open_, chain, ends⟩ : ∃ open_,
      Chunk.Chain position open_ reader.generator.offset ∧
      reader.generator.Ends stop := by
    cases future with
    | looping =>
        obtain ⟨open_, running, chain⟩ := fits
        exact ⟨open_, chain, running.ends⟩
    | executing future =>
        obtain ⟨open_, chunk, running, chain, _⟩ := fits
        exact ⟨open_ ++ [chunk], chain, running.ends⟩
    | draining future =>
        obtain ⟨open_, running, chain, _⟩ := fits
        exact ⟨open_, chain, running.ends⟩
  obtain ⟨remaining, _, reaches⟩ := ends
  have before := chain.position_le
  omega

/-- A reader is being submitted while the front task has failed, or it has
failed itself on the short path. -/
def submitsAtFailure (reader : ChunkedReader R) : ReadFuture R → Bool
  | .executing (.awaitingTask (.ready _ (.error _))) => true
  | .executing (.unresumed _) =>
      match reader.tasks.tasks with
      | .ready _ (.error _) :: _ => true
      | _ => false
  | _ => false

private theorem submitsAtFailure_of_error
    {future : ExecuteFuture R Buffer} {err : Error}
    {tasks : ConcurrentTasks R Buffer}
    (healthy : reader.tasks.errored = false)
    (room : reader.tasks.hasRemaining = true)
    (outside : ∀ r, future ≠ .awaitingFront r)
    (polled : reader.tasks.pollExecute future =
      some (tasks, .returned (.error err))) :
    reader.submitsAtFailure (.executing future) = true := by
  rcases ConcurrentTasks.pollExecute_error healthy room outside polled with
    ⟨r, rfl⟩ | ⟨r, failed, rest, rfl, front⟩
  · rfl
  · simp [submitsAtFailure, front]

end

end ChunkedReader

/-! ## Chunks as orders -/

variable [Read R]

/-- An order is a chunk; it is placed with a reader at its start. -/
def Cursor.contract (cursor : Cursor R)
    (fails : Chunk → R → Error → Prop) : Contract Chunk R Buffer where
  serves := fun chunk r =>
    cursor.stands (chunk.offset + chunk.size) chunk.offset r
  delivers := fun chunk buf =>
    cursor.piece chunk.offset buf.bytes ∧ buf.len = chunk.size
  fails := fails

/-- The readers that the service opens stand at the start of their range. -/
def Cursor.Opens (cursor : Cursor R) (ctx : ReadContext R) (stop : Nat) :
    Prop :=
  ∀ offset size r, 0 < size → offset + size ≤ stop →
    ctx.acc.read ctx.path (ctx.args.withRange ⟨offset, some size⟩) = .ok r →
    cursor.stands (offset + size) offset r

/-- Every request is answered with a reader of that part of the content. -/
def ReadContext.Serves (ctx : ReadContext R) (reads : R → Bytes → Prop)
    (content : Bytes) : Prop :=
  ∀ offset size, offset + size ≤ content.length →
    ∃ r, ctx.acc.read ctx.path (ctx.args.withRange ⟨offset, some size⟩) =
        .ok r ∧
      reads r ((content.drop offset).take size)

theorem ReadContext.Serves.opens {ctx : ReadContext R}
    {reads : R → Bytes → Prop} {content : Bytes} {stop : Nat} {more last}
    (serves : ctx.Serves reads content) (within : stop ≤ content.length) :
    (Cursor.ofReaders content reads more last).Opens ctx stop := by
  intro offset size r _ inside opened
  obtain ⟨other, answered, returns⟩ := serves offset size (by omega)
  cases opened.symm.trans answered
  refine ⟨by omega, by omega, ?_⟩
  rw [Nat.add_sub_cancel_left]
  exact returns

namespace ChunkedReader

/-! ## Resuming `read` -/

/-- What resuming `read` can come to; `submits` says whether a reader is being
submitted at a failure. -/
inductive ReadOutcome (contract : Contract Chunk R Buffer)
    (cursor : Cursor R) (ctx : ReadContext R) (stop position : Nat)
    (submits : Bool) (later : ChunkedReader R) :
    Progress (ReadFuture R) (Except Error Buffer) → Prop where
  | suspended {future : ReadFuture R}
      (fits : Fits contract ctx stop position later future) :
      ReadOutcome contract cursor ctx stop position submits later (.suspended future)
  | piece {buf : Buffer} (nonempty : buf.isEmpty = false)
      (right : cursor.piece position buf.bytes)
      (fits : Fits contract ctx stop (position + buf.len) later .looping) :
      ReadOutcome contract cursor ctx stop position submits later
        (.returned (.ok buf))
  | ended (finished : position = stop) :
      ReadOutcome contract cursor ctx stop position submits later
        (.returned (.ok Buffer.new))
  /-- The service has not opened a reader. -/
  | unopened {offset size : Nat} {err : Error}
      (positive : 0 < size) (within : offset + size ≤ stop)
      (refused : ctx.acc.read ctx.path
        (ctx.args.withRange ⟨offset, some size⟩) = .error err) :
      ReadOutcome contract cursor ctx stop position submits later
        (.returned (.error err))
  /-- The chunk that was being submitted is lost. -/
  | refused {failed : Chunk} {r : R} {err : Error}
      (fails : contract.fails failed r err) (submitting : submits = true) :
      ReadOutcome contract cursor ctx stop position submits later
        (.returned (.error err))
  | failed {failed : Chunk} {r : R} {err : Error}
      (fails : contract.fails failed r err)
      (fits : contract.serves failed r → err.isTemporary = true →
        Fits contract ctx stop position later .looping) :
      ReadOutcome contract cursor ctx stop position submits later
        (.returned (.error err))

variable {cursor : Cursor R} {fails : Chunk → R → Error → Prop}
  {ctx : ReadContext R} {stop position : Nat}
  {reader later : ChunkedReader R}

private theorem Fits.pollLooping
    {progress : Progress (ReadFuture R) (Except Error Buffer)}
    (fits : Fits (cursor.contract fails) ctx stop position reader .looping)
    (opens : cursor.Opens ctx stop)
    (resumed : reader.pollRead .looping = some (later, progress)) :
    ReadOutcome (cursor.contract fails) cursor ctx stop position
      (reader.submitsAtFailure .looping) later progress := by
  obtain ⟨open_, running, chain⟩ := fits
  simp only [pollRead] at resumed
  split at resumed
  · rename_i condition
    simp only [Bool.and_eq_true, Bool.not_eq_true'] at condition
    rcases running.ends.nextReader with
      ⟨atEnd, _, next⟩ | ⟨size, generator, positive, within, next, context,
        offset, ends⟩
    · rw [next] at resumed
      cases resumed
      exact .suspended ⟨open_, { running with exhausted := fun _ => atEnd },
        chain, trivial, fun _ => atEnd⟩
    · rw [next, ReadGenerator.openRange, running.context] at resumed
      cases opened : ctx.acc.read ctx.path
          (ctx.args.withRange ⟨reader.generator.offset, some size⟩) with
      | error err =>
          rw [opened] at resumed
          cases resumed
          exact .unopened positive within opened
      | ok r =>
          rw [opened] at resumed
          cases resumed
          have stands := opens _ size r positive within opened
          refine .suspended ⟨open_, ⟨reader.generator.offset, size⟩,
            { context := context.trans running.context
              ends := ends
              aligned := running.aligned
              exhausted := fun done => absurd done (by simp [condition.2]) },
            ?_, condition.1, stands, fun r => by simp⟩
          rw [offset]
          exact chain.concat positive
  · rename_i condition
    cases resumed
    refine .suspended ⟨open_, running, chain, trivial, ?_⟩
    intro equal
    subst equal
    apply running.exhausted
    simpa [running.hasRemaining] using condition

private theorem Fits.pollExecuting
    {progress : Progress (ReadFuture R) (Except Error Buffer)}
    {future : ExecuteFuture R Buffer}
    (fits : Fits (cursor.contract fails) ctx stop position reader
      (.executing future))
    (resumed : reader.pollRead (.executing future) = some (later, progress)) :
    ReadOutcome (cursor.contract fails) cursor ctx stop position
      (reader.submitsAtFailure (.executing future)) later progress := by
  obtain ⟨open_, chunk, running, chain, room, places, outside⟩ := fits
  simp only [pollRead, Option.bind_eq_bind, Option.bind_eq_some_iff]
    at resumed
  obtain ⟨⟨tasks, execution⟩, polled, same⟩ := resumed
  cases running.aligned.pollExecute places polled with
  | accepted aligned =>
      have kept := running.withTasks aligned
      simp only at same
      split at same
      · cases same
        refine .suspended ⟨open_ ++ [chunk], kept, chain, trivial, ?_⟩
        intro empty
        simp at empty
      · cases same
        exact .suspended ⟨open_ ++ [chunk], kept, chain⟩
  | refused failure _ =>
      cases same
      exact .refused failure
        (submitsAtFailure_of_error running.aligned.healthy room outside polled)
  | gaveUp failure _ _ =>
      cases same
      exact .refused failure
        (submitsAtFailure_of_error running.aligned.healthy room outside polled)
  | suspended aligned places =>
      cases same
      obtain ⟨rfl, input, rfl, rfl⟩ :=
        ConcurrentTasks.pollExecute_suspended room outside polled
      exact .suspended ⟨open_, chunk, running.withTasks aligned, chain, room,
        places, fun r => by simp⟩

private theorem Fits.pollDraining
    {progress : Progress (ReadFuture R) (Except Error Buffer)}
    {future : NextFuture}
    (fits : Fits (cursor.contract fails) ctx stop position reader
      (.draining future))
    (resumed : reader.pollRead (.draining future) = some (later, progress)) :
    ReadOutcome (cursor.contract fails) cursor ctx stop position
      (reader.submitsAtFailure (.draining future)) later progress := by
  obtain ⟨open_, running, chain, waits, exhausted⟩ := fits
  simp only [pollRead, Option.bind_eq_bind, Option.bind_eq_some_iff]
    at resumed
  obtain ⟨⟨tasks, execution⟩, polled, same⟩ := resumed
  cases running.aligned.pollNext waits polled with
  | @delivered chunk rest buf oldest delivers aligned =>
      cases same
      subst oldest
      obtain ⟨rfl, positive, chain⟩ := chain
      obtain ⟨right, exactSize⟩ := delivers
      have nonempty : buf.isEmpty = false := by
        rw [← Bool.not_eq_true, Buffer.isEmpty_iff,
          ← List.length_eq_zero_iff, Buffer.length_bytes]
        omega
      rw [← exactSize] at chain
      exact .piece nonempty right ⟨rest, running.withTasks aligned, chain⟩
  | failed failure kept =>
      cases same
      exact .failed failure fun serves _ =>
        ⟨open_, running.withTasks (kept serves), chain⟩
  | gaveUp failure fatal _ =>
      cases same
      exact .failed failure fun _ temporary =>
        absurd (temporary.symm.trans fatal) (by simp)
  | drained empty _ =>
      cases same
      subst empty
      exact .ended (Eq.trans chain (exhausted rfl))
  | suspended aligned waits =>
      cases same
      exact .suspended ⟨open_, running.withTasks aligned, chain, waits,
        exhausted⟩

/-- Resuming `ChunkedReader::read`. -/
theorem Fits.pollRead {future : ReadFuture R}
    {progress : Progress (ReadFuture R) (Except Error Buffer)}
    (fits : Fits (cursor.contract fails) ctx stop position reader future)
    (opens : cursor.Opens ctx stop)
    (resumed : reader.pollRead future = some (later, progress)) :
    ReadOutcome (cursor.contract fails) cursor ctx stop position
      (reader.submitsAtFailure future) later progress := by
  cases future with
  | looping => exact fits.pollLooping opens resumed
  | executing future => exact fits.pollExecuting resumed
  | draining future => exact fits.pollDraining resumed

theorem Fits.pollRead_ended {future : ReadFuture R} {buf : Buffer}
    (fits : Fits (cursor.contract fails) ctx stop position reader future)
    (empty : buf.isEmpty = true)
    (ended : reader.pollRead future = some (later, .returned (.ok buf))) :
    Fits (cursor.contract fails) ctx stop position later .looping := by
  cases future with
  | looping =>
      simp only [ChunkedReader.pollRead] at ended
      split at ended
      · split at ended <;> cases ended
      · cases ended
  | executing future =>
      simp only [ChunkedReader.pollRead, Option.bind_eq_bind,
        Option.bind_eq_some_iff] at ended
      obtain ⟨⟨tasks, execution⟩, _, same⟩ := ended
      cases execution with
      | panicked message => cases same
      | suspended waiting => cases same
      | returned result =>
          cases result with
          | error err => cases same
          | ok accepted =>
              simp only at same
              split at same <;> cases same
  | draining future =>
      obtain ⟨open_, running, chain, waits, _⟩ := fits
      simp only [ChunkedReader.pollRead, Option.bind_eq_bind,
        Option.bind_eq_some_iff] at ended
      obtain ⟨⟨tasks, execution⟩, polled, same⟩ := ended
      cases running.aligned.pollNext waits polled with
      | @delivered chunk rest output oldest delivers _ =>
          cases same
          subst oldest
          have size : buf.len = chunk.size := delivers.2
          have none : buf.len = 0 := by
            rw [← Buffer.length_bytes, (Buffer.isEmpty_iff buf).mp empty]
            rfl
          have positive : 0 < chunk.size := chain.2.1
          omega
      | failed _ _ => cases same
      | gaveUp _ _ _ => cases same
      | drained _ aligned =>
          cases same
          exact ⟨open_, running.withTasks aligned, chain⟩
      | suspended _ _ => cases same

/-! ## The end of a chunk task -/

/-- A chunk task delivers its chunk or fails in a way that is allowed for. -/
theorem readTask_fulfils {chunk : Chunk} {r handedBack : R} {fuel : Nat}
    {result : Except Error Buffer}
    (stands : cursor.stands (chunk.offset + chunk.size) chunk.offset r)
    (produced : readTask r fuel = some (handedBack, result))
    (failure : ∀ err, result = .error err → fails chunk handedBack err) :
    Task.Fulfils (cursor.contract fails) chunk (.ready handedBack result) := by
  cases result with
  | error err => exact failure err rfl
  | ok buf =>
      obtain ⟨right, reaches⟩ := cursor.readAll_spec stands produced
      exact ⟨right, Nat.add_left_cancel reaches⟩

/-- The tasks that are in the queue fail only in ways that are allowed for. -/
def TasksFail (cursor : Cursor R) (fails : Chunk → R → Error → Prop)
    (fuel : Nat) (task : Option (Task R Buffer)) : Prop :=
  ∀ chunk r handedBack err, task = some (.running r) →
    cursor.stands (chunk.offset + chunk.size) chunk.offset r →
    readTask r fuel = some (handedBack, .error err) →
    fails chunk handedBack err

private theorem Running.finish {open_ : List Chunk} {place fuel : Nat}
    {tasks : ConcurrentTasks R Buffer}
    (running : reader.Running (cursor.contract fails) ctx stop open_)
    (finished : reader.tasks.finish readTask place fuel = some tasks)
    (failure : TasksFail cursor fails fuel reader.tasks.tasks[place]?) :
    Running (cursor.contract fails) ctx stop open_ { reader with tasks } := by
  apply running.withTasks
  apply running.aligned.finish finished
  intro chunk r handedBack result found stands produced
  apply readTask_fulfils stands produced
  intro err equal
  subst equal
  exact failure chunk r handedBack err found stands produced

theorem Fits.finish {future : ReadFuture R} {place fuel : Nat}
    (fits : Fits (cursor.contract fails) ctx stop position reader future)
    (finished : reader.finish place fuel = some later)
    (failure : TasksFail cursor fails fuel reader.tasks.tasks[place]?) :
    Fits (cursor.contract fails) ctx stop position later future := by
  simp only [ChunkedReader.finish, Option.bind_eq_bind,
    Option.bind_eq_some_iff] at finished
  obtain ⟨tasks, finished, same⟩ := finished
  cases same
  cases future with
  | looping =>
      obtain ⟨open_, running, chain⟩ := fits
      exact ⟨open_, running.finish finished failure, chain⟩
  | executing future =>
      obtain ⟨open_, chunk, running, chain, room, places, outside⟩ := fits
      refine ⟨open_, chunk, running.finish finished failure, chain, ?_,
        places, outside⟩
      simpa [ConcurrentTasks.hasRemaining_finish finished] using room
  | draining future =>
      obtain ⟨open_, running, chain, waits, exhausted⟩ := fits
      exact ⟨open_, running.finish finished failure, chain,
        waits.finish finished, exhausted⟩

/-- The task that `execute` awaits directly. -/
def awaitedTask : ReadFuture R → Option (Task R Buffer)
  | .executing (.awaitingTask task) => some task
  | _ => none

theorem Fits.finishAwaited {future next : ReadFuture R} {fuel : Nat}
    (fits : Fits (cursor.contract fails) ctx stop position reader future)
    (finished : future.finish fuel = some next)
    (failure : TasksFail cursor fails fuel (awaitedTask future)) :
    Fits (cursor.contract fails) ctx stop position reader next := by
  cases future with
  | looping => cases finished
  | draining future => cases finished
  | executing future =>
      obtain ⟨open_, chunk, running, chain, room, places, outside⟩ := fits
      simp only [ReadFuture.finish, Option.map_eq_some_iff] at finished
      obtain ⟨ended, finished, rfl⟩ := finished
      refine ⟨open_, chunk, running, chain, room, ?_, ?_⟩
      · apply places.finish finished
        intro r handedBack result same stands produced
        subst same
        apply readTask_fulfils stands produced
        intro err equal
        subst equal
        exact failure chunk r handedBack err rfl stands produced
      · cases future with
        | unresumed input => cases finished
        | awaitingFront input => cases finished
        | awaitingTask task =>
            simp only [ExecuteFuture.finish, Option.map_eq_some_iff]
              at finished
            obtain ⟨_, _, rfl⟩ := finished
            intro r
            simp

end ChunkedReader

end OpenDal
