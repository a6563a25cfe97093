import OpenDal.Types.ReaderRead

/-!
# Reading comes to its end

Every event lowers a weight: the bytes that no reader has been opened for, the
tasks and results in the queue, and how far the current call still has to go.
While a read is unfinished and the readers of the service behave, some event
is possible.  So every schedule ends, and it ends with the content of the
range, in whichever way it is read.
-/

namespace OpenDal

variable {R : Type}

/-! ## Weights of a task queue -/

namespace ConcurrentTasks

variable {I O Ω : Type} {queue later : ConcurrentTasks I O}

def taskWeight : Task I O → Nat
  | .running _ => 5
  | .ready _ _ => 4

def weight (queue : ConcurrentTasks I O) : Nat :=
  (queue.tasks.map taskWeight).sum + 4 * queue.results.length

def executeWeight : ExecuteFuture I O → Nat
  | .unresumed _ => 10
  | .awaitingTask (.running _) => 9
  | .awaitingTask (.ready _ _) => 8
  | .awaitingFront _ => 10

def nextWeight : NextFuture → Nat
  | .unresumed => 2
  | .awaitingFront => 1

private theorem pushOrWait_weight {input : I}
    (accepted : queue.pushOrWait input = (later, .returned (.ok ()))) :
    later.weight = queue.weight + 5 := by
  unfold pushOrWait at accepted
  split at accepted
  · cases accepted
    simp only [weight, List.map_append, List.sum_append, List.map_cons,
      List.map_nil, List.sum_cons, List.sum_nil, taskWeight]
    omega
  · split at accepted <;> cases accepted

private theorem weight_collectFront {input : I} {output : O}
    {rest : List (Task I O)}
    (front : queue.tasks = .ready input (.ok output) :: rest) :
    weight { queue with tasks := rest, results := queue.results ++ [output] } =
      queue.weight := by
  simp only [weight, front, List.map_cons, List.sum_cons, taskWeight,
    List.length_append, List.length_singleton]
  omega

private theorem executeLoop_weight {input : I}
    (accepted : queue.executeLoop input = (later, .returned (.ok ()))) :
    later.weight = queue.weight + 5 := by
  unfold executeLoop at accepted
  split at accepted
  · rename_i front
    rw [pushOrWait_weight accepted, weight_collectFront front]
  · cases accepted
  · exact pushOrWait_weight accepted

theorem pollExecute_weight {future : ExecuteFuture I O}
    (accepted : queue.pollExecute future =
      some (later, .returned (.ok ()))) :
    later.weight + 3 < queue.weight + executeWeight future := by
  cases future with
  | unresumed input =>
      simp only [pollExecute] at accepted
      split at accepted
      · cases accepted
      · split at accepted
        · cases accepted
        · rw [Option.some.injEq] at accepted
          rw [executeLoop_weight accepted, executeWeight]
          omega
  | awaitingTask task =>
      cases task with
      | running input => cases accepted
      | ready input result =>
          cases result with
          | error err => cases accepted
          | ok output =>
              cases accepted
              simp only [weight, executeWeight, List.length_append,
                List.length_singleton]
              omega
  | awaitingFront input =>
      simp only [pollExecute] at accepted
      split at accepted
      · rename_i front
        rw [Option.some.injEq] at accepted
        rw [executeLoop_weight accepted, weight_collectFront front,
          executeWeight]
        omega
      · cases accepted
      · cases accepted

theorem pollNext_weight {future : NextFuture} {output : O}
    (returned : queue.pollNext future =
      some (later, .returned (some (.ok output)))) :
    later.weight + 4 = queue.weight := by
  cases future with
  | unresumed =>
      simp only [pollNext] at returned
      split at returned
      · cases returned
      · split at returned
        · rename_i results
          cases returned
          simp only [weight, results, List.length_cons]
          omega
        · split at returned <;> cases returned
  | awaitingFront =>
      simp only [pollNext] at returned
      split at returned
      · rename_i front
        cases returned
        simp only [weight, front, List.map_cons, List.sum_cons, taskWeight]
        omega
      · cases returned
      · cases returned

theorem pollNext_suspended {future next : NextFuture}
    (suspended : queue.pollNext future = some (later, .suspended next)) :
    later = queue ∧ nextWeight next < nextWeight future := by
  cases future with
  | unresumed =>
      simp only [pollNext] at suspended
      split at suspended
      · cases suspended
      · split at suspended
        · cases suspended
        · split at suspended
          · cases suspended
          · cases suspended
            exact ⟨rfl, by decide⟩
  | awaitingFront =>
      simp only [pollNext] at suspended
      split at suspended <;> cases suspended

private theorem sum_set_ready {tasks : List (Task I O)} {position : Nat}
    {input : I} (handedBack : I) (result : Except Error O)
    (running : tasks[position]? = some (.running input)) :
    ((tasks.set position (.ready handedBack result)).map taskWeight).sum + 1 =
      (tasks.map taskWeight).sum := by
  induction tasks generalizing position with
  | nil => simp at running
  | cons task rest induction =>
      cases position with
      | zero =>
          simp only [List.getElem?_cons_zero, Option.some.injEq] at running
          subst running
          simp only [List.set_cons_zero, List.map_cons, List.sum_cons,
            taskWeight]
          omega
      | succ position =>
          have shorter := induction (by simpa using running)
          simp only [List.set_cons_succ, List.map_cons, List.sum_cons]
          omega

theorem finish_weight {factory : I → Ω → Option (I × Except Error O)}
    {position : Nat} {ω : Ω}
    (finished : queue.finish factory position ω = some later) :
    later.weight < queue.weight := by
  simp only [finish, Option.bind_eq_bind, Option.bind_eq_some_iff]
    at finished
  obtain ⟨task, found, ended, resolved, same⟩ := finished
  cases same
  cases task with
  | ready input result => simp [Task.finish] at resolved
  | running input =>
      simp only [Task.finish, Option.map_eq_some_iff] at resolved
      obtain ⟨⟨handedBack, result⟩, _, rfl⟩ := resolved
      have lighter := sum_set_ready handedBack result found
      simp only [weight]
      omega

end ConcurrentTasks

/-! ## Weights of readers -/

/-- Bytes for which no reader has been opened. -/
def ReadGenerator.unopened (generator : ReadGenerator R) : Nat :=
  generator.size.getD 0

theorem ReadGenerator.Ends.unopened_eq {generator : ReadGenerator R}
    {stop : Nat} (ends : generator.Ends stop) :
    generator.offset + generator.unopened = stop := by
  obtain ⟨remaining, known, reaches⟩ := ends
  simpa [ReadGenerator.unopened, known] using reaches

namespace ChunkedReader

variable {reader later : ChunkedReader R}

def futureWeight : ReadFuture R → Nat
  | .looping => 3
  | .executing future => ConcurrentTasks.executeWeight future
  | .draining future => ConcurrentTasks.nextWeight future

def weight (reader : ChunkedReader R) : Nat :=
  8 * reader.generator.unopened + reader.tasks.weight

theorem returned_weight {future : ReadFuture R} {buf : Buffer}
    (nonempty : buf.isEmpty = false)
    (resumed : reader.pollRead future = some (later, .returned (.ok buf))) :
    later.weight + 3 < reader.weight + futureWeight future := by
  cases future with
  | looping =>
      simp only [pollRead] at resumed
      split at resumed
      · split at resumed <;> cases resumed
      · cases resumed
  | executing future =>
      simp only [pollRead, Option.bind_eq_bind, Option.bind_eq_some_iff]
        at resumed
      obtain ⟨⟨tasks, execution⟩, polled, same⟩ := resumed
      cases execution with
      | panicked message => cases same
      | suspended waiting => cases same
      | returned result =>
          cases result with
          | error err => cases same
          | ok accepted =>
              simp only at same
              split at same <;> cases same
  | draining future =>
      simp only [pollRead, Option.bind_eq_bind, Option.bind_eq_some_iff]
        at resumed
      obtain ⟨⟨tasks, execution⟩, polled, same⟩ := resumed
      cases execution with
      | panicked message => cases same
      | suspended waiting => cases same
      | returned result =>
          cases result with
          | none =>
              cases same
              cases nonempty
          | some result =>
              cases same
              have lighter := ConcurrentTasks.pollNext_weight polled
              have waiting : 0 < ConcurrentTasks.nextWeight future := by
                cases future <;> decide
              simp only [weight, futureWeight]
              omega

private theorem draining_weight {future : NextFuture} {next : ReadFuture R}
    (resumed : reader.pollRead (.draining future) =
      some (later, .suspended next)) :
    later.weight + futureWeight next <
      reader.weight + futureWeight (.draining future : ReadFuture R) := by
  simp only [ChunkedReader.pollRead, Option.bind_eq_bind,
    Option.bind_eq_some_iff] at resumed
  obtain ⟨⟨tasks, execution⟩, polled, same⟩ := resumed
  cases execution with
  | panicked message => cases same
  | returned result => cases result <;> cases same
  | suspended waiting =>
      cases same
      obtain ⟨rfl, lighter⟩ := ConcurrentTasks.pollNext_suspended polled
      simp only [weight, futureWeight]
      omega

private theorem futureWeight_pos (future : ReadFuture R) :
    0 < futureWeight future := by
  cases future with
  | looping => exact Nat.succ_pos _
  | executing future =>
      cases future with
      | awaitingTask task => cases task <;> exact Nat.succ_pos _
      | _ => exact Nat.succ_pos _
  | draining future => cases future <;> exact Nat.succ_pos _

end ChunkedReader

def StreamingReader.weight (reader : StreamingReader R) : Nat :=
  reader.generator.unopened + if reader.reader.isSome then 2 else 1

namespace BufferStream

def callWeight :
    TwoWays (StreamingReader R) (ChunkedReader R × ReadFuture R) → Nat
  | .one reader => reader.weight
  | .two (reader, future) =>
      reader.weight + ChunkedReader.futureWeight future

def weight (stream : BufferStream R) : Nat := callWeight stream.call

theorem weight_pos (stream : BufferStream R) : 0 < stream.weight := by
  unfold weight
  cases stream.call with
  | one reader =>
      simp only [callWeight, StreamingReader.weight]
      split <;> omega
  | two pair => exact Nat.add_pos_right _ (ChunkedReader.futureWeight_pos pair.2)

end BufferStream

namespace ReaderRead

variable {start stop : Nat} {state : ReaderRead R}

/-- An upper bound on the number of events that can still happen. -/
def measure (start stop : Nat) (state : ReaderRead R) : Nat :=
  if state.result.isSome then
    0
  else
    stop - (start + (state.bufs.flatMap Buffer.bytes).length) +
      state.stream.weight

theorem measure_lt {stream : BufferStream R}
    (running : state.result = none) (lighter : stream.weight < state.stream.weight) :
    measure start stop { state with stream } < measure start stop state := by
  simp only [measure, running, Option.isSome_none, Bool.false_eq_true,
    if_false]
  omega

theorem measure_pos (running : state.result = none) :
    0 < measure start stop state := by
  have positive := state.stream.weight_pos
  simp only [measure, running, Option.isSome_none, Bool.false_eq_true,
    if_false]
  omega

end ReaderRead

/-! ## Every event lowers the weight -/

variable [Read R] {cursor : Cursor R} {fails : Chunk → R → Error → Prop}
  {ctx : ReadContext R} {start stop position : Nat}

namespace StreamingReader

variable {reader later : StreamingReader R}

private theorem readFrom_weight {r : R} {bound : Nat}
    (light : reader.generator.unopened + 2 ≤ bound) :
    ((reader.readFrom r).2 = .suspended () →
        (reader.readFrom r).1.weight < bound) ∧
      (reader.readFrom r).1.weight ≤ bound := by
  unfold readFrom
  split
  · constructor
    · intro impossible
      cases impossible
    · simpa [weight] using light
  · split
    · simp only [weight, Option.isSome_none, Bool.false_eq_true, if_false]
      constructor
      · intro _
        omega
      · omega
    · constructor
      · intro impossible
        cases impossible
      · simpa [weight] using light

/-- A round of `read` that does not return lowers the weight, and no round
raises it. -/
theorem pollRead_weight (ends : reader.generator.Ends stop) :
    (reader.pollRead.2 = .suspended () →
        reader.pollRead.1.weight < reader.weight) ∧
      reader.pollRead.1.weight ≤ reader.weight := by
  unfold pollRead
  split
  · rename_i r current
    exact readFrom_weight (by simp [weight, current])
  · rename_i none
    rcases ends.nextReader with
      ⟨_, _, next⟩ | ⟨size, generator, positive, _, next, _, offset, later⟩
    · rw [next]
      constructor
      · intro impossible
        cases impossible
      · exact Nat.le_refl _
    · have before := ends.unopened_eq
      have after := later.unopened_eq
      have light : generator.unopened + 2 ≤ reader.weight := by
        simp only [weight, none, Option.isSome_none, Bool.false_eq_true,
          if_false]
        omega
      rw [next]
      cases opened : reader.generator.openRange
          ⟨reader.generator.offset, some size⟩ with
      | error err =>
          constructor
          · intro impossible
            cases impossible
          · simp only [Except.map, weight, none, Option.isSome_none,
              Bool.false_eq_true, if_false]
            omega
      | ok r => exact readFrom_weight light

end StreamingReader

namespace ChunkedReader

variable {reader later : ChunkedReader R}

private theorem Fits.looping_weight {next : ReadFuture R}
    (fits : Fits (cursor.contract fails) ctx stop position reader .looping)
    (resumed : reader.pollRead .looping = some (later, .suspended next)) :
    later.weight + futureWeight next <
      reader.weight + futureWeight (.looping : ReadFuture R) := by
  obtain ⟨open_, running, chain⟩ := fits
  simp only [ChunkedReader.pollRead] at resumed
  split at resumed
  · rcases running.ends.nextReader with
      ⟨_, _, generated⟩ | ⟨size, generator, positive, _, generated, _,
        offset, after⟩
    · rw [generated] at resumed
      cases resumed
      simp [weight, futureWeight, ConcurrentTasks.nextWeight]
    · have total := running.ends.unopened_eq
      have rest := after.unopened_eq
      rw [generated] at resumed
      cases opened : reader.generator.openRange
          ⟨reader.generator.offset, some size⟩ with
      | error err =>
          rw [opened] at resumed
          cases resumed
      | ok r =>
          rw [opened] at resumed
          cases resumed
          simp only [weight, futureWeight, ConcurrentTasks.executeWeight]
          omega
  · cases resumed
    simp [weight, futureWeight, ConcurrentTasks.nextWeight]

private theorem Fits.executing_weight {future : ExecuteFuture R Buffer}
    {next : ReadFuture R}
    (fits : Fits (cursor.contract fails) ctx stop position reader
      (.executing future))
    (resumed : reader.pollRead (.executing future) =
      some (later, .suspended next)) :
    later.weight + futureWeight next <
      reader.weight + futureWeight (.executing future) := by
  obtain ⟨_, _, _, _, room, _, outside⟩ := fits
  simp only [ChunkedReader.pollRead, Option.bind_eq_bind,
    Option.bind_eq_some_iff] at resumed
  obtain ⟨⟨tasks, execution⟩, polled, same⟩ := resumed
  cases execution with
  | panicked message => cases same
  | suspended waiting =>
      cases same
      obtain ⟨rfl, input, rfl, rfl⟩ :=
        ConcurrentTasks.pollExecute_suspended room outside polled
      simp [weight, futureWeight, ConcurrentTasks.executeWeight]
  | returned result =>
      cases result with
      | error err => cases same
      | ok accepted =>
          have lighter := ConcurrentTasks.pollExecute_weight polled
          simp only at same
          split at same
          · cases same
            simp only [weight, futureWeight, ConcurrentTasks.nextWeight]
            omega
          · cases same
            simp only [weight, futureWeight]
            omega

theorem Fits.suspended_weight {future next : ReadFuture R}
    (fits : Fits (cursor.contract fails) ctx stop position reader future)
    (resumed : reader.pollRead future = some (later, .suspended next)) :
    later.weight + futureWeight next < reader.weight + futureWeight future := by
  cases future with
  | looping => exact fits.looping_weight resumed
  | executing future => exact fits.executing_weight resumed
  | draining future => exact draining_weight resumed

theorem finish_weight {place fuel : Nat}
    (finished : reader.finish place fuel = some later) :
    later.weight < reader.weight := by
  simp only [finish, Option.bind_eq_bind, Option.bind_eq_some_iff] at finished
  obtain ⟨tasks, ended, same⟩ := finished
  cases same
  have lighter := ConcurrentTasks.finish_weight ended
  simp only [weight]
  omega

theorem finishAwaited_weight {future next : ReadFuture R} {fuel : Nat}
    (finished : future.finish fuel = some next) :
    futureWeight next < futureWeight future := by
  cases future with
  | looping => cases finished
  | draining future => cases finished
  | executing future =>
      simp only [ReadFuture.finish, Option.map_eq_some_iff] at finished
      obtain ⟨ended, finished, rfl⟩ := finished
      cases future with
      | unresumed r => cases finished
      | awaitingFront r => cases finished
      | awaitingTask task =>
          simp only [ExecuteFuture.finish, Option.map_eq_some_iff] at finished
          obtain ⟨resolved, finished, rfl⟩ := finished
          cases task with
          | ready r result => simp [Task.finish] at finished
          | running r =>
              simp only [Task.finish, Option.map_eq_some_iff] at finished
              obtain ⟨_, _, rfl⟩ := finished
              simp [futureWeight, ConcurrentTasks.executeWeight]

end ChunkedReader

namespace BufferStream

variable {stream later : BufferStream R}

private theorem pollReading_one_weight {reader : StreamingReader R}
    {progress : Progress Unit (Option (Except Error Buffer))}
    (ends : reader.generator.Ends stop)
    (polled : pollReading (.one reader) = some (later, progress)) :
    (progress = .suspended () → later.weight < reader.weight) ∧
      later.weight ≤ reader.weight := by
  obtain ⟨lowered, bounded⟩ := StreamingReader.pollRead_weight ends
  simp only [pollReading] at polled
  generalize reader.pollRead = result at lowered bounded polled
  obtain ⟨next, reading⟩ := result
  cases reading with
  | suspended done =>
      cases polled
      exact ⟨fun _ => lowered rfl, bounded⟩
  | returned result =>
      cases polled
      refine ⟨?_, bounded⟩
      intro impossible
      cases impossible
  | panicked message =>
      cases polled
      refine ⟨?_, bounded⟩
      intro impossible
      cases impossible

private theorem pollReading_two_weight {reader : ChunkedReader R}
    {future : ReadFuture R}
    {progress : Progress Unit (Option (Except Error Buffer))}
    (fits : reader.Fits (cursor.contract fails) ctx stop position future)
    (polled : pollReading (.two (reader, future)) = some (later, progress)) :
    (progress = .suspended () →
        later.weight < callWeight (.two (reader, future))) ∧
      ∀ buf, progress = .returned (some (.ok buf)) →
        later.weight ≤ callWeight (.two (reader, future)) := by
  simp only [pollReading, Option.bind_eq_bind, Option.bind_eq_some_iff]
    at polled
  obtain ⟨⟨next, reading⟩, resumed, same⟩ := polled
  cases reading with
  | suspended waiting =>
      cases same
      constructor
      · intro _
        exact fits.suspended_weight resumed
      · intro buf impossible
        cases impossible
  | panicked message =>
      cases same
      constructor
      · intro impossible
        cases impossible
      · intro buf impossible
        cases impossible
  | returned result =>
      cases same
      constructor
      · intro impossible
        cases impossible
      · intro buf same
        unfold item at same
        split at same
        · split at same
          · cases same
          · rename_i nonempty
            have lighter := ChunkedReader.returned_weight
              (by simpa using nonempty) resumed
            exact Nat.le_of_lt lighter
        · cases same

/-- A poll lowers the weight, or returns a buffer and does not raise it. -/
theorem Fits.pollNext_weight
    {progress : Progress Unit (Option (Except Error Buffer))}
    (fits : stream.Fits cursor fails ctx stop position)
    (polled : stream.pollNext = some (later, progress)) :
    (progress = .suspended () → later.weight < stream.weight) ∧
      ∀ buf, progress = .returned (some (.ok buf)) →
        later.weight ≤ stream.weight := by
  unfold BufferStream.pollNext at polled
  unfold Fits at fits
  rw [weight.eq_def stream]
  cases current : stream.call with
  | one reader =>
      rw [current] at fits polled
      obtain ⟨lowered, bounded⟩ := pollReading_one_weight fits.ends polled
      exact ⟨lowered, fun _ _ => bounded⟩
  | two pair =>
      rw [current] at fits polled
      exact pollReading_two_weight fits polled

theorem finish_weight {place fuel : Nat}
    (finished : stream.finish place fuel = some later) :
    later.weight < stream.weight := by
  obtain ⟨reader, future, next, current, ended, calling⟩ :=
    finish_eq_some finished
  have lighter := ChunkedReader.finish_weight ended
  simp only [weight, current, calling, callWeight]
  omega

theorem finishAwaited_weight {fuel : Nat}
    (finished : stream.finishAwaited fuel = some later) :
    later.weight < stream.weight := by
  obtain ⟨reader, future, next, current, ended, calling⟩ :=
    finishAwaited_eq_some finished
  have lighter := ChunkedReader.finishAwaited_weight ended
  simp only [weight, current, calling, callWeight]
  omega

end BufferStream

end OpenDal
