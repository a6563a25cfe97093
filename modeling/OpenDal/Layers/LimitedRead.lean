import OpenDal.Types.ContentRead

/-!
# Reading under a concurrency limit

Behind a `ConcurrentLimitLayer` every open reader holds a permit until it is
dropped.  A chunked read hands its readers to background tasks, and a task that
has come to its end keeps its reader until the queue is asked for the result.
The queue is not asked while the next reader waits for a permit.

The permits in use are the readers that are alive, so the limit only says which
polls are possible.  A read hangs when it wants one more reader than there are
permits, and it does so in some schedule exactly when it is allowed more tasks
than permits and has more chunks.
-/

namespace OpenDal

variable {R : Type} [Read R]

/-! ## Readers that are alive -/

/-- A submitted reader is with its future until it is in the queue. -/
def ReadFuture.readers : ReadFuture R → Nat
  | .looping => 0
  | .executing _ => 1
  | .draining _ => 0

namespace BufferStream

/-- The readers that hold a permit. -/
def readers (stream : BufferStream R) : Nat :=
  match stream.call with
  | .one reader => reader.reader.isSome.toNat
  | .two (reader, future) => reader.tasks.tasks.length + future.readers

/-- The next poll opens a reader. -/
def opensReader (stream : BufferStream R) : Bool :=
  match stream.call with
  | .one reader => reader.reader.isNone && reader.generator.size != some 0
  | .two (reader, .looping) =>
      reader.tasks.hasRemaining && !reader.done &&
        reader.generator.size != some 0
  | .two _ => false

/-- The stream waits for a permit. -/
def starves (permits : Nat) (stream : BufferStream R) : Bool :=
  stream.opensReader && decide (permits ≤ stream.readers)

end BufferStream

namespace ReaderRead

/-- `step` where a read that wants one more reader than there are permits is not
polled. -/
def limitedStep (permits : Nat) (self : ReaderRead R) :
    ReadEvent → Option (ReaderRead R)
  | .poll =>
      if self.stream.starves permits then
        none
      else
        self.step .poll
  | event => self.step event

/-- Nothing that can happen makes the read return. -/
def Hung (permits : Nat) (self : ReaderRead R) : Prop :=
  ∀ events later, Automaton.run (limitedStep permits) self events = some later →
    later.result = none

variable {permits : Nat} {state later : ReaderRead R} {event : ReadEvent}

theorem step_of_limitedStep
    (stepped : state.limitedStep permits event = some later) :
    state.step event = some later := by
  cases event with
  | poll =>
      simp only [limitedStep] at stepped
      split at stepped
      · cases stepped
      · exact stepped
  | finish place fuel => exact stepped
  | finishAwaited fuel => exact stepped

theorem limitedStep_of_fed (fed : state.stream.starves permits = false) :
    state.limitedStep permits event = state.step event := by
  cases event with
  | poll => simp [limitedStep, fed]
  | finish place fuel => rfl
  | finishAwaited fuel => rfl

end ReaderRead

/-! ## A read that starves -/

theorem ConcurrentTasks.length_finish {I O Ω : Type}
    {factory : I → Ω → Option (I × Except Error O)}
    {self later : ConcurrentTasks I O} {position : Nat} {ω : Ω}
    (finished : self.finish factory position ω = some later) :
    later.tasks.length = self.tasks.length ∧
      later.capacity = self.capacity := by
  simp only [ConcurrentTasks.finish, Option.bind_eq_bind,
    Option.bind_eq_some_iff] at finished
  obtain ⟨task, _, ended, _, same⟩ := finished
  cases same
  exact ⟨List.length_set, rfl⟩

theorem BufferStream.starves_finish {permits place fuel : Nat}
    {stream later : BufferStream R}
    (finished : stream.finish place fuel = some later) :
    later.starves permits = stream.starves permits := by
  obtain ⟨reader, future, next, current, ended, calling⟩ :=
    finish_eq_some finished
  simp only [ChunkedReader.finish, Option.bind_eq_bind,
    Option.bind_eq_some_iff] at ended
  obtain ⟨tasks, finished, same⟩ := ended
  cases same
  obtain ⟨length, capacity⟩ := ConcurrentTasks.length_finish finished
  cases future <;> simp [starves, opensReader, readers, current, calling,
    ConcurrentTasks.hasRemaining, length, capacity]

theorem BufferStream.starves_finishAwaited {permits fuel : Nat}
    {stream later : BufferStream R}
    (finished : stream.finishAwaited fuel = some later) :
    stream.starves permits = false := by
  obtain ⟨reader, future, next, current, ended, _⟩ :=
    finishAwaited_eq_some finished
  cases future with
  | looping => cases ended
  | executing future => simp [starves, opensReader, current]
  | draining future => cases ended

namespace ReaderRead

variable {permits : Nat} {state : ReaderRead R}

theorem hung_of_starves (starves : state.stream.starves permits = true)
    (running : state.result = none) : state.Hung permits := by
  intro events later ran
  have preserved : ∀ {before after : ReaderRead R} {event : ReadEvent},
      before.result = none ∧ before.stream.starves permits = true →
      before.limitedStep permits event = some after →
      after.result = none ∧ after.stream.starves permits = true := by
    intro before after event waits stepped
    obtain ⟨running, starves⟩ := waits
    rcases step_cases (step_of_limitedStep stepped) with
      ⟨_, ⟨rfl, _⟩ | ⟨stream, rfl, ⟨place, fuel, rfl, finished⟩ |
        ⟨fuel, rfl, finished⟩⟩⟩
    · simp [limitedStep, starves] at stepped
    · exact ⟨running, (BufferStream.starves_finish finished).trans starves⟩
    · have fed : before.stream.starves permits = false :=
        BufferStream.starves_finishAwaited finished
      simp [fed] at starves
  exact (Automaton.run_invariant_of_forall preserved ⟨running, starves⟩ ran).1

end ReaderRead

/-! ## How many readers are alive -/

namespace ConcurrentTasks

variable {I O : Type} {self later : ConcurrentTasks I O}

/-- An input that is being submitted becomes at most one task. -/
def Admits (limit : Nat) :
    ConcurrentTasks I O × Progress (ExecuteFuture I O) (Except Error Unit) →
      Prop
  | (later, .suspended _) => later.tasks.length ≤ limit
  | (later, .returned _) => later.tasks.length ≤ limit + 1
  | (later, .panicked _) => later.tasks.length ≤ limit + 1

theorem length_failFront (self : ConcurrentTasks I O) (input : I)
    (err : Error) {front : Task I O} {rest : List (Task I O)}
    (tasks : self.tasks = front :: rest) :
    (self.failFront input err).tasks.length ≤ self.tasks.length := by
  unfold failFront
  split <;> simp [clear, tasks]

theorem admits_pushOrWait (self : ConcurrentTasks I O) (input : I) :
    Admits self.tasks.length (self.pushOrWait input) := by
  unfold pushOrWait
  split
  · simp [Admits]
  · split
    · simp [Admits]
    · exact Nat.le_refl _

theorem Admits.mono {limit other : Nat}
    {outcome : ConcurrentTasks I O ×
      Progress (ExecuteFuture I O) (Except Error Unit)}
    (admits : Admits limit outcome) (within : limit ≤ other) :
    Admits other outcome := by
  obtain ⟨later, progress⟩ := outcome
  cases progress <;> simp only [Admits] at admits ⊢ <;> omega

theorem admits_executeLoop (self : ConcurrentTasks I O) (input : I) :
    Admits self.tasks.length (self.executeLoop input) := by
  unfold executeLoop
  split
  · rename_i output rest tasks
    apply (admits_pushOrWait _ input).mono
    simp [tasks]
  · rename_i failed err rest tasks
    have fewer := length_failFront self failed err tasks
    simp only [Admits]
    omega
  · exact admits_pushOrWait self input

theorem admits_pollExecute {future : ExecuteFuture I O}
    {outcome : ConcurrentTasks I O ×
      Progress (ExecuteFuture I O) (Except Error Unit)}
    (polled : self.pollExecute future = some outcome) :
    Admits self.tasks.length outcome := by
  unfold pollExecute at polled
  split at polled
  · split at polled
    · cases polled
      simp [Admits]
    · split at polled
      · cases polled
        simp [Admits]
      · cases polled
        exact admits_executeLoop self _
  · cases polled
  · cases polled
    simp [Admits]
  · cases polled
    simp [Admits]
  · split at polled
    · rename_i tasks
      cases polled
      apply (admits_executeLoop _ _).mono
      simp [tasks]
    · rename_i failed err rest tasks
      cases polled
      have fewer := length_failFront self failed err tasks
      simp only [Admits]
      omega
    · cases polled

theorem length_pollNext {future : NextFuture}
    {progress : Progress NextFuture (Option (Except Error O))}
    (polled : self.pollNext future = some (later, progress)) :
    later.tasks.length ≤ self.tasks.length := by
  unfold pollNext at polled
  split at polled
  · split at polled
    · cases polled
      exact Nat.le_refl _
    · split at polled
      · cases polled
        exact Nat.le_refl _
      · split at polled <;> cases polled <;> exact Nat.le_refl _
  · split at polled
    · rename_i tasks
      cases polled
      simp [tasks]
    · rename_i tasks
      cases polled
      exact length_failFront self _ _ tasks
    · cases polled

end ConcurrentTasks

/-! ## A read that is fed -/

/-- The generator has opened `count` ranges since `start`: all of them are whole
chunks, or it is at its end. -/
def ReadGenerator.Spread (chunk start count : Nat)
    (generator : ReadGenerator R) : Prop :=
  generator.size = some 0 ∨ generator.offset = start + count * chunk

/-- No more readers are alive than have been opened; `submitted` of them are
not in the queue. -/
def ChunkedReader.Spread (ctx : ReadContext R) (start submitted : Nat)
    (reader : ChunkedReader R) : Prop :=
  ∃ chunk count, ctx.options.chunk = some chunk ∧
    reader.generator.ctx = ctx ∧
    reader.generator.size.isSome = true ∧
    reader.generator.Spread chunk start count ∧
    reader.tasks.tasks.length + submitted ≤ count

def BufferStream.Spread (ctx : ReadContext R) (start : Nat) :
    TwoWays (StreamingReader R) (ChunkedReader R × ReadFuture R) → Prop
  | .one _ => ctx.options.chunk = none
  | .two (reader, future) => reader.Spread ctx start future.readers

variable {ctx : ReadContext R} {start stop position : Nat}

omit [Read R] in
theorem ReadGenerator.Spread.nextRange {chunk count : Nat}
    {generator later : ReadGenerator R} {range : BytesRange}
    (chunked : generator.ctx.options.chunk = some chunk)
    (known : generator.size.isSome = true)
    (spread : generator.Spread chunk start count)
    (opened : generator.nextRange = (some range, later)) :
    later.ctx = generator.ctx ∧ later.size.isSome = true ∧
      later.Spread chunk start (count + 1) := by
  obtain ⟨remaining, size⟩ := Option.isSome_iff_exists.mp known
  unfold ReadGenerator.nextRange at opened
  split at opened
  · cases opened
  · rename_i unended
    simp only [size] at opened unended
    cases opened
    refine ⟨rfl, rfl, ?_⟩
    rcases spread with ended | whole
    · exact absurd (size.symm.trans ended) unended
    · simp only [Spread, readSize, chunked, Option.some.injEq]
      by_cases last : remaining ≤ chunk
      · left
        omega
      · right
        rw [Nat.min_eq_right (by omega), whole, Nat.add_mul, Nat.one_mul]
        omega

namespace ChunkedReader

variable {reader later : ChunkedReader R} {submitted : Nat}

omit [Read R] in
theorem Spread.transfer {other : Nat} (spread : reader.Spread ctx start submitted)
    (generator : later.generator = reader.generator)
    (fewer : later.tasks.tasks.length + other ≤
      reader.tasks.tasks.length + submitted) :
    later.Spread ctx start other := by
  obtain ⟨chunk, count, chunked, context, known, whole, alive⟩ := spread
  rw [← generator] at context known whole
  exact ⟨chunk, count, chunked, context, known, whole,
    Nat.le_trans fewer alive⟩

omit [Read R] in
theorem Spread.opens {generator : ReadGenerator R} {range : BytesRange}
    (spread : reader.Spread ctx start submitted)
    (opened : reader.generator.nextRange = (some range, generator)) :
    Spread ctx start (submitted + 1) { reader with generator } := by
  obtain ⟨chunk, count, chunked, context, known, whole, alive⟩ := spread
  have inside : reader.generator.ctx.options.chunk = some chunk :=
    context ▸ chunked
  obtain ⟨same, sized, further⟩ :=
    ReadGenerator.Spread.nextRange inside known whole opened
  exact ⟨chunk, count + 1, chunked, same.trans context, sized, further,
    by simp only; omega⟩

/-- The readers that are not in the queue after a resumption. -/
def submittedAfter :
    Progress (ReadFuture R) (Except Error Buffer) → Nat
  | .suspended future => future.readers
  | _ => 0

omit [Read R] in
/-- A future that has begun to wait opens no reader when it is resumed. -/
theorem pollRead_of_begun {future : ReadFuture R}
    {progress : Progress (ReadFuture R) (Except Error Buffer)}
    (begun : future ≠ .looping)
    (resumed : reader.pollRead future = some (later, progress)) :
    later.generator = reader.generator ∧
      later.tasks.tasks.length + submittedAfter progress ≤
        reader.tasks.tasks.length + future.readers := by
  cases future with
  | looping => exact absurd rfl begun
  | executing future =>
      simp only [ChunkedReader.pollRead, Option.bind_eq_bind,
        Option.bind_eq_some_iff] at resumed
      obtain ⟨⟨tasks, executed⟩, polled, same⟩ := resumed
      have admits := ConcurrentTasks.admits_pollExecute polled
      cases executed with
      | suspended future =>
          cases same
          exact ⟨rfl, Nat.add_le_add_right admits 1⟩
      | panicked message =>
          cases same
          exact ⟨rfl, admits⟩
      | returned result =>
          cases result with
          | error err =>
              cases same
              exact ⟨rfl, admits⟩
          | ok accepted =>
              simp only at same
              split at same <;> cases same <;> exact ⟨rfl, admits⟩
  | draining future =>
      simp only [ChunkedReader.pollRead, Option.bind_eq_bind,
        Option.bind_eq_some_iff] at resumed
      obtain ⟨⟨tasks, drained⟩, polled, same⟩ := resumed
      have fewer := ConcurrentTasks.length_pollNext polled
      cases drained with
      | suspended future =>
          cases same
          exact ⟨rfl, fewer⟩
      | panicked message =>
          cases same
          exact ⟨rfl, fewer⟩
      | returned result =>
          cases result <;> cases same <;> exact ⟨rfl, fewer⟩

omit [Read R] in
theorem Spread.pollRead {future : ReadFuture R}
    {progress : Progress (ReadFuture R) (Except Error Buffer)}
    (spread : reader.Spread ctx start future.readers)
    (resumed : reader.pollRead future = some (later, progress)) :
    later.Spread ctx start (submittedAfter progress) := by
  cases future with
  | looping =>
      simp only [ChunkedReader.pollRead] at resumed
      split at resumed
      · rcases opened : reader.generator.nextRange with ⟨_ | range, generator⟩
        · have same : generator = reader.generator := by
            unfold ReadGenerator.nextRange at opened
            split at opened
            · cases opened
              rfl
            · split at opened <;> cases opened
          simp only [ReadGenerator.nextReader, opened] at resumed
          cases resumed
          rw [same]
          exact spread
        · have further := spread.opens opened
          rcases answered : generator.openRange range with err | r
          · simp only [ReadGenerator.nextReader, opened, answered,
              Except.map] at resumed
            cases resumed
            exact further.transfer rfl (by simp [submittedAfter])
          · simp only [ReadGenerator.nextReader, opened, answered,
              Except.map] at resumed
            cases resumed
            exact further
      · cases resumed
        exact spread
  | executing future | draining future =>
      obtain ⟨generator, fewer⟩ := pollRead_of_begun (by simp) resumed
      exact spread.transfer generator fewer

end ChunkedReader

namespace BufferStream

variable {stream later : BufferStream R}

omit [Read R] in
theorem spread_new (ctx : ReadContext R) (start size : Nat) :
    Spread ctx start (BufferStream.new ctx start (some size)).call := by
  unfold BufferStream.new
  cases chunked : ctx.options.chunk with
  | none => exact chunked
  | some chunk =>
      exact ⟨chunk, 0, chunked, rfl, rfl, .inr (by simp [ChunkedReader.new,
        ReadGenerator.new]), by simp [ChunkedReader.new, ConcurrentTasks.new,
          ReadFuture.readers]⟩

theorem spread_pollNext
    {progress : Progress Unit (Option (Except Error Buffer))}
    (spread : Spread ctx start stream.call)
    (polled : stream.pollNext = some (later, progress)) :
    Spread ctx start later.call := by
  unfold BufferStream.pollNext at polled
  cases current : stream.call with
  | one reader =>
      rw [current] at spread polled
      simp only [pollReading] at polled
      split at polled <;> cases polled <;> exact spread
  | two pair =>
      obtain ⟨reader, future⟩ := pair
      rw [current] at spread polled
      simp only [pollReading, Option.bind_eq_bind, Option.bind_eq_some_iff]
        at polled
      obtain ⟨⟨next, reading⟩, resumed, same⟩ := polled
      have further := ChunkedReader.Spread.pollRead spread resumed
      cases reading <;> cases same <;> exact further

end BufferStream

/-- The reads that can hang: those that are allowed more tasks than there are
permits and have more chunks; without chunks, those that get no permit. -/
def ReadContext.Hangs (permits : Nat) (ctx : ReadContext R) (size : Nat) :
    Prop :=
  match ctx.options.chunk with
  | none => permits = 0 ∧ 0 < size
  | some chunk => permits < ctx.capacity ∧ permits * chunk < size

namespace ReaderRead

variable {permits size : Nat} {state later : ReaderRead R}
  {event : ReadEvent} {cursor : Cursor R} {fails : Chunk → R → Error → Prop}

theorem spread_step (spread : BufferStream.Spread ctx start state.stream.call)
    (stepped : state.step event = some later) :
    BufferStream.Spread ctx start later.stream.call := by
  obtain ⟨_, ⟨rfl, ⟨stream, progress⟩, polled, rfl⟩ |
    ⟨stream, rfl, ⟨place, fuel, rfl, finished⟩ |
      ⟨fuel, rfl, finished⟩⟩⟩ := step_cases stepped
  · have further := BufferStream.spread_pollNext spread polled
    unfold collect
    split <;> simp_all
  · obtain ⟨reader, future, next, current, ended, calling⟩ :=
      BufferStream.finish_eq_some finished
    simp only [ChunkedReader.finish, Option.bind_eq_bind,
      Option.bind_eq_some_iff] at ended
    obtain ⟨tasks, finished, same⟩ := ended
    cases same
    rw [current] at spread
    rw [calling]
    have length := (ConcurrentTasks.length_finish finished).1
    exact ChunkedReader.Spread.transfer spread rfl (by simp only; omega)
  · obtain ⟨reader, future, next, current, ended, calling⟩ :=
      BufferStream.finishAwaited_eq_some finished
    rw [current] at spread
    rw [calling]
    cases future with
    | looping => cases ended
    | executing future =>
        simp only [ReadFuture.finish, Option.map_eq_some_iff] at ended
        obtain ⟨_, _, rfl⟩ := ended
        exact spread
    | draining future => cases ended

/-- A stream starves only in a read that can hang. -/
theorem hangs_of_starves
    (sound : state.Sound cursor fails ctx start (start + size))
    (spread : BufferStream.Spread ctx start state.stream.call)
    (running : state.result = none)
    (starves : state.stream.starves permits = true) :
    ctx.Hangs permits size := by
  have fits := sound.going running
  simp only [BufferStream.starves, Bool.and_eq_true, decide_eq_true_eq]
    at starves
  obtain ⟨opens, none⟩ := starves
  simp only [BufferStream.opensReader, BufferStream.readers] at opens none
  simp only [BufferStream.Fits] at fits
  cases current : state.stream.call with
  | one reader =>
      rw [current] at fits spread opens none
      simp only [Bool.and_eq_true, Option.isNone_iff_eq_none, bne_iff_ne,
        ne_eq] at opens
      obtain ⟨between, unended⟩ := opens
      have chunked : ctx.options.chunk = Option.none := spread
      obtain ⟨remaining, known, reaches⟩ := fits.ends
      have position := fits.between between
      have positive : remaining ≠ 0 := by
        intro zero
        exact unended (zero ▸ known)
      simp only [between, Option.isSome_none, Bool.toNat_false] at none
      simp only [ReadContext.Hangs, chunked]
      omega
  | two pair =>
      obtain ⟨reader, future⟩ := pair
      rw [current] at fits spread opens none
      cases future with
      | looping =>
          simp only [Bool.and_eq_true, bne_iff_ne, ne_eq] at opens
          obtain ⟨⟨room, _⟩, unended⟩ := opens
          obtain ⟨open_, fitting, _⟩ := fits
          obtain ⟨chunk, count, chunked, _, _, whole, alive⟩ := spread
          simp only [ConcurrentTasks.hasRemaining, decide_eq_true_eq,
            fitting.aligned.reserved] at room
          simp only [ReadFuture.readers, Nat.add_zero] at none alive
          obtain ⟨remaining, known, reaches⟩ := fitting.ends
          have positive : remaining ≠ 0 := by
            intro zero
            exact unended (zero ▸ known)
          have offset := whole.resolve_left unended
          have enough : permits * chunk ≤ count * chunk :=
            Nat.mul_le_mul_right chunk (by omega)
          simp only [ReadContext.Hangs, chunked]
          omega
      | executing future => cases opens
      | draining future => cases opens

/-! ## A schedule that hangs -/

/-- `count` whole chunks have been submitted, and none of their tasks has come
to its end. -/
structure Submitted (ctx : ReadContext R) (start size chunk count : Nat)
    (state : ReaderRead R) (reader : ChunkedReader R) : Prop where
  running : state.result = none
  unpanicked : state.panicked = false
  call : state.stream.call = .two (reader, .looping)
  generator : reader.generator =
    ⟨ctx, start + count * chunk, some (size - count * chunk)⟩
  going : reader.done = false
  capacity : reader.tasks.capacity = ctx.capacity
  healthy : reader.tasks.errored = false
  results : reader.tasks.results = []
  length : reader.tasks.tasks.length = count
  unfinished : ∀ task ∈ reader.tasks.tasks, ∃ r, task = .running r

omit [Read R] in
theorem submitted_new (ctx : ReadContext R) {chunk : Nat}
    (chunked : ctx.options.chunk = some chunk) :
    Submitted ctx start size chunk 0
      (new (BufferStream.new ctx start (some size)))
      (.new ctx ⟨start, some size⟩) where
  running := rfl
  unpanicked := rfl
  call := by simp [new, BufferStream.new, chunked, BufferStream.call]
  generator := by simp [ChunkedReader.new, ReadGenerator.new]
  going := rfl
  capacity := rfl
  healthy := rfl
  results := rfl
  length := rfl
  unfinished := by simp [ChunkedReader.new, ConcurrentTasks.new]

omit [Read R] in
/-- The task at the front of the queue is running, if there is one. -/
private theorem pushes {tasks : ConcurrentTasks R Buffer} (r : R)
    (healthy : tasks.errored = false) (concurrent : 1 < tasks.capacity)
    (room : tasks.tasks.length < tasks.capacity)
    (unfinished : ∀ task ∈ tasks.tasks, ∃ r, task = .running r) :
    tasks.pollExecute (.unresumed r) =
      some ({ tasks with tasks := tasks.tasks ++ [.running r] },
        .returned (.ok ())) := by
  have loop : tasks.executeLoop r = tasks.pushOrWait r := by
    unfold ConcurrentTasks.executeLoop
    split
    · rename_i same
      obtain ⟨_, contradiction⟩ := unfinished _ (same ▸ List.mem_cons_self)
      cases contradiction
    · rename_i same
      obtain ⟨_, contradiction⟩ := unfinished _ (same ▸ List.mem_cons_self)
      cases contradiction
    · rfl
  simp [ConcurrentTasks.pollExecute, healthy, ConcurrentTasks.isConcurrent,
    concurrent, loop, ConcurrentTasks.pushOrWait, room]

private theorem limitedStep_poll {reader next : ChunkedReader R}
    {future later : ReadFuture R} (running : state.result = none)
    (unpanicked : state.panicked = false)
    (call : state.stream.call = .two (reader, future))
    (fed : state.stream.starves permits = false)
    (resumed : reader.pollRead future = some (next, .suspended later)) :
    state.limitedStep permits .poll =
      some { state with stream := .reading (.two (next, later)) } := by
  rw [limitedStep_of_fed fed]
  simp [step, running, unpanicked, BufferStream.pollNext, call,
    BufferStream.pollReading, resumed, collect]

private theorem limitedStep_submit {reader : ChunkedReader R} {r : R}
    (running : state.result = none) (unpanicked : state.panicked = false)
    (call : state.stream.call = .two (reader, .executing (.unresumed r)))
    (healthy : reader.tasks.errored = false)
    (concurrent : 1 < reader.tasks.capacity)
    (room : reader.tasks.tasks.length < reader.tasks.capacity)
    (results : reader.tasks.results = [])
    (unfinished : ∀ task ∈ reader.tasks.tasks, ∃ r, task = .running r) :
    state.limitedStep permits .poll =
      some { state with
        stream := .reading (.two
          ({ reader with
              tasks := { reader.tasks with
                tasks := reader.tasks.tasks ++ [.running r] } },
            .looping)) } := by
  have fed : state.stream.starves permits = false := by
    simp [BufferStream.starves, BufferStream.opensReader, call]
  apply limitedStep_poll running unpanicked call fed
  simp [ChunkedReader.pollRead, pushes r healthy concurrent room unfinished,
    ConcurrentTasks.hasResult, results]

theorem Submitted.next {content : Bytes} {chunk count : Nat}
    {reader : ChunkedReader R}
    (submitted : Submitted ctx start size chunk count state reader)
    (serves : ctx.Serves Read.Yields content)
    (inside : start + size ≤ content.length)
    (chunked : ctx.options.chunk = some chunk) (fewer : count < permits)
    (concurrent : permits < ctx.capacity) (more : permits * chunk < size) :
    ∃ later reader, Automaton.run (limitedStep permits) state [.poll, .poll] =
        some later ∧
      Submitted ctx start size chunk (count + 1) later reader := by
  have next : (count + 1) * chunk ≤ permits * chunk :=
    Nat.mul_le_mul_right chunk fewer
  rw [Nat.add_mul, Nat.one_mul] at next
  obtain ⟨r, answered, _⟩ := serves (start + count * chunk) chunk (by omega)
  have generator := submitted.generator
  have capacity := submitted.capacity
  have length := submitted.length
  have room : reader.tasks.tasks.length < reader.tasks.capacity := by omega
  have opened : reader.generator.nextReader = (.ok (some r),
      ⟨ctx, start + count * chunk + chunk,
        some (size - count * chunk - chunk)⟩) := by
    have unended : size - count * chunk ≠ 0 := by omega
    have whole : min (size - count * chunk) chunk = chunk := by omega
    simp [ReadGenerator.nextReader, ReadGenerator.nextRange, generator,
      unended, ReadGenerator.readSize, chunked, whole,
      ReadGenerator.openRange, answered, Except.map]
  obtain ⟨submitting, same⟩ : ∃ submitting : ChunkedReader R,
      submitting = { reader with
        generator := ⟨ctx, start + count * chunk + chunk,
          some (size - count * chunk - chunk)⟩ } := ⟨_, rfl⟩
  have submits : reader.pollRead .looping =
      some (submitting, .suspended (.executing (.unresumed r))) := by
    simp [ChunkedReader.pollRead, ConcurrentTasks.hasRemaining, room,
      submitted.going, opened, same]
  have tasks : submitting.tasks = reader.tasks := by rw [same]
  have fed : state.stream.starves permits = false := by
    simp only [BufferStream.starves, Bool.and_eq_false_imp,
      decide_eq_false_iff_not, BufferStream.readers, submitted.call,
      ReadFuture.readers]
    omega
  have first := limitedStep_poll submitted.running submitted.unpanicked
    submitted.call fed submits
  obtain ⟨waiting, equal⟩ : ∃ waiting : ReaderRead R,
      waiting = { state with
        stream := .reading (.two (submitting, .executing (.unresumed r))) } :=
    ⟨_, rfl⟩
  rw [← equal] at first
  have running : waiting.result = none := by rw [equal, submitted.running]
  have unpanicked : waiting.panicked = false := by
    rw [equal, submitted.unpanicked]
  have call : waiting.stream.call =
      .two (submitting, .executing (.unresumed r)) := by
    rw [equal]
    rfl
  rw [← tasks] at room capacity length
  have unfinished :
      ∀ task ∈ submitting.tasks.tasks, ∃ r, task = .running r := by
    rw [tasks]
    exact submitted.unfinished
  have second : waiting.limitedStep permits .poll = some _ :=
    limitedStep_submit running unpanicked call
      (by rw [tasks, submitted.healthy]) (by omega) room
      (by rw [tasks, submitted.results]) unfinished
  have ran := Automaton.run_cons_eq_some_iff.mpr ⟨_, first,
    Automaton.run_cons_eq_some_iff.mpr ⟨_, second, Automaton.run_nil _ _⟩⟩
  refine ⟨_, { submitting with
    tasks := { submitting.tasks with
      tasks := submitting.tasks.tasks ++ [.running r] } }, ran, ?_⟩
  exact
    { running
      unpanicked
      call := rfl
      generator := by
        simp only [same, ReadGenerator.mk.injEq, true_and, Option.some.injEq,
          Nat.add_mul, Nat.one_mul]
        omega
      going := by simp only [same, submitted.going]
      capacity
      healthy := by simp only [tasks, submitted.healthy]
      results := by simp only [tasks, submitted.results]
      length := by simp [length]
      unfinished := by
        intro task member
        rcases List.mem_append.mp member with earlier | last
        · exact unfinished task earlier
        · exact ⟨r, List.mem_singleton.mp last⟩ }

/-- As many readers as there are permits can be submitted. -/
theorem exists_submitted {content : Bytes} {chunk : Nat}
    (serves : ctx.Serves Read.Yields content)
    (inside : start + size ≤ content.length)
    (chunked : ctx.options.chunk = some chunk)
    (concurrent : permits < ctx.capacity) (more : permits * chunk < size) :
    ∃ events state reader,
      Automaton.run (limitedStep permits)
        (new (BufferStream.new ctx start (some size))) events = some state ∧
      Submitted ctx start size chunk permits state reader := by
  suffices reached : ∀ count, count ≤ permits → ∃ events state reader,
      Automaton.run (limitedStep permits)
        (new (BufferStream.new ctx start (some size))) events = some state ∧
      Submitted ctx start size chunk count state reader from
    reached permits (Nat.le_refl _)
  intro count
  induction count with
  | zero =>
      intro _
      exact ⟨[], _, _, Automaton.run_nil _ _, submitted_new ctx chunked⟩
  | succ count induction =>
      intro within
      obtain ⟨events, state, reader, ran, submitted⟩ := induction (by omega)
      obtain ⟨later, next, resumed, further⟩ :=
        submitted.next serves inside chunked within concurrent more
      exact ⟨events ++ [.poll, .poll], later, next,
        Automaton.run_append ran resumed, further⟩

omit [Read R] in
theorem Submitted.starves {chunk : Nat} {reader : ChunkedReader R}
    (submitted : Submitted ctx start size chunk permits state reader)
    (concurrent : permits < ctx.capacity) (more : permits * chunk < size) :
    state.stream.starves permits = true := by
  have capacity := submitted.capacity
  have length := submitted.length
  have unended : size - permits * chunk ≠ 0 := by omega
  simp [BufferStream.starves, BufferStream.opensReader, BufferStream.readers,
    submitted.call, ReadFuture.readers, length, submitted.going,
    submitted.generator, unended, ConcurrentTasks.hasRemaining, capacity,
    concurrent]

/-! ## When a read hangs -/

variable {content : Bytes}

/-- The two invariants of a read, limited or not. -/
def Feeds (content : Bytes) (ctx : ReadContext R) (start size : Nat)
    (state : ReaderRead R) : Prop :=
  state.Sound (Cursor.ofContent R content) neverFails ctx start
      (start + size) ∧
    BufferStream.Spread ctx start state.stream.call

theorem feeds_step (serves : ctx.Serves Read.Yields content)
    (inside : start + size ≤ content.length)
    (feeds : Feeds content ctx start size state)
    (stepped : state.step event = some later) :
    Feeds content ctx start size later :=
  ⟨feeds.1.step (serves.opens inside) tasksFail_never stepped,
    spread_step feeds.2 stepped⟩

/-- In a read that cannot hang the limit refuses nothing. -/
theorem limitedStep_eq (feeds : Feeds content ctx start size state)
    (safe : ¬ ctx.Hangs permits size) (event : ReadEvent) :
    state.limitedStep permits event = state.step event := by
  cases fed : state.stream.starves permits with
  | false => exact limitedStep_of_fed fed
  | true =>
      cases returned : state.result with
      | none =>
          exact absurd (hangs_of_starves feeds.1 feeds.2 returned fed) safe
      | some result =>
          cases event with
          | poll => simp [limitedStep, step, fed, returned]
          | finish place fuel => rfl
          | finishAwaited fuel => rfl

/-- A read that is always fed returns from wherever it is. -/
theorem not_hung (serves : ctx.Serves Read.Yields content)
    (inside : start + size ≤ content.length)
    (safe : ¬ ctx.Hangs permits size)
    (feeds : Feeds content ctx start size state) : ¬ state.Hung permits := by
  intro hung
  have opens : (Cursor.ofContent R content).Opens ctx (start + size) :=
    serves.opens inside
  have kept : ∀ {state event next}, Feeds content ctx start size state → True →
      limitedStep permits state event = some next →
      Feeds content ctx start size next :=
    fun feeds _ stepped =>
      feeds_step serves inside feeds (step_of_limitedStep stepped)
  have bounded : ∀ events later,
      Automaton.run (limitedStep permits) state events = some later →
      events.length ≤ measure start (start + size) state := by
    intro events later ran
    exact Automaton.run_length_le _ kept
      (fun feeds _ stepped => feeds.1.decreases
        (Cursor.finite_ofContent content) opens (step_of_limitedStep stepped))
      feeds (fun _ _ => trivial) ran
  have continues : ∀ events later,
      Automaton.run (limitedStep permits) state events = some later →
      ¬ later.result.isSome = true →
      ∃ event, (later.limitedStep permits event).isSome = true := by
    intro events later ran running
    have reached : Feeds content ctx start size later :=
      Automaton.run_invariant kept feeds (fun _ _ => trivial) ran
    obtain ⟨event, goes⟩ := reached.1.progress
      (Cursor.finite_ofContent content) (by simpa using running)
    exact ⟨event, by rw [limitedStep_eq reached safe]; exact goes⟩
  obtain ⟨events, later, ran, finished⟩ :=
    Automaton.run_finishes bounded continues
  simp [hung events later ran] at finished

/-- A read hangs in some run exactly when it may have more tasks than there are
permits and its range is more than one chunk for each permit; without chunks,
when there is no permit.  In all other cases the limit changes no run. -/
theorem hung_iff_hangs (permits : Nat)
    (serves : ctx.Serves Read.Yields content)
    (inside : start + size ≤ content.length) :
    ((∃ events state,
        Automaton.run (limitedStep permits)
          (new (BufferStream.new ctx start (some size))) events = some state ∧
        state.Hung permits) ↔ ctx.Hangs permits size) ∧
      (¬ ctx.Hangs permits size → ∀ events,
        Automaton.run (limitedStep permits)
            (new (BufferStream.new ctx start (some size))) events =
          Automaton.run ReaderRead.step
            (new (BufferStream.new ctx start (some size))) events) := by
  have initially : Feeds content ctx start size
      (new (BufferStream.new ctx start (some size))) :=
    ⟨sound_new _ _ ctx start size, BufferStream.spread_new ctx start size⟩
  refine ⟨⟨?_, ?_⟩, ?_⟩
  · rintro ⟨events, state, ran, hung⟩
    by_contra safe
    have preserved : ∀ {state event next}, Feeds content ctx start size state →
        limitedStep permits state event = some next →
        Feeds content ctx start size next :=
      fun feeds stepped =>
        feeds_step serves inside feeds (step_of_limitedStep stepped)
    have feeds : Feeds content ctx start size state :=
      Automaton.run_invariant_of_forall preserved initially ran
    exact not_hung serves inside safe feeds hung
  · intro hangs
    cases chunked : ctx.options.chunk with
    | none =>
        simp only [ReadContext.Hangs, chunked] at hangs
        obtain ⟨rfl, positive⟩ := hangs
        refine ⟨[], _, Automaton.run_nil _ _, hung_of_starves ?_ rfl⟩
        have unended : size ≠ 0 := by omega
        simp [new, BufferStream.new, chunked, BufferStream.starves,
          BufferStream.opensReader, BufferStream.readers, BufferStream.call,
          StreamingReader.new, ReadGenerator.new, unended]
    | some chunk =>
        simp only [ReadContext.Hangs, chunked] at hangs
        obtain ⟨concurrent, more⟩ := hangs
        obtain ⟨events, state, reader, ran, submitted⟩ :=
          exists_submitted serves inside chunked concurrent more
        exact ⟨events, state, ran, hung_of_starves
          (submitted.starves concurrent more) submitted.running⟩
  · intro safe events
    exact Automaton.run_congr
      (fun event feeds => limitedStep_eq feeds safe event)
      (fun feeds stepped => feeds_step serves inside feeds stepped)
      initially events

end ReaderRead

end OpenDal
