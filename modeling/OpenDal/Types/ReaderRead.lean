import OpenDal.Types.ChunkedRead

/-!
# What `Reader::read` returns

The invariant of `OpenDal.Types.ChunkedRead` is carried over to streams that
read either way, and from there to the collected buffers.  The result is one
theorem about all runs: what is returned belongs to the range and is complete,
and every error is one of the service.
-/

namespace OpenDal

variable {R : Type}

namespace BufferStream

/-- The range is one of `size` bytes: its bounds say so, or it is read in
chunks and the service says where the content ends. -/
def SizeKnown (ctx : ReadContext R) (range : RangeBounds)
    (offset size : Nat) : Prop :=
  BytesRange.fromBounds range = some ⟨offset, some size⟩ ∨
    ctx.options.chunk.isSome = true ∧ range.endBound = .unbounded ∧
      offset = BytesRange.startOf range.startBound ∧
      ctx.acc.stat ctx.path { version := ctx.args.version } =
        .ok (offset + size)

theorem create_of_sizeKnown {ctx : ReadContext R} {range : RangeBounds}
    {offset size : Nat} (known : SizeKnown ctx range offset size) :
    create ctx range = some (.ok (new ctx offset (some size))) := by
  rcases known with bounded | ⟨chunked, unbounded, starts, answered⟩
  · by_cases chunked : ctx.options.chunk.isSome = true
    · have parsed := ReadContext.parseIntoRange_of_fromBounds ctx bounded
      simp [create, new, chunked, parsed, BytesRange.fromBounds_exclusive]
    · simp [create, new, chunked, bounded]
  · have parsed : ctx.parseIntoRange range = .ok (offset, offset + size) := by
      rw [ReadContext.parseIntoRange, unbounded, starts]
      rw [starts] at answered
      simp [answered, bind, Except.bind]
    simp [create, new, chunked, parsed, BytesRange.fromBounds_exclusive]

end BufferStream

variable [Read R] {cursor : Cursor R}
  {fails : Chunk → R → Error → Prop} {ctx : ReadContext R}
  {start stop position : Nat}

/-! ## Errors -/

/-- Where an error can come from: a reader was not opened, a reader failed, or
a chunk task failed. -/
inductive Blamed (cursor : Cursor R) (fails : Chunk → R → Error → Prop)
    (ctx : ReadContext R) (stop : Nat) (err : Error) : Prop where
  | unopened {offset size : Nat} (positive : 0 < size)
      (within : offset + size ≤ stop)
      (refused : ctx.acc.read ctx.path
        (ctx.args.withRange ⟨offset, some size⟩) = .error err)
  | reader {goal place : Nat} {r later : R}
      (stands : cursor.stands goal place r)
      (failed : Read.read r = (.error err, later))
  | task {chunk : Chunk} {r : R} (failed : fails chunk r err)

/-! ## Streaming -/

namespace StreamingReader

variable {reader later : StreamingReader R}

/-- Everything before `position` has been returned. -/
structure Stands (cursor : Cursor R) (ctx : ReadContext R)
    (stop position : Nat) (reader : StreamingReader R) : Prop where
  context : reader.generator.ctx = ctx
  ends : reader.generator.Ends stop
  between : reader.reader = none → position = reader.generator.offset
  inside : ∀ r, reader.reader = some r →
    cursor.stands reader.generator.offset position r

theorem stands_new (cursor : Cursor R) (ctx : ReadContext R)
    (offset size : Nat) :
    Stands cursor ctx (offset + size) offset
      (StreamingReader.new ctx ⟨offset, some size⟩) where
  context := rfl
  ends := ⟨size, rfl, rfl⟩
  between := fun _ => rfl
  inside := fun r same => by cases same

/-- What one round of `read` can come to. -/
inductive ReadOutcome (cursor : Cursor R)
    (fails : Chunk → R → Error → Prop) (ctx : ReadContext R)
    (stop position : Nat) (later : StreamingReader R) :
    Progress Unit (Except Error Buffer) → Prop where
  | suspended (stands : later.Stands cursor ctx stop position) :
      ReadOutcome cursor fails ctx stop position later (.suspended ())
  | piece {buf : Buffer} (nonempty : buf.isEmpty = false)
      (right : cursor.piece position buf.bytes)
      (stands : later.Stands cursor ctx stop (position + buf.len)) :
      ReadOutcome cursor fails ctx stop position later (.returned (.ok buf))
  | ended (finished : position = stop) :
      ReadOutcome cursor fails ctx stop position later
        (.returned (.ok Buffer.new))
  | failed {err : Error} (blamed : Blamed cursor fails ctx stop err) :
      ReadOutcome cursor fails ctx stop position later
        (.returned (.error err))

private theorem readFrom_spec {r : R}
    (context : reader.generator.ctx = ctx)
    (ends : reader.generator.Ends stop)
    (stands : cursor.stands reader.generator.offset position r) :
    ReadOutcome cursor fails ctx stop position (reader.readFrom r).1
      (reader.readFrom r).2 := by
  unfold readFrom
  split
  · rename_i err later failed
    exact .failed (.reader stands failed)
  · rename_i buf later answered
    split
    · rename_i empty
      have reached := cursor.last stands answered
        ((Buffer.isEmpty_iff buf).mp empty)
      exact .suspended
        { context
          ends
          between := fun _ => reached
          inside := fun r same => by cases same }
    · rename_i nonempty
      obtain ⟨right, moved⟩ := cursor.more stands answered
        ((Buffer.isEmpty_iff buf).not.mp nonempty)
      exact .piece (by simpa using nonempty) right
        { context
          ends
          between := fun none => by cases none
          inside := fun r same => by
            cases same
            exact moved }

theorem Stands.pollRead (stands : reader.Stands cursor ctx stop position)
    (opens : cursor.Opens ctx stop) :
    ReadOutcome cursor fails ctx stop position reader.pollRead.1
      reader.pollRead.2 := by
  unfold StreamingReader.pollRead
  split
  · rename_i r current
    exact readFrom_spec stands.context stands.ends (stands.inside r current)
  · rename_i none
    have here := stands.between none
    rcases stands.ends.nextReader with
      ⟨atEnd, _, next⟩ | ⟨size, generator, positive, within, next, context,
        offset, ends⟩
    · rw [next]
      exact .ended (here.trans atEnd)
    · rw [next, ReadGenerator.openRange, stands.context]
      cases opened : ctx.acc.read ctx.path
          (ctx.args.withRange ⟨reader.generator.offset, some size⟩) with
      | error err => exact .failed (.unopened positive within opened)
      | ok r =>
          have fresh := opens _ size r positive within opened
          rw [← offset, ← here] at fresh
          exact readFrom_spec (context.trans stands.context) ends fresh

theorem Stands.pollRead_ended {buf : Buffer}
    (stands : reader.Stands cursor ctx stop position)
    (empty : buf.isEmpty = true)
    (ended : reader.pollRead = (later, .returned (.ok buf))) :
    later = reader := by
  have readOn : ∀ {reader : StreamingReader R} {r : R},
      reader.readFrom r ≠ (later, .returned (.ok buf)) := by
    intro reader r same
    unfold readFrom at same
    split at same
    · cases same
    · split at same
      · cases same
      · rename_i nonempty
        cases same
        exact nonempty empty
  unfold StreamingReader.pollRead at ended
  split at ended
  · exact absurd ended readOn
  · rcases stands.ends.nextReader with
      ⟨_, _, next⟩ | ⟨size, generator, _, _, next, _⟩
    · rw [next] at ended
      cases ended
      rfl
    · rw [next] at ended
      cases opened : reader.generator.openRange
          ⟨reader.generator.offset, some size⟩ with
      | error err =>
          rw [opened] at ended
          cases ended
      | ok r =>
          rw [opened] at ended
          exact absurd ended readOn

end StreamingReader

/-! ## Streams -/

namespace BufferStream

variable {stream later : BufferStream R}

/-- Everything before `position` has been returned. -/
def CallFits (cursor : Cursor R) (fails : Chunk → R → Error → Prop)
    (ctx : ReadContext R) (stop position : Nat) :
    TwoWays (StreamingReader R) (ChunkedReader R × ReadFuture R) → Prop
  | .one reader => reader.Stands cursor ctx stop position
  | .two (reader, future) =>
      reader.Fits (cursor.contract fails) ctx stop position future

def Fits (cursor : Cursor R) (fails : Chunk → R → Error → Prop)
    (ctx : ReadContext R) (stop position : Nat) (stream : BufferStream R) :
    Prop :=
  CallFits cursor fails ctx stop position stream.call

theorem fits_new (cursor : Cursor R) (fails : Chunk → R → Error → Prop)
    (ctx : ReadContext R) (offset size : Nat) :
    Fits cursor fails ctx (offset + size) offset
      (BufferStream.new ctx offset (some size)) := by
  unfold BufferStream.new
  split
  · exact ChunkedReader.fits_new (cursor.contract fails) ctx
  · exact StreamingReader.stands_new cursor ctx offset size

theorem finish_eq_some {place fuel : Nat}
    (finished : stream.finish place fuel = some later) :
    ∃ reader future next, stream.call = .two (reader, future) ∧
      reader.finish place fuel = some next ∧
      later.call = .two (next, future) := by
  unfold BufferStream.finish at finished
  split at finished
  · simp only [Option.map_eq_some_iff] at finished
    obtain ⟨next, ended, rfl⟩ := finished
    exact ⟨_, _, next, rfl, ended, rfl⟩
  · simp only [Option.map_eq_some_iff] at finished
    obtain ⟨next, ended, rfl⟩ := finished
    exact ⟨_, _, next, rfl, ended, rfl⟩
  · cases finished

theorem finishAwaited_eq_some {fuel : Nat}
    (finished : stream.finishAwaited fuel = some later) :
    ∃ reader future next, stream.call = .two (reader, future) ∧
      future.finish fuel = some next ∧
      later.call = .two (reader, next) := by
  unfold BufferStream.finishAwaited at finished
  split at finished
  · simp only [Option.map_eq_some_iff] at finished
    obtain ⟨next, ended, rfl⟩ := finished
    exact ⟨_, _, next, rfl, ended, rfl⟩
  · cases finished

/-- What polling the stream can come to. -/
inductive NextOutcome (cursor : Cursor R)
    (fails : Chunk → R → Error → Prop) (ctx : ReadContext R)
    (stop position : Nat) (later : BufferStream R) :
    Progress Unit (Option (Except Error Buffer)) → Prop where
  | suspended (fits : later.Fits cursor fails ctx stop position) :
      NextOutcome cursor fails ctx stop position later (.suspended ())
  | piece {buf : Buffer} (nonempty : buf.isEmpty = false)
      (right : cursor.piece position buf.bytes)
      (fits : later.Fits cursor fails ctx stop (position + buf.len)) :
      NextOutcome cursor fails ctx stop position later
        (.returned (some (.ok buf)))
  | ended (finished : position = stop) :
      NextOutcome cursor fails ctx stop position later (.returned none)
  | failed {err : Error} (blamed : Blamed cursor fails ctx stop err) :
      NextOutcome cursor fails ctx stop position later
        (.returned (some (.error err)))

theorem item_nonempty {buf : Buffer} (nonempty : buf.isEmpty = false) :
    item (.ok buf) = some (.ok buf) := by
  simp [item, nonempty]

private theorem pollReading_one {reader : StreamingReader R}
    {progress : Progress Unit (Option (Except Error Buffer))}
    (stands : reader.Stands cursor ctx stop position)
    (opens : cursor.Opens ctx stop)
    (polled : pollReading (.one reader) = some (later, progress)) :
    NextOutcome cursor fails ctx stop position later progress := by
  have outcome : StreamingReader.ReadOutcome cursor fails ctx stop position
      reader.pollRead.1 reader.pollRead.2 := stands.pollRead opens
  simp only [pollReading] at polled
  generalize reader.pollRead = result at outcome polled
  obtain ⟨next, reading⟩ := result
  cases outcome with
  | suspended stands =>
      cases polled
      exact .suspended stands
  | piece nonempty right stands =>
      simp only [item_nonempty nonempty] at polled
      cases polled
      exact .piece nonempty right stands
  | ended finished =>
      cases polled
      exact .ended finished
  | failed blamed =>
      cases polled
      exact .failed blamed

private theorem pollReading_two {reader : ChunkedReader R}
    {future : ReadFuture R}
    {progress : Progress Unit (Option (Except Error Buffer))}
    (fits : reader.Fits (cursor.contract fails) ctx stop position future)
    (opens : cursor.Opens ctx stop)
    (polled : pollReading (.two (reader, future)) = some (later, progress)) :
    NextOutcome cursor fails ctx stop position later progress := by
  simp only [pollReading, Option.bind_eq_bind, Option.bind_eq_some_iff]
    at polled
  obtain ⟨⟨next, reading⟩, resumed, same⟩ := polled
  cases fits.pollRead opens resumed with
  | suspended fits =>
      cases same
      exact .suspended fits
  | piece nonempty right fits =>
      simp only [item_nonempty nonempty] at same
      cases same
      exact .piece nonempty right fits
  | ended finished =>
      cases same
      exact .ended finished
  | unopened positive within refused =>
      cases same
      exact .failed (.unopened positive within refused)
  | refused failure _ =>
      cases same
      exact .failed (.task failure)
  | failed failure _ =>
      cases same
      exact .failed (.task failure)

theorem Fits.pollNext
    {progress : Progress Unit (Option (Except Error Buffer))}
    (fits : stream.Fits cursor fails ctx stop position)
    (opens : cursor.Opens ctx stop)
    (polled : stream.pollNext = some (later, progress)) :
    NextOutcome cursor fails ctx stop position later progress := by
  unfold BufferStream.pollNext at polled
  unfold Fits at fits
  cases current : stream.call with
  | one reader =>
      rw [current] at fits polled
      exact pollReading_one fits opens polled
  | two pair =>
      rw [current] at fits polled
      exact pollReading_two fits opens polled

theorem Fits.pollNext_ended
    (fits : stream.Fits cursor fails ctx stop position)
    (polled : stream.pollNext = some (later, .returned none)) :
    later.Fits cursor fails ctx stop position := by
  have isEmpty : ∀ {result : Except Error Buffer}, none = item result →
      ∃ buf, result = .ok buf ∧ buf.isEmpty = true := by
    intro result same
    unfold item at same
    split at same
    · rename_i buf
      split at same
      · rename_i empty
        exact ⟨buf, rfl, empty⟩
      · cases same
    · cases same
  unfold BufferStream.pollNext at polled
  unfold Fits at fits
  cases current : stream.call with
  | one reader =>
      rw [current] at fits polled
      simp only [pollReading] at polled
      generalize reading : reader.pollRead = result at polled
      obtain ⟨next, progress⟩ := result
      cases progress with
      | suspended _ => cases polled
      | panicked message => cases polled
      | returned result =>
          simp only [Option.some.injEq, Prod.mk.injEq, Progress.returned.injEq]
            at polled
          obtain ⟨rfl, none⟩ := polled
          obtain ⟨buf, rfl, empty⟩ := isEmpty none.symm
          have same := StreamingReader.Stands.pollRead_ended fits empty reading
          subst same
          exact fits
  | two pair =>
      obtain ⟨reader, future⟩ := pair
      rw [current] at fits polled
      simp only [pollReading, Option.bind_eq_bind, Option.bind_eq_some_iff]
        at polled
      obtain ⟨⟨next, progress⟩, resumed, same⟩ := polled
      cases progress with
      | suspended _ => cases same
      | panicked message => cases same
      | returned result =>
          simp only [Option.some.injEq, Prod.mk.injEq, Progress.returned.injEq]
            at same
          obtain ⟨rfl, none⟩ := same
          obtain ⟨buf, rfl, empty⟩ := isEmpty none.symm
          exact ChunkedReader.Fits.pollRead_ended fits empty resumed

theorem Fits.finish {place fuel : Nat}
    (fits : stream.Fits cursor fails ctx stop position)
    (failure : ∀ task, ChunkedReader.TasksFail cursor fails fuel task)
    (finished : stream.finish place fuel = some later) :
    later.Fits cursor fails ctx stop position := by
  obtain ⟨reader, future, next, current, ended, calling⟩ :=
    finish_eq_some finished
  unfold Fits at fits ⊢
  rw [current] at fits
  rw [calling]
  exact ChunkedReader.Fits.finish fits ended (failure _)

theorem Fits.finishAwaited {fuel : Nat}
    (fits : stream.Fits cursor fails ctx stop position)
    (failure : ∀ task, ChunkedReader.TasksFail cursor fails fuel task)
    (finished : stream.finishAwaited fuel = some later) :
    later.Fits cursor fails ctx stop position := by
  obtain ⟨reader, future, next, current, ended, calling⟩ :=
    finishAwaited_eq_some finished
  unfold Fits at fits ⊢
  rw [current] at fits
  rw [calling]
  exact ChunkedReader.Fits.finishAwaited fits ended (failure _)

end BufferStream

/-! ## Collecting -/

namespace ReaderRead

variable {state later : ReaderRead R}

/-- What has been collected belongs to the range and ends where the stream
goes on. -/
structure Sound (cursor : Cursor R) (fails : Chunk → R → Error → Prop)
    (ctx : ReadContext R) (start stop : Nat) (state : ReaderRead R) :
    Prop where
  unpanicked : state.panicked = false
  collected : cursor.piece start (state.bufs.flatMap Buffer.bytes)
  going : state.result = none → state.stream.Fits cursor fails ctx stop
    (start + (state.bufs.flatMap Buffer.bytes).length)
  succeeded : ∀ buf, state.result = some (.ok buf) →
    cursor.piece start buf.bytes ∧ start + buf.len = stop
  failed : ∀ err, state.result = some (.error err) →
    Blamed cursor fails ctx stop err

theorem sound_new (cursor : Cursor R) (fails : Chunk → R → Error → Prop)
    (ctx : ReadContext R) (offset size : Nat) :
    Sound cursor fails ctx offset (offset + size)
      (new (BufferStream.new ctx offset (some size))) where
  unpanicked := rfl
  collected := cursor.piece_nil offset
  going := fun _ => BufferStream.fits_new cursor fails ctx offset size
  succeeded := fun buf same => by cases same
  failed := fun err same => by cases same

theorem Sound.collect {stream : BufferStream R}
    {progress : Progress Unit (Option (Except Error Buffer))}
    (sound : state.Sound cursor fails ctx start stop)
    (outcome : BufferStream.NextOutcome cursor fails ctx stop
      (start + (state.bufs.flatMap Buffer.bytes).length) stream progress) :
    (state.collect (stream, progress)).Sound cursor fails ctx start stop := by
  cases outcome with
  | suspended fits => exact { sound with going := fun _ => fits }
  | @piece buf nonempty right fits =>
      have grown : (state.bufs ++ [buf]).flatMap Buffer.bytes =
          state.bufs.flatMap Buffer.bytes ++ buf.bytes := by simp
      refine { sound with collected := ?_, going := fun _ => ?_ }
      · rw [ReaderRead.collect, grown]
        exact cursor.piece_append sound.collected right
      · rw [ReaderRead.collect, grown, List.length_append,
          Buffer.length_bytes, ← Nat.add_assoc]
        exact fits
  | ended finished =>
      refine
        { sound with
          going := fun none => by cases none
          succeeded := fun buf same => ?_
          failed := fun err same => by cases same }
      cases same
      rw [← Buffer.length_bytes, Buffer.bytes_flatten]
      exact ⟨sound.collected, finished⟩
  | failed blamed =>
      refine
        { sound with
          going := fun none => by cases none
          succeeded := fun buf same => by cases same
          failed := fun err same => ?_ }
      cases same
      exact blamed

theorem step_cases {event : ReadEvent}
    (stepped : state.step event = some later) :
    state.result = none ∧
      ((event = .poll ∧ ∃ outcome, state.stream.pollNext = some outcome ∧
          later = state.collect outcome) ∨
        ∃ stream, later = { state with stream } ∧
          ((∃ place fuel, event = .finish place fuel ∧
              state.stream.finish place fuel = some stream) ∨
            ∃ fuel, event = .finishAwaited fuel ∧
              state.stream.finishAwaited fuel = some stream)) := by
  unfold step at stepped
  split at stepped
  · cases stepped
  · rename_i running
    simp only [Bool.or_eq_true, not_or, Option.not_isSome_iff_eq_none]
      at running
    refine ⟨running.1, ?_⟩
    cases event with
    | poll =>
        simp only [Option.map_eq_some_iff] at stepped
        obtain ⟨outcome, polled, same⟩ := stepped
        exact .inl ⟨rfl, outcome, polled, same.symm⟩
    | finish place fuel =>
        simp only [Option.map_eq_some_iff] at stepped
        obtain ⟨stream, finished, same⟩ := stepped
        exact .inr ⟨stream, same.symm, .inl ⟨place, fuel, rfl, finished⟩⟩
    | finishAwaited fuel =>
        simp only [Option.map_eq_some_iff] at stepped
        obtain ⟨stream, finished, same⟩ := stepped
        exact .inr ⟨stream, same.symm, .inr ⟨fuel, rfl, finished⟩⟩

theorem Sound.step {event : ReadEvent}
    (sound : state.Sound cursor fails ctx start stop)
    (opens : cursor.Opens ctx stop)
    (failure : ∀ fuel task, ChunkedReader.TasksFail cursor fails fuel task)
    (stepped : state.step event = some later) :
    later.Sound cursor fails ctx start stop := by
  obtain ⟨running, ⟨_, ⟨stream, progress⟩, polled, rfl⟩ |
    ⟨stream, rfl, finished⟩⟩ := step_cases stepped
  · apply sound.collect
    exact (sound.going running).pollNext opens polled
  · refine { sound with going := fun _ => ?_ }
    rcases finished with ⟨place, fuel, _, finished⟩ | ⟨fuel, _, finished⟩
    · exact (sound.going running).finish (failure fuel) finished
    · exact (sound.going running).finishAwaited (failure fuel) finished

theorem sound_of_run {events : List ReadEvent} {offset size : Nat}
    (opens : cursor.Opens ctx (offset + size))
    (failure : ∀ fuel task, ChunkedReader.TasksFail cursor fails fuel task)
    (ran : Automaton.run ReaderRead.step
      (new (BufferStream.new ctx offset (some size))) events = some state) :
    state.Sound cursor fails ctx offset (offset + size) := by
  refine Automaton.run_invariant_of_forall ?_
    (sound_new cursor fails ctx offset size) ran
  intro state event next sound stepped
  exact sound.step opens failure stepped

end ReaderRead

end OpenDal
