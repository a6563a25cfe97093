import OpenDal.Types.ReadTermination

/-!
# Reading a fixed content

The service answers every request with a reader of the requested part of one
content.  Then every schedule of a read comes to its end, and the result is
the content of the range, whether it is read by one reader or in chunks by any
number of tasks.
-/

namespace OpenDal

variable {R : Type}

/-! ## Resumptions that do not have to wait -/

namespace ChunkedReader

variable {reader : ChunkedReader R}

private theorem pollRead_looping_isSome (reader : ChunkedReader R) :
    (reader.pollRead .looping).isSome = true := by
  simp only [ChunkedReader.pollRead]
  split
  · split <;> rfl
  · rfl

private theorem pollRead_executing_isSome {future : ExecuteFuture R Buffer}
    (resumes : (reader.tasks.pollExecute future).isSome = true) :
    (reader.pollRead (.executing future)).isSome = true := by
  obtain ⟨⟨tasks, progress⟩, resumed⟩ := Option.isSome_iff_exists.mp resumes
  simp only [ChunkedReader.pollRead, resumed, Option.bind_eq_bind,
    Option.bind_some]
  cases progress with
  | suspended future => rfl
  | panicked message => rfl
  | returned result =>
      cases result with
      | error err => rfl
      | ok accepted =>
          simp only
          split <;> rfl

private theorem pollRead_draining_isSome {future : NextFuture}
    (resumes : (reader.tasks.pollNext future).isSome = true) :
    (reader.pollRead (.draining future)).isSome = true := by
  obtain ⟨⟨tasks, progress⟩, resumed⟩ := Option.isSome_iff_exists.mp resumes
  simp only [ChunkedReader.pollRead, resumed, Option.bind_eq_bind,
    Option.bind_some]
  cases progress with
  | suspended future => rfl
  | panicked message => rfl
  | returned result => cases result <;> rfl

end ChunkedReader

/-! ## The service -/

variable [Read R] {content : Bytes} {ctx : ReadContext R}
  {start stop position : Nat}

/-- Tasks never fail. -/
def neverFails : Chunk → R → Error → Prop := fun _ _ _ => False

theorem tasksFail_never (fuel : Nat) (task : Option (Task R Buffer)) :
    ChunkedReader.TasksFail (Cursor.ofContent R content) neverFails fuel
      task := by
  intro chunk r handedBack err _ stands produced
  exact stands.2.2.readAll_ne_error produced

theorem ReadContext.Serves.not_blamed (serves : ctx.Serves Read.Yields content)
    (within : stop ≤ content.length) {err : Error} :
    ¬ Blamed (Cursor.ofContent R content) neverFails ctx stop err := by
  intro blamed
  cases blamed with
  | @unopened offset size _ inside refused =>
      obtain ⟨r, answered, _⟩ := serves offset size (by omega)
      cases refused.symm.trans answered
  | reader stands failed =>
      obtain ⟨buf, later, answered⟩ := stands.2.2.exists_read
      cases failed.symm.trans answered
  | task failed => exact failed

/-- A reader never gets beyond the end of its range, and reading all of it
comes to an end. -/
structure Cursor.Finite (cursor : Cursor R) : Prop where
  inside : ∀ {stop position r}, cursor.stands stop position r →
    position ≤ stop
  ends : ∀ {stop position r}, cursor.stands stop position r →
    ∃ fuel later result, Read.readAll fuel r = some (later, result)

theorem Cursor.finite_ofContent (content : Bytes) :
    (Cursor.ofContent R content).Finite where
  inside := fun stands => stands.1
  ends := by
    intro stop position r stands
    obtain ⟨fuel, later, buf, finished⟩ := stands.2.2.readAll
    exact ⟨fuel, later, .ok buf, finished⟩

theorem StreamingReader.Stands.position_le {cursor : Cursor R}
    {reader : StreamingReader R} (finite : cursor.Finite)
    (stands : reader.Stands cursor ctx stop position) :
    position ≤ stop := by
  have total := stands.ends.unopened_eq
  cases inside : reader.reader with
  | none =>
      have here := stands.between inside
      omega
  | some r =>
      have here := finite.inside (stands.inside r inside)
      omega

namespace BufferStream

variable {stream later : BufferStream R}
  {fails : Chunk → R → Error → Prop} {cursor : Cursor R}

theorem Fits.position_le (finite : cursor.Finite)
    (fits : stream.Fits cursor fails ctx stop position) :
    position ≤ stop := by
  unfold Fits at fits
  cases current : stream.call with
  | one reader =>
      rw [current] at fits
      exact StreamingReader.Stands.position_le finite fits
  | two pair =>
      rw [current] at fits
      exact ChunkedReader.Fits.position_le fits

/-! ## Some event is always possible -/

private theorem pollNext_isSome_of_one {reader : StreamingReader R}
    (current : stream.call = .one reader) :
    stream.pollNext.isSome = true := by
  rw [BufferStream.pollNext, current]
  simp only [pollReading]
  split <;> rfl

private theorem pollNext_isSome_of_two {reader : ChunkedReader R}
    {future : ReadFuture R} (current : stream.call = .two (reader, future))
    (resumes : (reader.pollRead future).isSome = true) :
    stream.pollNext.isSome = true := by
  obtain ⟨⟨next, progress⟩, resumed⟩ := Option.isSome_iff_exists.mp resumes
  rw [BufferStream.pollNext, current]
  simp only [pollReading, resumed, Option.bind_eq_bind, Option.bind_some]
  cases progress <;> rfl

private theorem finish_isSome {reader : ChunkedReader R}
    {future : ReadFuture R} {place fuel : Nat}
    (current : stream.call = .two (reader, future))
    (ends : (reader.finish place fuel).isSome = true) :
    (stream.finish place fuel).isSome = true := by
  obtain ⟨next, finished⟩ := Option.isSome_iff_exists.mp ends
  cases stream with
  | idle either =>
      cases either with
      | one reader => cases current
      | two reader =>
          cases current
          simp [BufferStream.finish, finished]
  | reading call =>
      cases current
      simp [BufferStream.finish, finished]

private theorem finishAwaited_isSome {reader : ChunkedReader R}
    {future : ReadFuture R} {fuel : Nat}
    (current : stream.call = .two (reader, future))
    (ends : (future.finish fuel).isSome = true) :
    (stream.finishAwaited fuel).isSome = true := by
  obtain ⟨next, finished⟩ := Option.isSome_iff_exists.mp ends
  cases stream with
  | idle either =>
      cases either with
      | one reader => cases current
      | two reader =>
          cases current
          cases finished
  | reading call =>
      cases current
      simp [BufferStream.finishAwaited, finished]

end BufferStream

namespace ChunkedReader

variable {reader : ChunkedReader R} {cursor : Cursor R}
  {fails : Chunk → R → Error → Prop}

private theorem finish_front_isSome {open_ : List Chunk} {r : R}
    {rest : List (Task R Buffer)}
    (finite : cursor.Finite)
    (running : reader.Running (cursor.contract fails) ctx stop open_)
    (front : reader.tasks.tasks = .running r :: rest) :
    ∃ fuel, (reader.finish 0 fuel).isSome = true := by
  obtain ⟨_, waiting, _, _, tasks⟩ := running.aligned.sequence
  rw [front] at tasks
  obtain ⟨chunk, _, stands, _, _⟩ := List.forall₂_cons_right_iff.mp tasks
  obtain ⟨fuel, handedBack, result, finished⟩ := finite.ends stands
  refine ⟨fuel, ?_⟩
  simp [ChunkedReader.finish, ConcurrentTasks.finish, front, Task.finish,
    readTask, finished]

/-- A suspended `read` can be resumed, or some task can end. -/
theorem Fits.progress {future : ReadFuture R} (finite : cursor.Finite)
    (fits : Fits (cursor.contract fails) ctx stop position reader future) :
    (reader.pollRead future).isSome = true ∨
      (∃ place fuel, (reader.finish place fuel).isSome = true) ∨
      ∃ fuel, (future.finish fuel).isSome = true := by
  cases future with
  | looping => exact .inl (pollRead_looping_isSome reader)
  | executing future =>
      obtain ⟨_, _, _, _, _, places, outside⟩ := fits
      cases future with
      | unresumed r =>
          left
          apply pollRead_executing_isSome
          simp only [ConcurrentTasks.pollExecute]
          split
          · rfl
          · split <;> rfl
      | awaitingFront r => exact absurd rfl (outside r)
      | awaitingTask task =>
          cases task with
          | ready r result =>
              left
              apply pollRead_executing_isSome
              cases result <;> rfl
          | running r =>
              right
              right
              obtain ⟨fuel, handedBack, result, finished⟩ :=
                finite.ends places.1
              refine ⟨fuel, ?_⟩
              simp [ReadFuture.finish, ExecuteFuture.finish, Task.finish,
                readTask, finished]
  | draining future =>
      obtain ⟨open_, running, _, waits, _⟩ := fits
      cases future with
      | unresumed =>
          left
          apply pollRead_draining_isSome
          simp only [ConcurrentTasks.pollNext]
          split
          · rfl
          · split
            · rfl
            · split <;> rfl
      | awaitingFront =>
          cases tasks : reader.tasks.tasks with
          | nil => exact absurd tasks waits.2
          | cons front rest =>
              cases front with
              | running r =>
                  right
                  left
                  exact ⟨0, finish_front_isSome finite running tasks⟩
              | ready r result =>
                  left
                  apply pollRead_draining_isSome
                  cases result <;> simp [ConcurrentTasks.pollNext, tasks]

end ChunkedReader

/-- An unfinished stream can be polled, or some task can end. -/
theorem BufferStream.Fits.progress {stream : BufferStream R}
    {cursor : Cursor R} {fails : Chunk → R → Error → Prop}
    (finite : cursor.Finite)
    (fits : stream.Fits cursor fails ctx stop position) :
    stream.pollNext.isSome = true ∨
      (∃ place fuel, (stream.finish place fuel).isSome = true) ∨
      ∃ fuel, (stream.finishAwaited fuel).isSome = true := by
  unfold BufferStream.Fits at fits
  cases current : stream.call with
  | one reader => exact .inl (pollNext_isSome_of_one current)
  | two pair =>
      obtain ⟨reader, future⟩ := pair
      rw [current] at fits
      rcases ChunkedReader.Fits.progress finite fits with
        resumes | ⟨place, fuel, ends⟩ | ⟨fuel, ends⟩
      · exact .inl (pollNext_isSome_of_two current resumes)
      · exact .inr (.inl ⟨place, fuel, finish_isSome current ends⟩)
      · exact .inr (.inr ⟨fuel, finishAwaited_isSome current ends⟩)

/-! ## Whole reads -/

namespace ReaderRead

variable {state later : ReaderRead R} {cursor : Cursor R}
  {fails : Chunk → R → Error → Prop}

theorem Sound.decreases {event : ReadEvent} (finite : cursor.Finite)
    (sound : state.Sound cursor fails ctx start stop)
    (opens : cursor.Opens ctx stop)
    (stepped : state.step event = some later) :
    measure start stop later < measure start stop state := by
  obtain ⟨running, ⟨_, ⟨stream, progress⟩, polled, rfl⟩ |
    ⟨stream, rfl, finished⟩⟩ := step_cases stepped
  · have fits := sound.going running
    obtain ⟨lowered, bounded⟩ := fits.pollNext_weight polled
    cases fits.pollNext opens polled with
    | suspended _ => exact measure_lt running (lowered rfl)
    | @piece buf nonempty _ moved =>
        have inside := moved.position_le finite
        have lighter := bounded buf rfl
        have positive := Buffer.len_pos nonempty
        simp only [measure, ReaderRead.collect, running, Option.isSome_none,
          Bool.false_eq_true, if_false, List.flatMap_append,
          List.flatMap_singleton, List.length_append, Buffer.length_bytes]
        omega
    | ended _ => exact measure_pos running
    | failed _ => exact measure_pos running
  · rcases finished with ⟨place, fuel, _, finished⟩ | ⟨fuel, _, finished⟩
    · exact measure_lt running (BufferStream.finish_weight finished)
    · exact measure_lt running (BufferStream.finishAwaited_weight finished)

theorem Sound.progress (finite : cursor.Finite)
    (sound : state.Sound cursor fails ctx start stop)
    (running : state.result = none) :
    ∃ event, (state.step event).isSome = true := by
  have going : (state.result.isSome || state.panicked) = false := by
    simp [running, sound.unpanicked]
  rcases (sound.going running).progress finite with
    resumes | ⟨place, fuel, ends⟩ | ⟨fuel, ends⟩
  · exact ⟨.poll, by simpa [ReaderRead.step, going] using resumes⟩
  · exact ⟨.finish place fuel, by simpa [ReaderRead.step, going] using ends⟩
  · exact ⟨.finishAwaited fuel, by simpa [ReaderRead.step, going] using ends⟩

end ReaderRead

/-- Collecting the stream comes to its end in every schedule, and its result
has the property. -/
structure BufferStream.Settles (stream : BufferStream R)
    (property : Except Error Buffer → Prop) : Prop where
  terminates : ∃ bound, ∀ events state,
    Automaton.run ReaderRead.step (.new stream) events = some state →
      events.length ≤ bound
  continues : ∀ events state,
    Automaton.run ReaderRead.step (.new stream) events = some state →
      state.result = none → ∃ event, (state.step event).isSome = true
  unpanicked : ∀ events state,
    Automaton.run ReaderRead.step (.new stream) events = some state →
      state.panicked = false
  returns : ∀ events state result,
    Automaton.run ReaderRead.step (.new stream) events = some state →
      state.result = some result → property result

theorem BufferStream.Settles.imp {stream : BufferStream R}
    {property other : Except Error Buffer → Prop}
    (settles : stream.Settles property)
    (implies : ∀ result, property result → other result) :
    stream.Settles other where
  terminates := settles.terminates
  continues := settles.continues
  unpanicked := settles.unpanicked
  returns := fun events state result ran finished =>
    implies result (settles.returns events state result ran finished)

/-- A stream of a range of known size settles if the readers of the service
come to their ends. -/
theorem BufferStream.settles_new {cursor : Cursor R}
    {fails : Chunk → R → Error → Prop} (finite : cursor.Finite) {size : Nat}
    (opens : cursor.Opens ctx (start + size))
    (failure : ∀ fuel task, ChunkedReader.TasksFail cursor fails fuel task)
    {property : Except Error Buffer → Prop}
    (failed : ∀ err, Blamed cursor fails ctx (start + size) err →
      property (.error err))
    (succeeded : ∀ buf, cursor.piece start buf.bytes → buf.len = size →
      property (.ok buf)) :
    (BufferStream.new ctx start (some size)).Settles property := by
  have sound : ∀ {events state},
      Automaton.run ReaderRead.step
        (.new (BufferStream.new ctx start (some size))) events = some state →
      state.Sound cursor fails ctx start (start + size) :=
    fun ran => ReaderRead.sound_of_run opens failure ran
  constructor
  · refine ⟨ReaderRead.measure start (start + size)
      (.new (BufferStream.new ctx start (some size))), ?_⟩
    intro events state ran
    have kept : ∀ {state event next},
        state.Sound cursor fails ctx start (start + size) → True →
        ReaderRead.step state event = some next →
        next.Sound cursor fails ctx start (start + size) :=
      fun sound _ stepped => sound.step opens failure stepped
    exact Automaton.run_length_le _ kept
      (fun sound _ stepped => sound.decreases finite opens stepped)
      (ReaderRead.sound_new cursor fails ctx start size)
      (fun _ _ => trivial) ran
  · intro events state ran running
    exact (sound ran).progress finite running
  · intro events state ran
    exact (sound ran).unpanicked
  · intro events state result ran finished
    cases result with
    | error err => exact failed err ((sound ran).failed err finished)
    | ok buf =>
        obtain ⟨right, reaches⟩ := (sound ran).succeeded buf finished
        exact succeeded buf right (Nat.add_left_cancel reaches)

/-- Collecting the stream comes to its end in every schedule, and gives these
bytes. -/
structure BufferStream.Collects (stream : BufferStream R) (bytes : Bytes) :
    Prop where
  terminates : ∃ bound, ∀ events state,
    Automaton.run ReaderRead.step (.new stream) events = some state →
      events.length ≤ bound
  continues : ∀ events state,
    Automaton.run ReaderRead.step (.new stream) events = some state →
      state.result = none → ∃ event, (state.step event).isSome = true
  unpanicked : ∀ events state,
    Automaton.run ReaderRead.step (.new stream) events = some state →
      state.panicked = false
  returns : ∀ events state result,
    Automaton.run ReaderRead.step (.new stream) events = some state →
      state.result = some result →
      ∃ buf, result = .ok buf ∧ buf.bytes = bytes

theorem BufferStream.Settles.collects {stream : BufferStream R}
    {bytes : Bytes}
    (settles : stream.Settles fun result =>
      ∃ buf, result = .ok buf ∧ buf.bytes = bytes) :
    stream.Collects bytes where
  terminates := settles.terminates
  continues := settles.continues
  unpanicked := settles.unpanicked
  returns := settles.returns

theorem BufferStream.Collects.finishes {stream : BufferStream R}
    {bytes : Bytes} (collects : stream.Collects bytes) :
    ∃ events state result,
      Automaton.run ReaderRead.step (.new stream) events = some state ∧
        state.result = some result := by
  obtain ⟨bound, bounded⟩ := collects.terminates
  have continues : ∀ events state,
      Automaton.run ReaderRead.step (.new stream) events = some state →
      ¬ state.result.isSome = true →
      ∃ event, (state.step event).isSome = true := by
    intro events state ran running
    exact collects.continues events state ran (by simpa using running)
  obtain ⟨events, state, ran, finished⟩ :=
    Automaton.run_finishes bounded continues
  obtain ⟨result, returned⟩ := Option.isSome_iff_exists.mp finished
  exact ⟨events, state, result, ran, returned⟩

theorem BufferStream.Collects.unique {stream : BufferStream R}
    {bytes others : Bytes} (collects : stream.Collects bytes)
    (again : stream.Collects others) : bytes = others := by
  obtain ⟨events, state, result, ran, finished⟩ := collects.finishes
  obtain ⟨buf, returned, right⟩ := collects.returns events state result ran
    finished
  obtain ⟨same, returned', right'⟩ := again.returns events state result ran
    finished
  rw [returned] at returned'
  cases returned'
  exact right.symm.trans right'

theorem BufferStream.collects_new {size : Nat}
    (serves : ctx.Serves Read.Yields content) (within : start + size ≤ content.length) :
    (BufferStream.new ctx start (some size)).Collects
      ((content.drop start).take size) := by
  apply BufferStream.Settles.collects
  apply BufferStream.settles_new (Cursor.finite_ofContent content)
    (serves.opens within) tasksFail_never
  · intro err blamed
    exact absurd blamed (serves.not_blamed within)
  · intro buf right length
    have begins : buf.bytes <+: content.drop start := right
    refine ⟨buf, rfl, ?_⟩
    rw [List.prefix_iff_eq_take.mp begins, Buffer.length_bytes, length]

/-- Chunked concurrent reading equals plain reading.  For every part of the
content, collecting the stream that reads in chunks, and collecting the stream
that reads at once, end in every schedule and give the same bytes: that part
of the content.  Chunk size and concurrency are those of the context and at
least one. -/
theorem Reader.chunked_eq_plain (content : Bytes) {start stop : Nat}
    (ordered : start ≤ stop) (within : stop ≤ content.length)
    (chunked plain : ReadContext R)
    (inChunks : chunked.options.chunk.isSome = true)
    (atOnce : plain.options.chunk = none)
    (chunkedServes : chunked.Serves Read.Yields content)
    (plainServes : plain.Serves Read.Yields content) :
    ∃ (concurrent : ChunkedReader R) (streaming : StreamingReader R),
      BufferStream.create chunked ⟨.included start, .excluded stop⟩ =
        some (.ok (.idle (.two concurrent))) ∧
      BufferStream.create plain ⟨.included start, .excluded stop⟩ =
        some (.ok (.idle (.one streaming))) ∧
      (BufferStream.idle (.two concurrent)).Collects
        ((content.drop start).take (stop - start)) ∧
      (BufferStream.idle (.one streaming)).Collects
        ((content.drop start).take (stop - start)) := by
  have reaches : start + (stop - start) = stop := Nat.add_sub_cancel' ordered
  have bounds : BytesRange.fromBounds ⟨.included start, .excluded stop⟩ =
      some ⟨start, some (stop - start)⟩ := by
    rw [← reaches, BytesRange.fromBounds_exclusive, Nat.add_sub_cancel_left]
  have created : ∀ ctx : ReadContext R,
      BufferStream.create ctx ⟨.included start, .excluded stop⟩ =
        some (.ok (.new ctx start (some (stop - start)))) :=
    fun ctx => BufferStream.create_of_sizeKnown (.inl bounds)
  have collected : ∀ ctx : ReadContext R, ctx.Serves Read.Yields content →
      (BufferStream.new ctx start (some (stop - start))).Collects
        ((content.drop start).take (stop - start)) :=
    fun ctx serves => BufferStream.collects_new serves (by omega)
  have chunkedStream : BufferStream.new chunked start (some (stop - start)) =
      .idle (.two (.new chunked ⟨start, some (stop - start)⟩)) := by
    simp [BufferStream.new, inChunks]
  have plainStream : BufferStream.new plain start (some (stop - start)) =
      .idle (.one (.new plain ⟨start, some (stop - start)⟩)) := by
    simp [BufferStream.new, atOnce]
  refine ⟨.new chunked ⟨start, some (stop - start)⟩,
    .new plain ⟨start, some (stop - start)⟩, ?_, ?_, ?_, ?_⟩
  · rw [created, chunkedStream]
  · rw [created, plainStream]
  · rw [← chunkedStream]
    exact collected chunked chunkedServes
  · rw [← plainStream]
    exact collected plain plainServes

/-- Five bytes, with the given options. -/
def bytewiseContext (options : OpReader) : ReadContext ScriptedReader :=
  .new (bytewiseAccessor [1, 2, 3, 4, 5]) "file" ⟨⟨0, none⟩, none⟩ options

theorem Reader.chunked_eq_plain_bytewise :
    ∃ (concurrent : ChunkedReader ScriptedReader)
      (streaming : StreamingReader ScriptedReader),
      (BufferStream.idle (.two concurrent)).Collects [2, 3, 4] ∧
      (BufferStream.idle (.one streaming)).Collects [2, 3, 4] := by
  have serves : ∀ options,
      (bytewiseContext options).Serves Read.Yields [1, 2, 3, 4, 5] := by
    intro options offset size _
    exact ⟨_, rfl, Read.yields_bytewise _⟩
  obtain ⟨concurrent, streaming, _, _, chunked, plain⟩ :=
    Reader.chunked_eq_plain [1, 2, 3, 4, 5] (show 1 ≤ 4 by decide)
      (by decide)
      (bytewiseContext ((OpReader.new.withChunk 2).withConcurrent 3))
      (bytewiseContext OpReader.new) rfl rfl (serves _) (serves _)
  exact ⟨concurrent, streaming, chunked, plain⟩

end OpenDal
