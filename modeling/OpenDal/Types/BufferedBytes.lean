import OpenDal.Types.EmptyWrites

/-!
# What stays in the buffers of the adapters

`poll_flush` of the asynchronous writer ends as soon as `FlexBuf` is empty,
whatever the sink still has to hand over.  Dropping the blocking writer closes
the generator and leaves the bytes of `FlexBuf` behind.
-/

namespace OpenDal

/-- What `WriteGenerator::write` has accepted: the service has it or it is
queued. -/
def WriteGenerator.taken (generator : WriteGenerator) : Bytes :=
  generator.w.calls.flatMap WriterCall.bytes ++ generator.buffer.bytes

theorem WriteGenerator.Consistent.taken_eq {chunkSize : Option Nat}
    {exact : Bool} {accepted : Bytes} {writes : List Buffer}
    {generator : WriteGenerator}
    (consistent : Consistent chunkSize exact accepted writes generator) :
    generator.taken = accepted := by
  rw [taken, consistent.written, flatMap_bytes_write, consistent.complete]

variable {chunkSize : Option Nat} {exact : Bool}

/-! ## `FuturesAsyncWriter::poll_flush` -/

namespace BufferSink

/-- What the sink has passed to `WriteGenerator::write`. -/
def passed (sink : BufferSink) : Bytes :=
  match sink.state with
  | .idle (.opened w) => w.taken
  | .idle (.closed calls) => calls.flatMap WriterCall.bytes
  | .writing w _ => w.taken
  | .closing w => w.taken

theorem Open.passed_append {bytes : Bytes} {sink : BufferSink}
    (holds : Open chunkSize exact bytes sink) :
    sink.passed ++ sink.buf.bytes = bytes := by
  obtain ⟨delivered, writes, generator, consistent, whole, state⟩ := holds
  have taken : sink.passed = delivered := by
    rcases state with idle | ⟨writing, _⟩
    · simp only [passed, idle, consistent.taken_eq]
    · simp only [passed, writing, consistent.taken_eq]
  rw [taken, whole]

end BufferSink

/-- When `poll_flush` is ready, everything accepted has been passed on and
both buffers are empty exactly when they were empty before the call. -/
theorem pollFlush_complete_iff (chunkSize : Option Nat) (exact : Bool)
    {polls : List SlicePoll} {session : AsyncWriteSession}
    {schedule : List Bool} {later : FuturesAsyncWriter}
    (ran : Automaton.run AsyncWriteSession.stepSlice
      (.new (.new .infallible chunkSize exact)) polls = some session)
    (flushed : session.writer.pollFlush 2 schedule =
      some (.ready (.ok ()), later)) :
    (later.sink.passed = session.accepted ∧ later.buf.bytes = [] ∧
        later.sink.buf.bytes = []) ↔
      session.writer.buf.bytes = [] ∧ session.writer.sink.buf.bytes = [] := by
  obtain ⟨poll, other, polled, ⟨sent, ready, whole⟩, result⟩ :=
    (AsyncWriteSession.holds_of_run ran).pollFlush schedule 0
  cases polled.symm.trans flushed
  rcases result with impossible | ⟨_, emptied, left⟩
  · cases impossible
  · rw [← left]
    constructor
    · intro complete
      exact complete.2.2
    · intro empty
      refine ⟨?_, emptied, empty⟩
      rw [whole, emptied, List.append_nil, ← ready.passed_append, empty,
        List.append_nil]

/-- A flush without writes, and one of two bytes: they are in the sink when it
is ready, and stay there when the next flush is ready. -/
theorem pollFlush_complete_iff_twice :
    (∃ later, (AsyncWriteSession.new
        (.new .infallible none false)).writer.pollFlush 2 [] =
          some (.ready (.ok ()), later) ∧
      later.sink.passed = []) ∧
    (∃ session later,
      Automaton.run AsyncWriteSession.stepSlice
        (.new (.new .infallible none false))
        [.write [1, 2] [], .flush [true]] = some session ∧
      session.writer.pollFlush 2 [true] = some (.ready (.ok ()), later) ∧
      later.buf.bytes = [] ∧ later.sink.buf.bytes = [1, 2]) := by
  constructor
  · have ran : Automaton.run AsyncWriteSession.stepSlice
        (.new (.new .infallible none false)) [] = some _ :=
      Automaton.run_nil _ _
    have flushed : (AsyncWriteSession.new
        (.new .infallible none false)).writer.pollFlush 2 [] =
          some (.ready (.ok ()), _) := rfl
    have complete := pollFlush_complete_iff none false ran flushed
    exact ⟨_, flushed, (complete.mpr ⟨rfl, rfl⟩).1⟩
  · exact ⟨_, _, rfl, rfl, rfl, rfl⟩

/-- Two bytes are written and flushed, and the sink has them when the flush is
ready. -/
theorem pollFlush_complete_fails :
    ¬ (∀ polls session schedule later,
        Automaton.run AsyncWriteSession.stepSlice
          (.new (.new .infallible none false)) polls = some session →
        session.writer.pollFlush 2 schedule =
          some (.ready (.ok ()), later) →
        later.sink.passed = session.accepted ∧ later.buf.bytes = [] ∧
          later.sink.buf.bytes = []) := by
  intro claimed
  have ran : Automaton.run AsyncWriteSession.stepSlice
      (.new (.new .infallible none false)) [.write [1, 2] []] = some _ := rfl
  obtain ⟨_, _, emptied⟩ := claimed _ _ [true, true] _ ran rfl
  cases emptied

/-! ## Dropping a `StdWriter` -/

namespace StdWriter

/-- The calls that the service has received when the writer is dropped.  The
result of closing is not looked at. -/
def drop (fuel : Nat) (writer : StdWriter) : Option (List WriterCall) :=
  match writer.w with
  | .closed calls => some calls
  | .opened w => (w.close fuel).map fun (_, w) => w.w.calls

theorem Carries.drop {delivered : Bytes} {writer : StdWriter}
    (carries : Carries chunkSize exact delivered writer) (fuel : Nat) :
    ∃ dropped, writer.drop (fuel + 2) = some dropped ∧
      dropped.flatMap WriterCall.bytes = delivered := by
  obtain ⟨generator, writes, opened, consistent, _⟩ := carries
  obtain ⟨closed, written, finished, calls, bytes, _⟩ := consistent.close fuel
  refine ⟨closed.w.calls, ?_, ?_⟩
  · simp only [StdWriter.drop, opened, finished, Option.map_some]
  · rw [calls, List.flatMap_append, flatMap_bytes_write, bytes]
    exact List.append_nil delivered

end StdWriter

namespace StdSession

/-- The service gets the same bytes whether the writer is dropped or closed,
which are all that were accepted. -/
def DropsAsClosed (session : StdSession) : Prop :=
  ∃ dropped closed, session.writer.drop (StdWriter.capacity + 2) =
      some dropped ∧
    session.writer.close (StdWriter.capacity + 2) = some (.ok (), closed) ∧
    dropped.flatMap WriterCall.bytes = session.accepted ∧
    closed.w.calls.flatMap WriterCall.bytes = session.accepted

variable {session : StdSession}

theorem Level.dropsAsClosed (level : session.Level chunkSize exact) :
    session.DropsAsClosed ↔ session.writer.buf.bytes = [] := by
  obtain ⟨delivered, carries, whole⟩ := level
  obtain ⟨dropped, ended, received⟩ := carries.drop StdWriter.capacity
  constructor
  · intro stores
    obtain ⟨other, _, again, _, same, _⟩ := stores
    cases again.symm.trans ended
    rw [received, ← whole, List.self_eq_append_right] at same
    exact same
  · intro empty
    rw [empty, List.append_nil] at whole
    obtain ⟨n, closed, finished, bytes, _⟩ := carries.close StdWriter.capacity
    rw [empty, List.take_nil, List.append_nil] at bytes
    exact ⟨dropped, closed, ended, finished, received.trans whole,
      bytes.trans whole⟩

theorem Gap.not_dropsAsClosed (gap : session.Gap chunkSize exact) :
    ¬ session.DropsAsClosed := by
  intro stores
  obtain ⟨_, closed, _, finished, _, received⟩ := stores
  obtain ⟨other, again, missing⟩ := close_gap gap
  cases again.symm.trans finished
  exact missing received

/-- After every sequence of calls, dropping the writer stores what closing it
stores, namely what was accepted, exactly when no flush on the way found more
in the buffer than the generator takes at once and nothing is left in the
buffer. -/
theorem dropsAsClosed_iff (chunkSize : Option Nat) (exact : Bool) {fuel : Nat}
    {calls : List SliceCall}
    (ran : Automaton.run (stepSlice fuel)
      (new (.new .infallible chunkSize exact)) calls = some session) :
    session.DropsAsClosed ↔
      Automaton.Along (stepSlice fuel) KeepsSlice
        (new (.new .infallible chunkSize exact)) calls ∧
      session.writer.buf.bytes = [] := by
  obtain ⟨whenKept, whenCut⟩ := level_or_gap stepSlice_effect ran
  by_cases along : Automaton.Along (stepSlice fuel) KeepsSlice
      (new (.new .infallible chunkSize exact)) calls
  · simp [along, (whenKept along).dropsAsClosed]
  · simp [along, (whenCut along).not_dropsAsClosed]

/-- Two bytes in chunks of four that are flushed before the writer is
dropped. -/
theorem dropsAsClosed_iff_flushed :
    ∃ session, Automaton.run (stepSlice 2)
      (new (.new .infallible (some 4) true)) [.write [1, 2], .flush] =
        some session ∧
    session.accepted = [1, 2] ∧ session.DropsAsClosed := by
  have ran : Automaton.run (stepSlice 2)
      (new (.new .infallible (some 4) true)) [.write [1, 2], .flush] =
        some _ := rfl
  refine ⟨_, ran, rfl, (dropsAsClosed_iff _ _ ran).mpr ⟨?_, rfl⟩⟩
  refine ⟨trivial, ?_, trivial⟩
  intro room known
  cases known
  decide

/-- Two bytes are written and the writer is dropped. -/
theorem dropsAsClosed_fails :
    ¬ (∀ fuel calls session, Automaton.run (stepSlice fuel)
        (new (.new .infallible none false)) calls = some session →
      session.DropsAsClosed) := by
  intro claimed
  have ran : Automaton.run (stepSlice 1)
      (new (.new .infallible none false)) [.write [1, 2]] = some _ := rfl
  have level := (level_or_gap stepSlice_effect ran).1 ⟨trivial, trivial⟩
  have empty := level.dropsAsClosed.mp (claimed _ _ _ ran)
  cases empty

end StdSession

end OpenDal
