import OpenDal.Automaton
import OpenDal.Types.WriteGenerator

/-!
# `BufferSink` and `FuturesBytesSink`

The sink holds one buffer and hands it to the generator by futures, as often
as it takes until all of it has been accepted.  The polls of the inner futures
are given by a schedule: `true` is a poll that completes the future, `false`
and the end of the list are `Pending`.  What a future has done is seen only
when it completes, so its effect is placed there.

The results are about a writer of the service that never fails.
-/

namespace OpenDal

/-- The futures own the generator and, for a write, the buffer. -/
inductive BufferSinkState where
  | idle (w : WriteHandle)
  | writing (w : WriteGenerator) (buf : Buffer)
  | closing (w : WriteGenerator)

structure BufferSink where
  state : BufferSinkState
  buf : Buffer

namespace BufferSink

def new (w : WriteGenerator) : BufferSink :=
  { state := .idle (.opened w)
    buf := .new }

def closedError : Error :=
  Error.new .unexpected "state invalid: sink has been closed"

def closingError : Error :=
  Error.new .unexpected "state invalid: sink is closing"

/-- `start_send` always returns `Ok`. -/
def startSend (sink : BufferSink) (item : Buffer) : BufferSink :=
  { sink with buf := item }

/-- The arms of `poll_flush` that do not poll: they return, or make the future
of a write. -/
def enterFlush (sink : BufferSink) : Except (Except Error Unit) BufferSink :=
  match sink.state with
  | .idle w =>
      if sink.buf.isEmpty then
        .error (.ok ())
      else
        match w with
        | .closed _ => .error (.error closedError)
        | .opened w => .ok { sink with state := .writing w sink.buf }
  | .writing _ _ => .ok sink
  | .closing _ => .error (.error closingError)

/-- The arms of `poll_close` that do not poll. -/
def enterClose (sink : BufferSink) : Except (Except Error Unit) BufferSink :=
  match sink.state with
  | .idle (.closed _) => .error (.error closedError)
  | .idle (.opened w) =>
      if sink.buf.isEmpty then
        .ok { sink with state := .closing w }
      else
        .ok { sink with state := .writing w sink.buf }
  | .writing _ _ => .ok sink
  | .closing _ => .ok sink

/-- The arm `Writing` when its future is ready; `none` is a panic of
`advance`. -/
def finishWrite (sink : BufferSink) (w : WriteGenerator) (buf : Buffer) :
    Option (Except Error Unit × BufferSink) :=
  match w.write buf with
  | (.error err, w) => some (.error err, ⟨.idle (.opened w), sink.buf⟩)
  | (.ok n, w) =>
      (sink.buf.advance n).map fun buf => (.ok (), ⟨.idle (.opened w), buf⟩)

/-- The result, the sink and what is left of the schedule. -/
def pollFlush (schedule : List Bool) (sink : BufferSink) :
    Option (Poll (Except Error Unit) × BufferSink × List Bool) :=
  match sink.enterFlush with
  | .error res => some (.ready res, sink, schedule)
  | .ok sink =>
      match schedule, sink.state with
      | true :: schedule, .writing w buf =>
          match sink.finishWrite w buf with
          | none => none
          | some (.error err, sink) =>
              some (.ready (.error err), sink, schedule)
          | some (.ok (), sink) => pollFlush schedule sink
      | _, _ => some (.pending, sink, schedule.tail)

def pollReady (schedule : List Bool) (sink : BufferSink) :
    Option (Poll (Except Error Unit) × BufferSink × List Bool) :=
  sink.pollFlush schedule

/-- Two iterations are enough for the generator to close. -/
def pollClose (schedule : List Bool) (sink : BufferSink) :
    Option (Poll (Except Error Unit) × BufferSink) :=
  match sink.enterClose with
  | .error res => some (.ready res, sink)
  | .ok sink =>
      match schedule, sink.state with
      | true :: schedule, .writing w buf =>
          match sink.finishWrite w buf with
          | none => none
          | some (.error err, sink) => some (.ready (.error err), sink)
          | some (.ok (), sink) => pollClose schedule sink
      | true :: _, .closing w =>
          match w.close 2 with
          | none => none
          | some (.error err, w) =>
              some (.ready (.error err), { sink with state := .idle (.opened w) })
          | some (.ok (), w) =>
              some (.ready (.ok ()),
                { sink with state := .idle (.closed w.w.calls) })
      | _, _ => some (.pending, sink)

/-! ## What the sink holds -/

/-- `bytes` is what was sent: the generator has accepted a front part of it,
the rest is in the buffer. -/
def Open (chunkSize : Option Nat) (exact : Bool) (bytes : Bytes)
    (sink : BufferSink) : Prop :=
  ∃ delivered writes generator,
    WriteGenerator.Consistent chunkSize exact delivered writes generator ∧
    bytes = delivered ++ sink.buf.bytes ∧
    (sink.state = .idle (.opened generator) ∨
      sink.state = .writing generator sink.buf ∧ sink.buf.bytes ≠ [])

/-- The generator has accepted everything and is being closed. -/
def Closing (chunkSize : Option Nat) (exact : Bool) (bytes : Bytes)
    (sink : BufferSink) : Prop :=
  ∃ writes generator,
    WriteGenerator.Consistent chunkSize exact bytes writes generator ∧
    sink.state = .closing generator

/-- The service has received everything and was closed once, after it. -/
def Closed (bytes : Bytes) (sink : BufferSink) : Prop :=
  ∃ written : List Buffer,
    sink.state = .idle (.closed (written.map .write ++ [.close])) ∧
    written.flatMap Buffer.bytes = bytes

/-- Nothing is in the buffer and no future is under way. -/
def Settled (sink : BufferSink) : Prop :=
  sink.buf.bytes = [] ∧ ∃ generator, sink.state = .idle (.opened generator)

variable {chunkSize : Option Nat} {exact : Bool} {bytes : Bytes}
  {sink : BufferSink}

theorem open_new (chunkSize : Option Nat) (exact : Bool) :
    Open chunkSize exact [] (new (.new .infallible chunkSize exact)) ∧
      Settled (new (.new .infallible chunkSize exact)) :=
  ⟨⟨[], [], _, WriteGenerator.consistent_new chunkSize exact, rfl, .inl rfl⟩,
    rfl, _, rfl⟩

theorem Open.startSend (holds : Open chunkSize exact bytes sink)
    (settled : sink.Settled) (item : Buffer) :
    Open chunkSize exact (bytes ++ item.bytes) (sink.startSend item) := by
  obtain ⟨delivered, writes, generator, consistent, whole, state⟩ := holds
  obtain ⟨empty, other, idle⟩ := settled
  rw [empty, List.append_nil] at whole
  rcases state with state | ⟨_, filled⟩
  · exact ⟨delivered, writes, generator, consistent, by rw [whole]; rfl,
      .inl state⟩
  · exact absurd empty filled

theorem Open.settled (holds : Open chunkSize exact bytes sink)
    (empty : sink.buf.bytes = []) : sink.Settled := by
  obtain ⟨_, _, generator, _, _, idle | ⟨_, filled⟩⟩ := holds
  · exact ⟨empty, generator, idle⟩
  · exact absurd empty filled

theorem Open.enterFlush (holds : Open chunkSize exact bytes sink) :
    (sink.enterFlush = .error (.ok ()) ∧ sink.Settled) ∨
    (∃ entered generator, sink.enterFlush = .ok entered ∧
      entered.state = .writing generator entered.buf ∧
      entered.buf = sink.buf ∧ Open chunkSize exact bytes entered) := by
  obtain ⟨delivered, writes, generator, consistent, whole, state⟩ := holds
  rcases state with idle | ⟨writing, filled⟩
  · by_cases empty : sink.buf.isEmpty = true
    · refine .inl ⟨by simp [BufferSink.enterFlush, idle, empty], ?_⟩
      exact ⟨(Buffer.isEmpty_iff _).mp empty, generator, idle⟩
    · refine .inr ⟨{ sink with state := .writing generator sink.buf },
        generator, by simp [BufferSink.enterFlush, idle, empty], rfl, rfl, ?_⟩
      have filled : sink.buf.bytes ≠ [] :=
        fun none => empty ((Buffer.isEmpty_iff _).mpr none)
      exact ⟨delivered, writes, generator, consistent, whole,
        .inr ⟨rfl, filled⟩⟩
  · refine .inr ⟨sink, generator, by simp [BufferSink.enterFlush, writing],
      writing, rfl, ?_⟩
    exact ⟨delivered, writes, generator, consistent, whole,
      .inr ⟨writing, filled⟩⟩

theorem Open.finishWrite (holds : Open chunkSize exact bytes sink)
    {generator : WriteGenerator}
    (writing : sink.state = .writing generator sink.buf) :
    ∃ later, sink.finishWrite generator sink.buf = some (.ok (), later) ∧
      Open chunkSize exact bytes later ∧
      later.buf.len ≤ sink.buf.len ∧
      (later.buf.len < sink.buf.len ↔
        ¬ WriteGenerator.Stuck chunkSize exact) := by
  obtain ⟨delivered, writes, other, consistent, whole, state⟩ := holds
  rcases state with idle | ⟨same, filled⟩
  · cases idle.symm.trans writing
  · cases same.symm.trans writing
    have nonempty : 0 < sink.buf.len := by
      rw [← Buffer.length_bytes]
      exact List.length_pos_iff.mpr filled
    obtain ⟨n, passed, written, accepted, bound, progress, _, kept⟩ :=
      consistent.accepts sink.buf
    obtain ⟨rest, advanced, restBytes⟩ := Buffer.advance_spec bound
    have left : rest.len = sink.buf.len - n := by
      rw [← Buffer.length_bytes, restBytes, List.length_drop,
        Buffer.length_bytes]
    refine ⟨⟨.idle (.opened passed), rest⟩, ?_, ?_, ?_, ?_⟩
    · simp [BufferSink.finishWrite, accepted, advanced]
    · refine ⟨_, written, passed, kept, ?_, .inl rfl⟩
      rw [whole, restBytes, List.append_assoc, List.take_append_drop]
    · rw [left]
      exact Nat.sub_le _ _
    · rw [left, ← progress nonempty]
      omega

/-- Polling moves bytes from the buffer to the generator and loses none; when
it returns the sink is settled. -/
theorem Open.pollFlush
    (holds : Open chunkSize exact bytes sink) (schedule : List Bool) :
    ∃ poll later rest, sink.pollFlush schedule = some (poll, later, rest) ∧
      Open chunkSize exact bytes later ∧
      (poll = .pending ∨ poll = .ready (.ok ()) ∧ later.Settled) := by
  induction schedule generalizing sink with
  | nil =>
      rcases holds.enterFlush with
        ⟨returned, settled⟩ | ⟨entered, generator, made, _, _, kept⟩
      · exact ⟨_, sink, [], by simp only [BufferSink.pollFlush, returned],
          holds, .inr ⟨rfl, settled⟩⟩
      · exact ⟨_, entered, [], by simp [BufferSink.pollFlush, made], kept,
          .inl rfl⟩
  | cons completes schedule induction =>
      rcases holds.enterFlush with
        ⟨returned, settled⟩ | ⟨entered, generator, made, writing, _, kept⟩
      · exact ⟨_, sink, completes :: schedule,
          by simp only [BufferSink.pollFlush, returned], holds,
          .inr ⟨rfl, settled⟩⟩
      · cases completes with
        | false =>
            exact ⟨_, entered, schedule, by simp [BufferSink.pollFlush, made],
              kept, .inl rfl⟩
        | true =>
            obtain ⟨later, finished, kept, _⟩ := kept.finishWrite writing
            obtain ⟨poll, final, rest, polled, result⟩ := induction kept
            refine ⟨poll, final, rest, ?_, result⟩
            rw [BufferSink.pollFlush]
            simp only [made, writing, finished]
            exact polled

/-- A sink whose futures complete is flushed after at most as many polls as
there are bytes in the buffer. -/
theorem Open.pollFlush_ready
    (free : ¬ WriteGenerator.Stuck chunkSize exact)
    (holds : Open chunkSize exact bytes sink) {count : Nat}
    (enough : sink.buf.len ≤ count) :
    ∃ later left, sink.pollFlush (List.replicate count true) =
        some (.ready (.ok ()), later, List.replicate left true) ∧
      Open chunkSize exact bytes later ∧ later.Settled ∧
      count ≤ left + sink.buf.len := by
  induction count generalizing sink with
  | zero =>
      rcases holds.enterFlush with
        ⟨returned, settled⟩ | ⟨entered, generator, _, writing, same, kept⟩
      · exact ⟨sink, 0, by simp [BufferSink.pollFlush, returned], holds,
          settled, by omega⟩
      · obtain ⟨_, _, _, _, _, idle | ⟨_, filled⟩⟩ := kept
        · cases idle.symm.trans writing
        · have empty : entered.buf.bytes = [] := by
            rw [← List.length_eq_zero_iff, Buffer.length_bytes, same]
            omega
          exact absurd empty filled
  | succ count induction =>
      rcases holds.enterFlush with
        ⟨returned, settled⟩ | ⟨entered, generator, made, writing, same, kept⟩
      · exact ⟨sink, count + 1, by simp [BufferSink.pollFlush, returned],
          holds, settled, by omega⟩
      · obtain ⟨later, finished, kept, _, moves⟩ := kept.finishWrite writing
        have shorter := moves.mpr free
        rw [same] at shorter
        obtain ⟨final, left, polled, held, settled, bound⟩ :=
          induction kept (by omega)
        refine ⟨final, left, ?_, held, settled, by omega⟩
        rw [List.replicate_succ, BufferSink.pollFlush]
        simp only [made, writing, finished]
        exact polled

theorem Open.enterClose (holds : Open chunkSize exact bytes sink) :
    (∃ entered, sink.enterClose = .ok entered ∧
      Closing chunkSize exact bytes entered) ∨
    (∃ entered generator, sink.enterClose = .ok entered ∧
      entered.state = .writing generator entered.buf ∧
      entered.buf = sink.buf ∧ Open chunkSize exact bytes entered) := by
  obtain ⟨delivered, writes, generator, consistent, whole, state⟩ := holds
  rcases state with idle | ⟨writing, filled⟩
  · by_cases empty : sink.buf.isEmpty = true
    · rw [(Buffer.isEmpty_iff _).mp empty, List.append_nil] at whole
      refine .inl ⟨{ sink with state := .closing generator },
        by simp [BufferSink.enterClose, idle, empty], ?_⟩
      exact ⟨writes, generator, by rwa [whole], rfl⟩
    · refine .inr ⟨{ sink with state := .writing generator sink.buf },
        generator, by simp [BufferSink.enterClose, idle, empty], rfl, rfl, ?_⟩
      have filled : sink.buf.bytes ≠ [] :=
        fun none => empty ((Buffer.isEmpty_iff _).mpr none)
      exact ⟨delivered, writes, generator, consistent, whole,
        .inr ⟨rfl, filled⟩⟩
  · refine .inr ⟨sink, generator, by simp [BufferSink.enterClose, writing],
      writing, rfl, ?_⟩
    exact ⟨delivered, writes, generator, consistent, whole,
      .inr ⟨writing, filled⟩⟩

theorem Closing.pollClose (closing : Closing chunkSize exact bytes sink)
    {entered : BufferSink} (made : entered.enterClose = .ok sink)
    (schedule : List Bool) :
    (entered.pollClose schedule = some (.pending, sink) ∧
      schedule.head? ≠ some true) ∨
    (∃ later, entered.pollClose schedule = some (.ready (.ok ()), later) ∧
      Closed bytes later) := by
  obtain ⟨writes, generator, consistent, state⟩ := closing
  rw [BufferSink.pollClose.eq_def]
  simp only [made, state]
  cases schedule with
  | nil => exact .inl ⟨rfl, by simp⟩
  | cons completes schedule =>
      cases completes with
      | false => exact .inl ⟨rfl, by simp⟩
      | true =>
          obtain ⟨closed, written, finished, calls, received, _⟩ :=
            consistent.close 0
          simp only [finished]
          exact .inr ⟨_, rfl, written, by rw [calls], received⟩

/-- Polling to close loses nothing, and when it returns the service has
everything. -/
theorem Open.pollClose
    (holds : Open chunkSize exact bytes sink) (schedule : List Bool) :
    ∃ poll later, sink.pollClose schedule = some (poll, later) ∧
      (poll = .pending ∧ (Open chunkSize exact bytes later ∨
          Closing chunkSize exact bytes later) ∨
        poll = .ready (.ok ()) ∧ Closed bytes later) := by
  induction schedule generalizing sink with
  | nil =>
      rcases holds.enterClose with
        ⟨entered, made, closing⟩ | ⟨entered, generator, made, _, _, kept⟩
      · rcases closing.pollClose made [] with ⟨polled, _⟩ | ⟨later, polled, closed⟩
        · exact ⟨_, entered, polled, .inl ⟨rfl, .inr closing⟩⟩
        · exact ⟨_, later, polled, .inr ⟨rfl, closed⟩⟩
      · exact ⟨_, entered, by simp [BufferSink.pollClose, made],
          .inl ⟨rfl, .inl kept⟩⟩
  | cons completes schedule induction =>
      rcases holds.enterClose with
        ⟨entered, made, closing⟩ | ⟨entered, generator, made, writing, _, kept⟩
      · rcases closing.pollClose made (completes :: schedule) with
          ⟨polled, _⟩ | ⟨later, polled, closed⟩
        · exact ⟨_, entered, polled, .inl ⟨rfl, .inr closing⟩⟩
        · exact ⟨_, later, polled, .inr ⟨rfl, closed⟩⟩
      · cases completes with
        | false =>
            exact ⟨_, entered, by simp [BufferSink.pollClose, made],
              .inl ⟨rfl, .inl kept⟩⟩
        | true =>
            obtain ⟨later, finished, kept, _⟩ := kept.finishWrite writing
            obtain ⟨poll, final, polled, result⟩ := induction kept
            refine ⟨poll, final, ?_, result⟩
            rw [BufferSink.pollClose]
            simp only [made, writing, finished]
            exact polled

/-- Closing a sink whose futures complete takes one poll more than there are
bytes in the buffer at most. -/
theorem Open.pollClose_ready
    (free : ¬ WriteGenerator.Stuck chunkSize exact)
    (holds : Open chunkSize exact bytes sink) {count : Nat}
    (enough : sink.buf.len ≤ count) :
    ∃ later, sink.pollClose (List.replicate (count + 1) true) =
      some (.ready (.ok ()), later) := by
  induction count generalizing sink with
  | zero =>
      rcases holds.enterClose with
        ⟨entered, made, closing⟩ | ⟨entered, generator, _, writing, same, kept⟩
      · rcases closing.pollClose made [true] with
          ⟨_, pending⟩ | ⟨later, polled, _⟩
        · exact absurd rfl pending
        · exact ⟨later, polled⟩
      · obtain ⟨_, _, _, _, _, idle | ⟨_, filled⟩⟩ := kept
        · cases idle.symm.trans writing
        · have empty : entered.buf.bytes = [] := by
            rw [← List.length_eq_zero_iff, Buffer.length_bytes, same]
            omega
          exact absurd empty filled
  | succ count induction =>
      rcases holds.enterClose with
        ⟨entered, made, closing⟩ |
        ⟨entered, generator, made, writing, same, kept⟩
      · rcases closing.pollClose made (List.replicate (count + 2) true) with
          ⟨_, pending⟩ | ⟨later, polled, _⟩
        · exact absurd rfl pending
        · exact ⟨later, polled⟩
      · obtain ⟨later, finished, kept, _, moves⟩ := kept.finishWrite writing
        have shorter := moves.mpr free
        rw [same] at shorter
        obtain ⟨final, polled⟩ := induction kept (by omega)
        refine ⟨final, ?_⟩
        rw [List.replicate_succ, BufferSink.pollClose]
        simp only [made, writing, finished]
        exact polled

/-- What `poll_close` may find after it was polled for the first time. -/
def Ending (chunkSize : Option Nat) (exact : Bool) (bytes : Bytes)
    (sink : BufferSink) : Prop :=
  Open chunkSize exact bytes sink ∨ Closing chunkSize exact bytes sink

theorem Closing.enterClose (closing : Closing chunkSize exact bytes sink) :
    sink.enterClose = .ok sink := by
  obtain ⟨_, _, _, state⟩ := closing
  simp only [BufferSink.enterClose, state]

theorem Ending.pollClose
    (ending : Ending chunkSize exact bytes sink) (schedule : List Bool) :
    ∃ poll later, sink.pollClose schedule = some (poll, later) ∧
      (poll = .pending ∧ Ending chunkSize exact bytes later ∨
        poll = .ready (.ok ()) ∧ Closed bytes later) := by
  rcases ending with holds | closing
  · exact holds.pollClose schedule
  · rcases closing.pollClose closing.enterClose schedule with
      ⟨polled, _⟩ | ⟨later, polled, closed⟩
    · exact ⟨_, sink, polled, .inl ⟨rfl, .inr closing⟩⟩
    · exact ⟨_, later, polled, .inr ⟨rfl, closed⟩⟩

theorem Ending.pollClose_ready
    (free : ¬ WriteGenerator.Stuck chunkSize exact)
    (ending : Ending chunkSize exact bytes sink) {count : Nat}
    (enough : sink.buf.len ≤ count) :
    ∃ later, sink.pollClose (List.replicate (count + 1) true) =
      some (.ready (.ok ()), later) := by
  rcases ending with holds | closing
  · exact holds.pollClose_ready free enough
  · rcases closing.pollClose closing.enterClose
        (List.replicate (count + 1) true) with
      ⟨_, pending⟩ | ⟨later, polled, _⟩
    · exact absurd rfl pending
    · exact ⟨later, polled⟩

theorem Settled.pollFlush (settled : sink.Settled) (schedule : List Bool) :
    sink.pollFlush schedule = some (.ready (.ok ()), sink, schedule) := by
  obtain ⟨empty, generator, idle⟩ := settled
  have none : sink.buf.isEmpty = true := (Buffer.isEmpty_iff _).mpr empty
  rw [BufferSink.pollFlush.eq_def]
  simp [enterFlush, idle, none]

end BufferSink

/-! ## `FuturesBytesSink` -/

/-- `map_err(format_std_io_error)` of a polled result. -/
def Poll.formatStdIoError {α : Type} :
    Poll (Except Error α) → Poll (Except IoError α)
  | .pending => .pending
  | .ready (.ok value) => .ready (.ok value)
  | .ready (.error err) => .ready (.error (.formatStdIoError err))

structure FuturesBytesSink where
  sink : BufferSink

namespace FuturesBytesSink

def new (w : WriteGenerator) : FuturesBytesSink :=
  ⟨.new w⟩

def pollReady (schedule : List Bool) (this : FuturesBytesSink) :
    Option (Poll (Except IoError Unit) × FuturesBytesSink) :=
  (this.sink.pollReady schedule).map fun (poll, sink, _) =>
    (poll.formatStdIoError, ⟨sink⟩)

def startSend (this : FuturesBytesSink) (item : Bytes) : FuturesBytesSink :=
  ⟨this.sink.startSend (.fromBytes item)⟩

def pollFlush (schedule : List Bool) (this : FuturesBytesSink) :
    Option (Poll (Except IoError Unit) × FuturesBytesSink) :=
  (this.sink.pollFlush schedule).map fun (poll, sink, _) =>
    (poll.formatStdIoError, ⟨sink⟩)

def pollClose (schedule : List Bool) (this : FuturesBytesSink) :
    Option (Poll (Except IoError Unit) × FuturesBytesSink) :=
  (this.sink.pollClose schedule).map fun (poll, sink) =>
    (poll.formatStdIoError, ⟨sink⟩)

end FuturesBytesSink

/-- How far the user of an adapter has come. -/
inductive AdapterPhase where
  | running
  | closing
  | closed
deriving DecidableEq

namespace BytesSinkSession

inductive Event where
  | pollReady (schedule : List Bool)
  | startSend (item : Bytes)
  | pollFlush (schedule : List Bool)
  | pollClose (schedule : List Bool)

end BytesSinkSession

/-- `ready` is set from a `poll_ready` that returned `Ok` up to the next
`start_send`. -/
structure BytesSinkSession where
  sink : FuturesBytesSink
  sent : Bytes
  ready : Bool
  phase : AdapterPhase

namespace BytesSinkSession

def new (w : WriteGenerator) : BytesSinkSession :=
  { sink := .new w
    sent := []
    ready := false
    phase := .running }

/-- What the protocol of a sink allows: an item is sent after `poll_ready`,
and once the sink is being closed nothing else is called. -/
def Allowed (session : BytesSinkSession) : Event → Prop
  | .pollReady _ => session.phase = .running
  | .startSend _ => session.phase = .running ∧ session.ready = true
  | .pollFlush _ => session.phase = .running
  | .pollClose _ => session.phase ≠ .closed

instance (session : BytesSinkSession) (event : Event) :
    Decidable (session.Allowed event) :=
  match event with
  | .pollReady _ => inferInstanceAs (Decidable (session.phase = .running))
  | .startSend _ =>
      inferInstanceAs
        (Decidable (session.phase = .running ∧ session.ready = true))
  | .pollFlush _ => inferInstanceAs (Decidable (session.phase = .running))
  | .pollClose _ => inferInstanceAs (Decidable (session.phase ≠ .closed))

/-- `none` is an event that is not allowed, a panic or an error. -/
def step (session : BytesSinkSession) (event : Event) :
    Option BytesSinkSession :=
  if session.Allowed event then
    match event with
    | .startSend item =>
        some { session with
          sink := session.sink.startSend item
          sent := session.sent ++ item
          ready := false }
    | .pollReady schedule =>
        match session.sink.pollReady schedule with
        | some (.pending, sink) => some { session with sink, ready := false }
        | some (.ready (.ok ()), sink) =>
            some { session with sink, ready := true }
        | _ => none
    | .pollFlush schedule =>
        match session.sink.pollFlush schedule with
        | some (.pending, sink) => some { session with sink }
        | some (.ready (.ok ()), sink) => some { session with sink }
        | _ => none
    | .pollClose schedule =>
        match session.sink.pollClose schedule with
        | some (.pending, sink) =>
            some { session with sink, ready := false, phase := .closing }
        | some (.ready (.ok ()), sink) =>
            some { session with sink, ready := false, phase := .closed }
        | _ => none
  else
    none

/-- What the phase says about the sink. -/
def Consistent (chunkSize : Option Nat) (exact : Bool)
    (session : BytesSinkSession) : Prop :=
  match session.phase with
  | .running => session.sink.sink.Open chunkSize exact session.sent ∧
      (session.ready = true → session.sink.sink.Settled)
  | .closing => session.sink.sink.Ending chunkSize exact session.sent
  | .closed => session.sink.sink.Closed session.sent

variable {chunkSize : Option Nat} {exact : Bool}
  {session : BytesSinkSession}

theorem consistent_new (chunkSize : Option Nat) (exact : Bool) :
    Consistent chunkSize exact (new (.new .infallible chunkSize exact)) := by
  refine ⟨(BufferSink.open_new chunkSize exact).1, ?_⟩
  intro impossible
  cases impossible

theorem Consistent.running (consistent : Consistent chunkSize exact session)
    (running : session.phase = .running) :
    session.sink.sink.Open chunkSize exact session.sent ∧
      (session.ready = true → session.sink.sink.Settled) := by
  simpa only [Consistent, running] using consistent

theorem Consistent.ending (consistent : Consistent chunkSize exact session)
    (unclosed : session.phase ≠ .closed) :
    session.sink.sink.Ending chunkSize exact session.sent := by
  unfold Consistent at consistent
  split at consistent
  · exact .inl consistent.1
  · exact consistent
  · contradiction

/-- No event that the protocol allows can fail. -/
theorem Consistent.progress
    (consistent : Consistent chunkSize exact session) {event : Event}
    (allowed : session.Allowed event) :
    ∃ next, session.step event = some next ∧
      Consistent chunkSize exact next := by
  simp only [step, if_pos allowed]
  cases event with
  | startSend item =>
      obtain ⟨running, ready⟩ := allowed
      obtain ⟨holds, settled⟩ := consistent.running running
      refine ⟨_, rfl, ?_⟩
      simp only [Consistent, running]
      refine ⟨holds.startSend (settled ready) (.fromBytes item), ?_⟩
      intro impossible
      cases impossible
  | pollReady schedule =>
      have running : session.phase = .running := allowed
      obtain ⟨holds, _⟩ := consistent.running running
      obtain ⟨poll, later, rest, polled, kept, result⟩ :=
        holds.pollFlush schedule
      simp only [FuturesBytesSink.pollReady, BufferSink.pollReady, polled,
        Option.map_some]
      rcases result with rfl | ⟨rfl, settled⟩
      · refine ⟨_, rfl, ?_⟩
        simp only [Consistent, running]
        refine ⟨kept, ?_⟩
        intro impossible
        cases impossible
      · refine ⟨_, rfl, ?_⟩
        simp only [Consistent, running]
        exact ⟨kept, fun _ => settled⟩
  | pollFlush schedule =>
      have running : session.phase = .running := allowed
      obtain ⟨holds, settled⟩ := consistent.running running
      by_cases ready : session.ready = true
      · have unchanged := (settled ready).pollFlush schedule
        simp only [FuturesBytesSink.pollFlush, unchanged, Option.map_some]
        exact ⟨_, rfl, consistent⟩
      · obtain ⟨poll, later, rest, polled, kept, result⟩ :=
          holds.pollFlush schedule
        have consistent : Consistent chunkSize exact
            { session with sink := ⟨later⟩ } := by
          simp only [Consistent, running]
          exact ⟨kept, fun again => absurd again ready⟩
        simp only [FuturesBytesSink.pollFlush, polled, Option.map_some]
        rcases result with rfl | ⟨rfl, _⟩
        · exact ⟨_, rfl, consistent⟩
        · exact ⟨_, rfl, consistent⟩
  | pollClose schedule =>
      obtain ⟨poll, later, polled, result⟩ :=
        (consistent.ending allowed).pollClose schedule
      simp only [FuturesBytesSink.pollClose, polled, Option.map_some]
      rcases result with ⟨rfl, ending⟩ | ⟨rfl, closed⟩
      · exact ⟨_, rfl, ending⟩
      · exact ⟨_, rfl, closed⟩

theorem Consistent.step
    {next : BytesSinkSession} {event : Event}
    (consistent : Consistent chunkSize exact session)
    (stepped : session.step event = some next) :
    Consistent chunkSize exact next := by
  by_cases allowed : session.Allowed event
  · obtain ⟨other, performed, kept⟩ := consistent.progress allowed
    cases performed.symm.trans stepped
    exact kept
  · simp only [BytesSinkSession.step, if_neg allowed] at stepped
    cases stepped

end BytesSinkSession

end OpenDal
