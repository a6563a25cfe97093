import OpenDal.Raw.FlexBuf
import OpenDal.Types.BufferSink
import OpenDal.Types.StdWriter

/-!
# `FuturesAsyncWriter`

`AsyncWrite` over the sink.  Frozen bytes are sent as one item once the sink
is ready, so in contrast to `StdWriter` a partial acceptance is handled in one
place, by the sink.

`poll_flush` and `poll_close` have one loop, which freezes the buffer, sends
it, and ends with what is particular to either of them.
-/

namespace OpenDal

structure FuturesAsyncWriter where
  sink : BufferSink
  buf : FlexBuf

namespace FuturesAsyncWriter

def new (w : WriteGenerator) : FuturesAsyncWriter :=
  { sink := .new w
    buf := .new StdWriter.capacity StdWriter.capacity_positive }

/-- `none` is a panic or a bound on the loop that is too small. -/
def pollWrite : Nat → List Bool → FuturesAsyncWriter → Bytes →
    Option (Poll (Except IoError Nat) × FuturesAsyncWriter)
  | 0, _, _, _ => none
  | fuel + 1, schedule, this, bs =>
      match this.buf.put bs with
      | (n + 1, buf) => some (.ready (.ok (n + 1)), { this with buf })
      | (0, buf) =>
          match this.sink.pollReady schedule with
          | none => none
          | some (.pending, sink, _) => some (.pending, ⟨sink, buf⟩)
          | some (.ready (.error err), sink, _) =>
              some (.ready (.error (.formatStdIoError err)), ⟨sink, buf⟩)
          | some (.ready (.ok ()), sink, schedule) => do
              let frozen ← buf.get
              pollWrite fuel schedule
                ⟨sink.startSend (.fromBytes frozen), buf.clean⟩ bs

/-- The loop of `poll_flush` and `poll_close`. -/
def drain
    (finish : List Bool → FuturesAsyncWriter →
      Option (Poll (Except IoError Unit) × FuturesAsyncWriter)) :
    Nat → List Bool → FuturesAsyncWriter →
      Option (Poll (Except IoError Unit) × FuturesAsyncWriter)
  | 0, _, _ => none
  | fuel + 1, schedule, this =>
      let buf := this.buf.freeze
      match buf.get with
      | none => finish schedule { this with buf }
      | some frozen =>
          match this.sink.pollReady schedule with
          | none => none
          | some (.pending, sink, _) => some (.pending, ⟨sink, buf⟩)
          | some (.ready (.error err), sink, _) =>
              some (.ready (.error (.formatStdIoError err)), ⟨sink, buf⟩)
          | some (.ready (.ok ()), sink, schedule) =>
              drain finish fuel schedule
                ⟨sink.startSend (.fromBytes frozen), buf.clean⟩

def pollFlush (fuel : Nat) (schedule : List Bool)
    (this : FuturesAsyncWriter) :
    Option (Poll (Except IoError Unit) × FuturesAsyncWriter) :=
  drain (fun _ this => some (.ready (.ok ()), this)) fuel schedule this

def pollClose (fuel : Nat) (schedule : List Bool)
    (this : FuturesAsyncWriter) :
    Option (Poll (Except IoError Unit) × FuturesAsyncWriter) :=
  drain
    (fun schedule this =>
      (this.sink.pollClose schedule).map fun (poll, sink) =>
        (poll.formatStdIoError, { this with sink }))
    fuel schedule this

/-! ## What the writer holds -/

/-- `bytes` is everything accepted: what was sent to the sink and what is in
the buffer. -/
def Holds (chunkSize : Option Nat) (exact : Bool) (bytes : Bytes)
    (this : FuturesAsyncWriter) : Prop :=
  ∃ sent, this.sink.Open chunkSize exact sent ∧
    bytes = sent ++ this.buf.bytes

/-- Everything is in the sink, which is being closed. -/
def Ending (chunkSize : Option Nat) (exact : Bool) (bytes : Bytes)
    (this : FuturesAsyncWriter) : Prop :=
  this.sink.Ending chunkSize exact bytes ∧ this.buf.bytes = []

variable {chunkSize : Option Nat} {exact : Bool} {bytes : Bytes}
  {this : FuturesAsyncWriter}

theorem holds_new (chunkSize : Option Nat) (exact : Bool) :
    Holds chunkSize exact [] (new (.new .infallible chunkSize exact)) :=
  ⟨[], (BufferSink.open_new chunkSize exact).1, rfl⟩

theorem Holds.send {sent frozen : Bytes} {sink : BufferSink} {buf : FlexBuf}
    (ready : sink.Open chunkSize exact sent) (settled : sink.Settled)
    (current : buf.get = some frozen) :
    Holds chunkSize exact (sent ++ buf.bytes)
      ⟨sink.startSend (.fromBytes frozen), buf.clean⟩ := by
  obtain ⟨whole, _⟩ := FlexBuf.get_eq_some current
  refine ⟨_, ready.startSend settled (.fromBytes frozen), ?_⟩
  rw [(FlexBuf.clean_frozen current).1, Buffer.bytes_fromBytes, whole,
    List.append_nil]

theorem pollWrite_unfrozen (unfrozen : this.buf.get = none) {bs : Bytes}
    (nonempty : bs ≠ []) (schedule : List Bool) (fuel : Nat) :
    ∃ n buf, this.pollWrite (fuel + 1) schedule bs =
        some (.ready (.ok n), { this with buf }) ∧
      0 < n ∧ n ≤ bs.length ∧ buf.bytes = this.buf.bytes ++ bs.take n := by
  obtain ⟨n, buf, put, progress, bound, grown, _⟩ :=
    FlexBuf.put_filling unfrozen nonempty
  obtain ⟨n, rfl⟩ := Nat.exists_eq_succ_of_ne_zero (by omega : n ≠ 0)
  refine ⟨n + 1, buf, ?_, progress, bound, grown⟩
  simp only [FuturesAsyncWriter.pollWrite, put]

theorem pollWrite_ready {frozen bs : Bytes} {sink : BufferSink}
    {schedule rest : List Bool} (current : this.buf.get = some frozen)
    (polled : this.sink.pollFlush schedule =
      some (.ready (.ok ()), sink, rest))
    (nonempty : bs ≠ []) (fuel : Nat) :
    ∃ n later, this.pollWrite (fuel + 2) schedule bs =
      some (.ready (.ok n), later) := by
  let sent : FuturesAsyncWriter :=
    ⟨sink.startSend (.fromBytes frozen), this.buf.clean⟩
  have unfrozen : sent.buf.get = none := (FlexBuf.clean_frozen current).2
  obtain ⟨n, buf, finished, _⟩ :=
    pollWrite_unfrozen unfrozen nonempty rest fuel
  refine ⟨n, { sent with buf }, ?_⟩
  rw [FuturesAsyncWriter.pollWrite]
  simp only [FlexBuf.put_frozen current, BufferSink.pollReady, polled,
    current, Option.bind_eq_bind, Option.bind_some]
  exact finished

theorem Holds.polled {fuel : Nat} {schedule : List Bool} {bs : Bytes}
    {poll : Poll (Except IoError Nat)} {later : FuturesAsyncWriter}
    (holds : Holds chunkSize exact bytes this)
    (polled : this.pollWrite fuel schedule bs = some (poll, later)) :
    (poll = .pending ∧ Holds chunkSize exact bytes later) ∨
    (∃ n, poll = .ready (.ok n) ∧ 0 < n ∧ n ≤ bs.length ∧
      Holds chunkSize exact (bytes ++ bs.take n) later) := by
  induction fuel generalizing this schedule with
  | zero => cases polled
  | succ fuel induction =>
      obtain ⟨sent, ready, rfl⟩ := holds
      obtain ⟨answer, sink, rest, flushed, kept, result⟩ :=
        ready.pollFlush schedule
      cases current : this.buf.get with
      | none =>
          by_cases nonempty : bs = []
          · -- The loop takes the empty buffer for a frozen one.
            simp only [FuturesAsyncWriter.pollWrite, nonempty,
              FlexBuf.put_nil, BufferSink.pollReady, flushed] at polled
            rcases result with rfl | ⟨rfl, _⟩
            · cases polled
              exact .inl ⟨rfl, sent, kept, rfl⟩
            · simp [current] at polled
          · obtain ⟨n, buf, finished, progress, bound, grown⟩ :=
              pollWrite_unfrozen current nonempty schedule fuel
            cases finished.symm.trans polled
            refine .inr ⟨n, rfl, progress, bound, sent, ready, ?_⟩
            rw [grown, List.append_assoc]
      | some frozen =>
          simp only [FuturesAsyncWriter.pollWrite,
            FlexBuf.put_frozen current, BufferSink.pollReady, flushed]
            at polled
          rcases result with rfl | ⟨rfl, settled⟩
          · cases polled
            exact .inl ⟨rfl, sent, kept, rfl⟩
          · simp only [current, Option.bind_eq_bind, Option.bind_some]
              at polled
            exact induction (Holds.send kept settled current) polled

/-- The loop goes round once more at most. -/
theorem Holds.pollWrite (holds : Holds chunkSize exact bytes this)
    (schedule : List Bool) {bs : Bytes} (nonempty : bs ≠ []) (fuel : Nat) :
    ∃ poll later, this.pollWrite (fuel + 2) schedule bs =
      some (poll, later) := by
  cases current : this.buf.get with
  | none =>
      obtain ⟨n, buf, polled, _⟩ :=
        pollWrite_unfrozen current nonempty schedule (fuel + 1)
      exact ⟨_, _, polled⟩
  | some frozen =>
      obtain ⟨sent, ready, rfl⟩ := holds
      obtain ⟨poll, sink, rest, polled, kept, result⟩ :=
        ready.pollFlush schedule
      rcases result with rfl | ⟨rfl, settled⟩
      · refine ⟨.pending, ⟨sink, this.buf⟩, ?_⟩
        simp only [FuturesAsyncWriter.pollWrite, FlexBuf.put_frozen current,
          BufferSink.pollReady, polled]
      · obtain ⟨n, later, finished⟩ :=
          pollWrite_ready current polled nonempty fuel
        exact ⟨_, later, finished⟩

/-- The loop ends with an empty buffer, or before that when the sink is not
ready.  What was in the buffer is then in the sink. -/
theorem Holds.drain (holds : Holds chunkSize exact bytes this)
    (finish : List Bool → FuturesAsyncWriter →
      Option (Poll (Except IoError Unit) × FuturesAsyncWriter))
    (schedule : List Bool) (fuel : Nat) :
    (∃ later, FuturesAsyncWriter.drain finish (fuel + 2) schedule this =
        some (.pending, later) ∧ Holds chunkSize exact bytes later) ∨
    (∃ rest handed, FuturesAsyncWriter.drain finish (fuel + 2) schedule this =
        finish rest handed ∧
      handed.sink.Open chunkSize exact bytes ∧ handed.buf.bytes = [] ∧
      (handed.sink.buf.bytes = [] ↔
        this.buf.bytes = [] ∧ this.sink.buf.bytes = [])) := by
  obtain ⟨sent, ready, rfl⟩ := holds
  cases current : this.buf.freeze.get with
  | none =>
      have empty := FlexBuf.get_freeze_eq_none_iff.mp current
      refine .inr ⟨schedule, { this with buf := this.buf.freeze }, ?_, ?_, ?_,
        ?_⟩
      · simp only [FuturesAsyncWriter.drain, current]
      · rw [empty, List.append_nil]
        exact ready
      · rw [FlexBuf.bytes_freeze, empty]
      · simp [empty]
  | some frozen =>
      obtain ⟨poll, sink, rest, polled, kept, result⟩ :=
        ready.pollFlush schedule
      rcases result with rfl | ⟨rfl, settled⟩
      · refine .inl ⟨⟨sink, this.buf.freeze⟩, ?_, sent, kept, ?_⟩
        · simp only [FuturesAsyncWriter.drain, current, BufferSink.pollReady,
            polled]
        · rw [FlexBuf.bytes_freeze]
      · obtain ⟨whole, filled, _⟩ := FlexBuf.get_eq_some current
        rw [FlexBuf.bytes_freeze] at whole
        have emptied := (FlexBuf.clean_frozen current).1
        have cleaned := FlexBuf.get_freeze_eq_none_iff.mpr emptied
        refine .inr ⟨rest, ⟨sink.startSend (.fromBytes frozen),
          this.buf.freeze.clean.freeze⟩, ?_, ?_, ?_, ?_⟩
        · simp only [FuturesAsyncWriter.drain, current, BufferSink.pollReady,
            polled, cleaned]
        · rw [whole]
          exact kept.startSend settled (.fromBytes frozen)
        · rw [FlexBuf.bytes_freeze, emptied]
        · have nonempty : frozen ≠ [] := List.length_pos_iff.mp filled
          simp [BufferSink.startSend, whole, nonempty]

theorem Holds.pollFlush (holds : Holds chunkSize exact bytes this)
    (schedule : List Bool) (fuel : Nat) :
    ∃ poll later, this.pollFlush (fuel + 2) schedule = some (poll, later) ∧
      Holds chunkSize exact bytes later ∧
      (poll = .pending ∨ poll = .ready (.ok ()) ∧ later.buf.bytes = [] ∧
        (later.sink.buf.bytes = [] ↔
          this.buf.bytes = [] ∧ this.sink.buf.bytes = [])) := by
  rcases holds.drain (fun _ this => some (.ready (.ok ()), this))
      schedule fuel with
    ⟨later, polled, kept⟩ | ⟨rest, handed, polled, ready, empty, left⟩
  · exact ⟨_, later, polled, kept, .inl rfl⟩
  · exact ⟨_, handed, polled, ⟨bytes, ready, by rw [empty, List.append_nil]⟩,
      .inr ⟨rfl, empty, left⟩⟩

/-- What `poll_close` may find. -/
def Unclosed (chunkSize : Option Nat) (exact : Bool) (bytes : Bytes)
    (this : FuturesAsyncWriter) : Prop :=
  Holds chunkSize exact bytes this ∨ Ending chunkSize exact bytes this

theorem Ending.finish
    (ending : Ending chunkSize exact bytes this) (schedule : List Bool) :
    ∃ poll later, (this.sink.pollClose schedule).map
        (fun (poll, sink) => (poll.formatStdIoError, { this with sink })) =
          some (poll, later) ∧
      (poll = .pending ∧ Ending chunkSize exact bytes later ∨
        poll = .ready (.ok ()) ∧ later.sink.Closed bytes) := by
  obtain ⟨sinkEnding, empty⟩ := ending
  obtain ⟨poll, sink, polled, result⟩ :=
    sinkEnding.pollClose schedule
  refine ⟨poll.formatStdIoError, { this with sink }, by rw [polled]; rfl, ?_⟩
  rcases result with ⟨rfl, kept⟩ | ⟨rfl, closed⟩
  · exact .inl ⟨rfl, kept, empty⟩
  · exact .inr ⟨rfl, closed⟩

/-- When everything is in the sink, closing goes straight to it. -/
theorem Ending.pollClose_eq (ending : Ending chunkSize exact bytes this)
    (schedule : List Bool) (fuel : Nat) :
    this.pollClose (fuel + 1) schedule =
      (this.sink.pollClose schedule).map fun (poll, sink) =>
        (poll.formatStdIoError, ⟨sink, this.buf.freeze⟩) := by
  have unfrozen := FlexBuf.get_freeze_eq_none_iff.mpr ending.2
  simp only [FuturesAsyncWriter.pollClose, FuturesAsyncWriter.drain, unfrozen]

theorem Ending.freeze (ending : Ending chunkSize exact bytes this) :
    Ending chunkSize exact bytes { this with buf := this.buf.freeze } :=
  ⟨ending.1, by rw [FlexBuf.bytes_freeze, ending.2]⟩

theorem Unclosed.pollClose
    (unclosed : Unclosed chunkSize exact bytes this) (schedule : List Bool)
    (fuel : Nat) :
    ∃ poll later, this.pollClose (fuel + 2) schedule = some (poll, later) ∧
      (poll = .pending ∧ Unclosed chunkSize exact bytes later ∨
        poll = .ready (.ok ()) ∧ later.sink.Closed bytes) := by
  rcases unclosed with holds | ending
  · rcases holds.drain _ schedule fuel with
      ⟨later, polled, kept⟩ | ⟨rest, handed, polled, ready, empty, _⟩
    · exact ⟨_, later, polled, .inl ⟨rfl, .inl kept⟩⟩
    · have ending : Ending chunkSize exact bytes handed := ⟨.inl ready, empty⟩
      obtain ⟨poll, later, finished, result⟩ := ending.finish rest
      exact ⟨poll, later, polled.trans finished,
        result.imp_left (And.imp_right .inr)⟩
  · obtain ⟨poll, later, finished, result⟩ :=
      ending.freeze.finish schedule
    exact ⟨poll, later, (ending.pollClose_eq schedule _).trans finished,
      result.imp_left (And.imp_right .inr)⟩

theorem Ending.pollClose_ready
    (free : ¬ WriteGenerator.Stuck chunkSize exact)
    (ending : Ending chunkSize exact bytes this) {count : Nat}
    (enough : this.sink.buf.len ≤ count) (fuel : Nat) :
    ∃ later, this.pollClose (fuel + 1) (List.replicate (count + 1) true) =
      some (.ready (.ok ()), later) := by
  obtain ⟨sink, polled⟩ := ending.1.pollClose_ready free enough
  refine ⟨⟨sink, this.buf.freeze⟩, ?_⟩
  rw [ending.pollClose_eq, polled]
  rfl

theorem Unclosed.pollClose_ready
    (free : ¬ WriteGenerator.Stuck chunkSize exact)
    (unclosed : Unclosed chunkSize exact bytes this) (fuel : Nat) :
    ∃ count later, this.pollClose (fuel + 2) (List.replicate count true) =
      some (.ready (.ok ()), later) := by
  rcases unclosed with ⟨sent, ready, rfl⟩ | ending
  · cases current : this.buf.freeze.get with
    | none =>
        have empty := FlexBuf.get_freeze_eq_none_iff.mp current
        rw [← List.append_nil sent] at ready
        have ending : Ending chunkSize exact (sent ++ []) this :=
          ⟨.inl ready, empty⟩
        exact ⟨_, ending.pollClose_ready free (Nat.le_refl _) _⟩
    | some frozen =>
        -- As many polls as the sink has bytes make it ready; the frozen
        -- bytes and the close take the others.
        obtain ⟨sink, left, polled, kept, settled, bound⟩ :=
          ready.pollFlush_ready free
            (Nat.le_add_right this.sink.buf.len (frozen.length + 1))
        obtain ⟨left, rfl⟩ :=
          Nat.exists_eq_succ_of_ne_zero (by omega : left ≠ 0)
        have ending : Ending chunkSize exact (sent ++ frozen)
            ⟨sink.startSend (.fromBytes frozen), this.buf.freeze.clean⟩ :=
          ⟨.inl (kept.startSend settled (.fromBytes frozen)),
            (FlexBuf.clean_frozen current).1⟩
        have enough : (sink.startSend (.fromBytes frozen)).buf.len ≤ left := by
          simp only [BufferSink.startSend, Buffer.len_fromBytes]
          omega
        obtain ⟨later, closed⟩ := ending.pollClose_ready free enough fuel
        refine ⟨this.sink.buf.len + (frozen.length + 1), later, ?_⟩
        unfold FuturesAsyncWriter.pollClose at closed ⊢
        rw [FuturesAsyncWriter.drain]
        simp only [current, BufferSink.pollReady, polled]
        exact closed
  · exact ⟨_, ending.pollClose_ready free (Nat.le_refl _) _⟩

end FuturesAsyncWriter

/-! ## Sessions -/

namespace AsyncWriteSession

inductive Event where
  | pollWrite (slice : StdSession.Slice) (schedule : List Bool)
  | pollFlush (schedule : List Bool)
  | pollClose (schedule : List Bool)

end AsyncWriteSession

/-- A writer and the bytes that its `poll_write` calls have accepted. -/
structure AsyncWriteSession where
  writer : FuturesAsyncWriter
  accepted : Bytes
  phase : AdapterPhase

namespace AsyncWriteSession

def new (w : WriteGenerator) : AsyncWriteSession :=
  { writer := .new w
    accepted := []
    phase := .running }

/-- Once the writer is being closed nothing else is called. -/
def Allowed (session : AsyncWriteSession) : Event → Prop
  | .pollWrite _ _ => session.phase = .running
  | .pollFlush _ => session.phase = .running
  | .pollClose _ => session.phase ≠ .closed

instance (session : AsyncWriteSession) (event : Event) :
    Decidable (session.Allowed event) :=
  match event with
  | .pollWrite _ _ => inferInstanceAs (Decidable (session.phase = .running))
  | .pollFlush _ => inferInstanceAs (Decidable (session.phase = .running))
  | .pollClose _ => inferInstanceAs (Decidable (session.phase ≠ .closed))

/-- `none` is an event that is not allowed, a panic or an error.  The loops of
the writer go round twice at most. -/
def step (session : AsyncWriteSession) (event : Event) :
    Option AsyncWriteSession :=
  if session.Allowed event then
    match event with
    | .pollWrite slice schedule =>
        match session.writer.pollWrite 2 schedule slice.bytes with
        | some (.pending, writer) => some { session with writer }
        | some (.ready (.ok n), writer) =>
            some { session with
              writer
              accepted := session.accepted ++ slice.bytes.take n }
        | _ => none
    | .pollFlush schedule =>
        match session.writer.pollFlush 2 schedule with
        | some (.pending, writer) => some { session with writer }
        | some (.ready (.ok ()), writer) => some { session with writer }
        | _ => none
    | .pollClose schedule =>
        match session.writer.pollClose 2 schedule with
        | some (.pending, writer) =>
            some { session with writer, phase := .closing }
        | some (.ready (.ok ()), writer) =>
            some { session with writer, phase := .closed }
        | _ => none
  else
    none

def Consistent (chunkSize : Option Nat) (exact : Bool)
    (session : AsyncWriteSession) : Prop :=
  match session.phase with
  | .running => session.writer.Holds chunkSize exact session.accepted
  | .closing => session.writer.Unclosed chunkSize exact session.accepted
  | .closed => session.writer.sink.Closed session.accepted

variable {chunkSize : Option Nat} {exact : Bool}
  {session : AsyncWriteSession}

theorem Consistent.running (consistent : Consistent chunkSize exact session)
    (running : session.phase = .running) :
    session.writer.Holds chunkSize exact session.accepted := by
  simpa only [Consistent, running] using consistent

theorem Consistent.unclosed (consistent : Consistent chunkSize exact session)
    (unclosed : session.phase ≠ .closed) :
    session.writer.Unclosed chunkSize exact session.accepted := by
  unfold Consistent at consistent
  split at consistent
  · exact .inl consistent
  · exact consistent
  · contradiction

theorem Consistent.progress
    (consistent : Consistent chunkSize exact session) {event : Event}
    (allowed : session.Allowed event) :
    ∃ next, session.step event = some next ∧
      Consistent chunkSize exact next := by
  simp only [step, if_pos allowed]
  cases event with
  | pollWrite slice schedule =>
      have running : session.phase = .running := allowed
      have holds := consistent.running running
      obtain ⟨poll, later, polled⟩ :=
        holds.pollWrite schedule slice.nonempty 0
      rcases holds.polled polled with ⟨rfl, kept⟩ | ⟨n, rfl, _, _, kept⟩
      · simp only [polled]
        exact ⟨_, rfl, by simpa only [Consistent, running] using kept⟩
      · simp only [polled]
        exact ⟨_, rfl, by simpa only [Consistent, running] using kept⟩
  | pollFlush schedule =>
      have running : session.phase = .running := allowed
      obtain ⟨poll, later, polled, kept, result⟩ :=
        (consistent.running running).pollFlush schedule 0
      rcases result with rfl | ⟨rfl, _⟩
      · simp only [polled]
        exact ⟨_, rfl, by simpa only [Consistent, running] using kept⟩
      · simp only [polled]
        exact ⟨_, rfl, by simpa only [Consistent, running] using kept⟩
  | pollClose schedule =>
      obtain ⟨poll, later, polled, result⟩ :=
        (consistent.unclosed allowed).pollClose schedule 0
      rcases result with ⟨rfl, kept⟩ | ⟨rfl, closed⟩
      · simp only [polled]
        exact ⟨_, rfl, kept⟩
      · simp only [polled]
        exact ⟨_, rfl, closed⟩

theorem Consistent.step
    {next : AsyncWriteSession} {event : Event}
    (consistent : Consistent chunkSize exact session)
    (stepped : session.step event = some next) :
    Consistent chunkSize exact next := by
  by_cases allowed : session.Allowed event
  · obtain ⟨other, performed, kept⟩ := consistent.progress allowed
    cases performed.symm.trans stepped
    exact kept
  · simp only [AsyncWriteSession.step, if_neg allowed] at stepped
    cases stepped

end AsyncWriteSession

/-- In every run of either adapter, under every schedule: no call fails or
panics, a `poll_close` whose futures complete returns, and when `poll_close`
has returned `Ok` the service has received exactly the accepted bytes in order
and was closed once after them. -/
theorem adapters_lossless (chunkSize : Option Nat) (exact : Bool)
    (positive : ∀ size, chunkSize = some size → 1 ≤ size) :
    (∀ events session,
      Automaton.run AsyncWriteSession.step
        (.new (.new .infallible chunkSize exact)) events = some session →
      (∀ event, session.Allowed event →
        ∃ next, session.step event = some next) ∧
      (session.phase ≠ .closed → ∃ count later,
        session.writer.pollClose 2 (List.replicate count true) =
          some (.ready (.ok ()), later)) ∧
      (session.phase = .closed →
        session.writer.sink.Closed session.accepted)) ∧
    (∀ events session,
      Automaton.run BytesSinkSession.step
        (.new (.new .infallible chunkSize exact)) events = some session →
      (∀ event, session.Allowed event →
        ∃ next, session.step event = some next) ∧
      (session.phase ≠ .closed → ∃ count later,
        session.sink.pollClose (List.replicate count true) =
          some (.ready (.ok ()), later)) ∧
      (session.phase = .closed →
        session.sink.sink.Closed session.sent)) := by
  have free : ¬ WriteGenerator.Stuck chunkSize exact :=
    WriteGenerator.not_stuck positive
  constructor
  · intro events session ran
    have initially : AsyncWriteSession.Consistent chunkSize exact
        (.new (.new .infallible chunkSize exact)) :=
      FuturesAsyncWriter.holds_new chunkSize exact
    have consistent : AsyncWriteSession.Consistent chunkSize exact session :=
      Automaton.run_invariant_of_forall
        (fun consistent stepped => consistent.step stepped)
        initially ran
    refine ⟨?_, ?_, ?_⟩
    · intro event allowed
      obtain ⟨next, stepped, _⟩ := consistent.progress allowed
      exact ⟨next, stepped⟩
    · intro unclosed
      exact (consistent.unclosed unclosed).pollClose_ready free 0
    · intro closed
      simpa only [AsyncWriteSession.Consistent, closed] using consistent
  · intro events session ran
    have consistent : BytesSinkSession.Consistent chunkSize exact session :=
      Automaton.run_invariant_of_forall
        (fun consistent stepped => consistent.step stepped)
        (BytesSinkSession.consistent_new chunkSize exact) ran
    refine ⟨?_, ?_, ?_⟩
    · intro event allowed
      obtain ⟨next, stepped, _⟩ := consistent.progress allowed
      exact ⟨next, stepped⟩
    · intro unclosed
      obtain ⟨sink, polled⟩ :=
        (consistent.ending unclosed).pollClose_ready free (Nat.le_refl _)
      exact ⟨_, ⟨sink⟩, by rw [FuturesBytesSink.pollClose, polled]; rfl⟩
    · intro closed
      simpa only [BytesSinkSession.Consistent, closed] using consistent

/-- Three bytes in exact chunks of two, with futures that are pending in
between. -/
theorem adapters_lossless_exact :
    (∃ session,
      Automaton.run AsyncWriteSession.step (.new (.new .infallible (some 2) true))
        [.pollWrite ⟨[1, 2, 3], by simp⟩ [], .pollFlush [false],
          .pollClose [true], .pollClose [true, true]] = some session ∧
      session.accepted = [1, 2, 3] ∧
      session.writer.sink.Closed session.accepted) ∧
    (∃ session,
      Automaton.run BytesSinkSession.step (.new (.new .infallible (some 2) true))
        [.pollReady [], .startSend [1, 2, 3], .pollFlush [false],
          .pollClose [true], .pollClose [true, true]] = some session ∧
      session.sent = [1, 2, 3] ∧
      session.sink.sink.Closed session.sent) := by
  have lossless := adapters_lossless (some 2) true (by simp)
  constructor
  · have ran : Automaton.run AsyncWriteSession.step
        (.new (.new .infallible (some 2) true))
        [.pollWrite ⟨[1, 2, 3], by simp⟩ [], .pollFlush [false],
          .pollClose [true], .pollClose [true, true]] = some _ := rfl
    exact ⟨_, ran, rfl, (lossless.1 _ _ ran).2.2 rfl⟩
  · have ran : Automaton.run BytesSinkSession.step
        (.new (.new .infallible (some 2) true))
        [.pollReady [], .startSend [1, 2, 3], .pollFlush [false],
          .pollClose [true], .pollClose [true, true]] = some _ := rfl
    exact ⟨_, ran, rfl, (lossless.2 _ _ ran).2.2 rfl⟩

end OpenDal
