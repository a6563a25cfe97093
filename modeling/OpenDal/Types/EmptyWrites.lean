import OpenDal.Types.FuturesAsyncWriter

/-!
# Empty slices and chunks of no bytes

`FlexBuf::put` returns zero when it is frozen and when there is nothing to
put, and the loops of the adapters take every zero for the first.  What they
do next is to hand the frozen bytes to the generator, which accepts some of
them unless the chunks are exact and of no bytes.
-/

namespace OpenDal

/-- The calls of a user who writes slices of any length. -/
inductive SliceCall where
  | write (bs : Bytes)
  | flush

inductive SlicePoll where
  | write (bs : Bytes) (schedule : List Bool)
  | flush (schedule : List Bool)

/-- `none` is a panic or a loop that has not ended in time. -/
def StdSession.stepSlice (fuel : Nat) (session : StdSession) :
    SliceCall → Option StdSession
  | .write bs =>
      match session.writer.write fuel bs with
      | some (.ok n, writer) => some ⟨writer, session.accepted ++ bs.take n⟩
      | _ => none
  | .flush =>
      match session.writer.flush fuel with
      | some (.ok (), writer) => some { session with writer }
      | _ => none

def AsyncWriteSession.stepSlice (session : AsyncWriteSession) :
    SlicePoll → Option AsyncWriteSession
  | .write bs schedule =>
      match session.writer.pollWrite 2 schedule bs with
      | some (.pending, writer) => some { session with writer }
      | some (.ready (.ok n), writer) =>
          some { session with
            writer
            accepted := session.accepted ++ bs.take n }
      | _ => none
  | .flush schedule =>
      match session.writer.pollFlush 2 schedule with
      | some (.pending, writer) => some { session with writer }
      | some (.ready (.ok ()), writer) => some { session with writer }
      | _ => none

variable {chunkSize : Option Nat} {exact : Bool}

/-! ## `StdWriter::write` -/

namespace StdWriter

/-- The call returns the length of a front part, which is not empty unless
the slice is. -/
def Returns (writer : StdWriter) (bs : Bytes) : Prop :=
  ∃ fuel n later, writer.write fuel bs = some (.ok n, later) ∧
    n ≤ bs.length ∧ (bs ≠ [] → 1 ≤ n)

variable {writer : StdWriter} {delivered : Bytes}

theorem Carries.write_stuck (stuck : WriteGenerator.Stuck chunkSize exact)
    {frozen : Bytes} (carries : Carries chunkSize exact delivered writer)
    (current : writer.buf.get = some frozen) (bs : Bytes) (fuel : Nat) :
    writer.write fuel bs = none := by
  induction fuel generalizing writer delivered with
  | zero => rfl
  | succ fuel induction =>
      obtain ⟨_, filled, _⟩ := FlexBuf.get_eq_some current
      obtain ⟨generator, passed, n, opened, accepted, bound, progress, _,
        carried⟩ := carries.hands (FlexBuf.get_freeze_frozen current)
      have none : n = 0 := by
        by_contra some
        exact progress.mp (Nat.pos_of_ne_zero some) stuck
      obtain ⟨rest, advanced, sameCap, _, left⟩ :=
        FlexBuf.advance_frozen current bound
      have same : rest.get = some frozen := by
        rw [left, none, List.drop_zero, if_neg (List.length_pos_iff.mp filled)]
      have again := induction (carried rest sameCap) same
      simp only [StdWriter.write, opened, FlexBuf.put_frozen current, current,
        Option.bind_eq_bind, Option.bind_some, accepted, advanced]
      exact again

theorem Carries.returns_iff (carries : Carries chunkSize exact delivered writer)
    (bs : Bytes) :
    writer.Returns bs ↔ bs ≠ [] ∧
      ¬ (WriteGenerator.Stuck chunkSize exact ∧
        writer.buf.get.isSome = true) := by
  constructor
  · intro returns
    obtain ⟨fuel, n, later, wrote, _⟩ := returns
    obtain ⟨m, _, _, progress, bound, _⟩ := carries.wrote wrote
    refine ⟨?_, ?_⟩
    · intro empty
      rw [empty, List.length_nil] at bound
      omega
    · rintro ⟨stuck, isFrozen⟩
      obtain ⟨frozen, current⟩ := Option.isSome_iff_exists.mp isFrozen
      rw [carries.write_stuck stuck current] at wrote
      cases wrote
  · rintro ⟨nonempty, moves⟩
    have wrote : ∃ fuel n later,
        writer.write fuel bs = some (.ok n, later) := by
      cases current : writer.buf.get with
      | none =>
          -- A buffer that is not frozen takes bytes at once.
          obtain ⟨generator, _, opened, _⟩ := carries
          obtain ⟨n, buf, put, progress, _⟩ :=
            FlexBuf.put_filling current nonempty
          obtain ⟨n, rfl⟩ := Nat.exists_eq_succ_of_ne_zero (by omega : n ≠ 0)
          exact ⟨1, n + 1, { writer with buf },
            by simp only [StdWriter.write, opened, put]⟩
      | some frozen =>
          have free : ¬ WriteGenerator.Stuck chunkSize exact := by
            intro stuck
            exact moves ⟨stuck, by simp [current]⟩
          exact ⟨_, carries.write_returns free nonempty (Nat.lt_succ_self _)⟩
    obtain ⟨fuel, n, later, wrote⟩ := wrote
    obtain ⟨m, _, same, progress, bound, _⟩ := carries.wrote wrote
    cases same
    exact ⟨fuel, n, later, wrote, bound, fun _ => progress⟩

end StdWriter

namespace StdSession

variable {session next : StdSession} {delivered : Bytes}

/-- A flush does not cut what is buffered. -/
def KeepsSlice (session : StdSession) : SliceCall → Prop
  | .write _ => True
  | .flush => session.writer.Fits

theorem stepSlice_effect {fuel : Nat} {call : SliceCall}
    (carries : session.writer.Carries chunkSize exact delivered)
    (stepped : session.stepSlice fuel call = some next) :
    Effect chunkSize exact delivered session (session.KeepsSlice call)
      next := by
  cases call with
  | write bs =>
      simp only [stepSlice] at stepped
      split at stepped
      · rename_i wrote
        cases stepped
        exact wrote_effect carries wrote
      · cases stepped
  | flush =>
      simp only [stepSlice] at stepped
      split at stepped
      · rename_i flushed
        cases stepped
        exact flushed_effect carries flushed
      · cases stepped

theorem carries_of_run {fuel : Nat} {calls : List SliceCall}
    (ran : Automaton.run (stepSlice fuel)
      (new (.new .infallible chunkSize exact)) calls = some session) :
    ∃ delivered, session.writer.Carries chunkSize exact delivered := by
  have preserved : ∀ {session : StdSession} {call next},
      (∃ delivered, session.writer.Carries chunkSize exact delivered) →
      session.stepSlice fuel call = some next →
      ∃ delivered, next.writer.Carries chunkSize exact delivered := by
    intro session call next given stepped
    obtain ⟨delivered, carries⟩ := given
    exact (stepSlice_effect carries stepped).imp fun _ => And.left
  have initially := (level_new chunkSize exact).imp fun _ => And.left
  exact Automaton.run_invariant_of_forall preserved initially ran

end StdSession

/-! ## `FuturesAsyncWriter::poll_write` -/

/-- A sink that holds bytes polls for ever when the generator accepts none of
them. -/
theorem BufferSink.Open.pollFlush_stuck
    (stuck : WriteGenerator.Stuck chunkSize exact) {bytes : Bytes}
    {sink : BufferSink} (holds : Open chunkSize exact bytes sink)
    (filled : sink.buf.bytes ≠ []) (schedule : List Bool) :
    ∃ later rest, sink.pollFlush schedule = some (.pending, later, rest) := by
  induction schedule generalizing sink with
  | nil =>
      rcases holds.enterFlush with
        ⟨_, empty, _⟩ | ⟨entered, generator, made, _, _, _⟩
      · exact absurd empty filled
      · exact ⟨entered, [], by simp [BufferSink.pollFlush, made]⟩
  | cons completes schedule induction =>
      rcases holds.enterFlush with
        ⟨_, empty, _⟩ | ⟨entered, generator, made, writing, same, kept⟩
      · exact absurd empty filled
      · cases completes with
        | false =>
            exact ⟨entered, schedule, by simp [BufferSink.pollFlush, made]⟩
        | true =>
            obtain ⟨later, finished, kept, bound, moves⟩ :=
              kept.finishWrite writing
            have unmoved : later.buf.len = sink.buf.len := by
              have stays := mt moves.mp (not_not.mpr stuck)
              rw [same] at bound stays
              omega
            have stillFilled : later.buf.bytes ≠ [] := by
              intro empty
              apply filled
              rw [← List.length_eq_zero_iff, Buffer.length_bytes, ← unmoved,
                ← Buffer.length_bytes, empty, List.length_nil]
            obtain ⟨final, rest, polled⟩ := induction kept stillFilled
            refine ⟨final, rest, ?_⟩
            rw [BufferSink.pollFlush]
            simp only [made, writing, finished]
            exact polled

namespace FuturesAsyncWriter

/-- Under every schedule the call is pending or returns the length of a front
part, which is not empty unless the slice is; and it returns when all futures
complete. -/
def Returns (this : FuturesAsyncWriter) (bs : Bytes) : Prop :=
  ∃ fuel,
    (∀ schedule, ∃ poll later,
      this.pollWrite fuel schedule bs = some (poll, later) ∧
      (poll = .pending ∨
        ∃ n, poll = .ready (.ok n) ∧ n ≤ bs.length ∧ (bs ≠ [] → 1 ≤ n))) ∧
    ∃ count n later, this.pollWrite fuel (List.replicate count true) bs =
      some (.ready (.ok n), later)

variable {this : FuturesAsyncWriter} {bytes : Bytes}

/-- A write is never ready while the sink does not get rid of its bytes. -/
theorem Holds.pollWrite_stuck (stuck : WriteGenerator.Stuck chunkSize exact)
    {frozen : Bytes} (holds : Holds chunkSize exact bytes this)
    (current : this.buf.get = some frozen)
    (filled : this.sink.buf.bytes ≠ []) (schedule : List Bool) (bs : Bytes)
    (fuel : Nat) :
    ∃ later, this.pollWrite (fuel + 1) schedule bs =
      some (.pending, later) := by
  obtain ⟨sent, ready, _⟩ := holds
  obtain ⟨sink, rest, polled⟩ := ready.pollFlush_stuck stuck filled schedule
  refine ⟨⟨sink, this.buf⟩, ?_⟩
  simp only [FuturesAsyncWriter.pollWrite, FlexBuf.put_frozen current,
    BufferSink.pollReady, polled]

/-- The futures of a sink that holds nothing, or whose generator can move on,
are done after finitely many polls. -/
theorem Holds.pollWrite_ready (holds : Holds chunkSize exact bytes this)
    {bs : Bytes} (nonempty : bs ≠ [])
    (moves : ¬ (WriteGenerator.Stuck chunkSize exact ∧
      this.buf.get.isSome = true ∧ this.sink.buf.bytes ≠ [])) (fuel : Nat) :
    ∃ count n later, this.pollWrite (fuel + 2) (List.replicate count true) bs =
      some (.ready (.ok n), later) := by
  cases current : this.buf.get with
  | none =>
      obtain ⟨n, buf, polled, _⟩ :=
        pollWrite_unfrozen current nonempty (List.replicate 0 true) (fuel + 1)
      exact ⟨0, n, _, polled⟩
  | some frozen =>
      obtain ⟨sent, ready, _⟩ := holds
      by_cases stuck : WriteGenerator.Stuck chunkSize exact
      · have empty : this.sink.buf.bytes = [] := by
          by_contra filled
          exact moves ⟨stuck, by simp [current], filled⟩
        have polled := (ready.settled empty).pollFlush (List.replicate 0 true)
        exact ⟨0, FuturesAsyncWriter.pollWrite_ready current polled nonempty
          fuel⟩
      · obtain ⟨sink, left, polled, _⟩ :=
          ready.pollFlush_ready stuck (Nat.le_refl _)
        exact ⟨this.sink.buf.len,
          FuturesAsyncWriter.pollWrite_ready current polled nonempty fuel⟩

theorem Holds.returns_iff (holds : Holds chunkSize exact bytes this)
    (bs : Bytes) :
    this.Returns bs ↔ bs ≠ [] ∧
      ¬ (WriteGenerator.Stuck chunkSize exact ∧
        this.buf.get.isSome = true ∧ this.sink.buf.bytes ≠ []) := by
  constructor
  · intro returns
    obtain ⟨fuel, _, count, n, later, polled⟩ := returns
    refine ⟨?_, ?_⟩
    · intro empty
      rcases holds.polled polled with ⟨pending, _⟩ | ⟨m, _, progress, bound, _⟩
      · cases pending
      · rw [empty, List.length_nil] at bound
        omega
    · rintro ⟨stuck, isFrozen, filled⟩
      obtain ⟨frozen, current⟩ := Option.isSome_iff_exists.mp isFrozen
      cases fuel with
      | zero => cases polled
      | succ fuel =>
          obtain ⟨later, pending⟩ := holds.pollWrite_stuck stuck current filled
            (List.replicate count true) bs fuel
          cases pending.symm.trans polled
  · rintro ⟨nonempty, moves⟩
    refine ⟨2, ?_, holds.pollWrite_ready nonempty moves 0⟩
    intro schedule
    obtain ⟨poll, later, polled⟩ := holds.pollWrite schedule nonempty 0
    refine ⟨poll, later, polled, ?_⟩
    rcases holds.polled polled with
      ⟨pending, _⟩ | ⟨n, ready, progress, bound, _⟩
    · exact .inl pending
    · exact .inr ⟨n, ready, bound, fun _ => progress⟩

end FuturesAsyncWriter

namespace AsyncWriteSession

variable {session next : AsyncWriteSession}

theorem stepSlice_holds {poll : SlicePoll}
    (holds : session.writer.Holds chunkSize exact session.accepted)
    (stepped : session.stepSlice poll = some next) :
    next.writer.Holds chunkSize exact next.accepted := by
  cases poll with
  | write bs schedule =>
      simp only [stepSlice] at stepped
      split at stepped
      · rename_i later polled
        cases stepped
        rcases holds.polled polled with ⟨_, kept⟩ | ⟨_, impossible, _⟩
        · exact kept
        · cases impossible
      · rename_i n later polled
        cases stepped
        rcases holds.polled polled with ⟨impossible, _⟩ | ⟨m, same, _, _, kept⟩
        · cases impossible
        · cases same
          exact kept
      · cases stepped
  | flush schedule =>
      obtain ⟨answer, later, polled, kept, result⟩ :=
        holds.pollFlush schedule 0
      rcases result with rfl | ⟨rfl, _⟩
      · simp only [stepSlice, polled] at stepped
        cases stepped
        exact kept
      · simp only [stepSlice, polled] at stepped
        cases stepped
        exact kept

theorem holds_of_run {polls : List SlicePoll}
    (ran : Automaton.run stepSlice (new (.new .infallible chunkSize exact))
      polls = some session) :
    session.writer.Holds chunkSize exact session.accepted := by
  have preserved : ∀ {session : AsyncWriteSession} {poll next},
      session.writer.Holds chunkSize exact session.accepted →
      session.stepSlice poll = some next →
      next.writer.Holds chunkSize exact next.accepted :=
    fun holds stepped => stepSlice_holds holds stepped
  exact Automaton.run_invariant_of_forall preserved
    (FuturesAsyncWriter.holds_new chunkSize exact) ran

end AsyncWriteSession

/-- In every state that writes of any slices and flushes reach, the next write
returns as it should exactly when its slice is not empty, and the bytes that
are frozen do not have to go into chunks of no bytes.  The asynchronous writer
can still send them when the sink has no bytes. -/
theorem write_returns_iff (chunkSize : Option Nat) (exact : Bool) :
    (∀ fuel calls session,
      Automaton.run (StdSession.stepSlice fuel)
        (.new (.new .infallible chunkSize exact)) calls = some session →
      ∀ bs, session.writer.Returns bs ↔ bs ≠ [] ∧
        ¬ (WriteGenerator.Stuck chunkSize exact ∧
          session.writer.buf.get.isSome = true)) ∧
    (∀ polls session,
      Automaton.run AsyncWriteSession.stepSlice
        (.new (.new .infallible chunkSize exact)) polls = some session →
      ∀ bs, session.writer.Returns bs ↔ bs ≠ [] ∧
        ¬ (WriteGenerator.Stuck chunkSize exact ∧
          session.writer.buf.get.isSome = true ∧
          session.writer.sink.buf.bytes ≠ [])) := by
  constructor
  · intro fuel calls session ran bs
    obtain ⟨delivered, carries⟩ := StdSession.carries_of_run ran
    exact carries.returns_iff bs
  · intro polls session ran bs
    exact (AsyncWriteSession.holds_of_run ran).returns_iff bs

/-- Two bytes are buffered for exact chunks of no bytes. -/
theorem write_returns_iff_buffered :
    (∃ session,
      Automaton.run (StdSession.stepSlice 1)
        (.new (.new .infallible (some 0) true)) [.write [1, 2]] =
          some session ∧
      session.writer.Returns [3] ∧ ¬ session.writer.Returns []) ∧
    (∃ session,
      Automaton.run AsyncWriteSession.stepSlice
        (.new (.new .infallible (some 0) true)) [.write [1, 2] []] =
          some session ∧
      session.writer.Returns [3] ∧ ¬ session.writer.Returns []) := by
  obtain ⟨blocking, asynchronous⟩ := write_returns_iff (some 0) true
  constructor
  · have ran : Automaton.run (StdSession.stepSlice 1)
        (.new (.new .infallible (some 0) true)) [.write [1, 2]] =
          some _ := rfl
    have returns := blocking _ _ _ ran
    refine ⟨_, ran, (returns [3]).mpr ⟨by simp, ?_⟩, ?_⟩
    · rintro ⟨_, frozen⟩
      cases frozen
    · intro empty
      exact ((returns []).mp empty).1 rfl
  · have ran : Automaton.run AsyncWriteSession.stepSlice
        (.new (.new .infallible (some 0) true)) [.write [1, 2] []] =
          some _ := rfl
    have returns := asynchronous _ _ ran
    refine ⟨_, ran, (returns [3]).mpr ⟨by simp, ?_⟩, ?_⟩
    · rintro ⟨_, frozen, _⟩
      cases frozen
    · intro empty
      exact ((returns []).mp empty).1 rfl

/-- A writer that is new panics on the empty slice. -/
theorem write_returns_fails :
    ¬ (∀ fuel calls session,
        Automaton.run (StdSession.stepSlice fuel)
          (.new (.new .infallible none false)) calls = some session →
        ∀ bs, session.writer.Returns bs) ∧
    ¬ (∀ polls session,
        Automaton.run AsyncWriteSession.stepSlice
          (.new (.new .infallible none false)) polls = some session →
        ∀ bs, session.writer.Returns bs) := by
  constructor
  · intro claimed
    have returns := claimed 0 [] _ (Automaton.run_nil _ _) []
    obtain ⟨delivered, carries, _⟩ := StdSession.level_new none false
    exact ((carries.returns_iff []).mp returns).1 rfl
  · intro claimed
    have returns := claimed [] _ (Automaton.run_nil _ _) []
    have holds := FuturesAsyncWriter.holds_new none false
    exact ((holds.returns_iff []).mp returns).1 rfl

end OpenDal
