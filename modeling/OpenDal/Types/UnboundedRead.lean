import OpenDal.Types.ContentRead

/-!
# Streams without an end

Without a chunk size, a range without an end is read by one request without a
size.  The generator hands that request out once; the stream returns what the
reader returns and ends with it, or with its error.
-/

namespace OpenDal

variable {R : Type} [Read R] {may : Prop}

/-! ## Readers that may fail -/

namespace Read

/-- The reader returns exactly `bytes`, split into non-empty buffers, and then
the empty buffer, unless it fails before; `may` says whether it may. -/
inductive Ends (may : Prop) : R → Bytes → Prop where
  | done {r later : R} {buf : Buffer} (answered : read r = (.ok buf, later))
      (empty : buf.bytes = []) : Ends may r []
  | more {r later : R} {buf : Buffer} {rest : Bytes}
      (answered : read r = (.ok buf, later)) (nonempty : buf.bytes ≠ [])
      (ends : Ends may later rest) : Ends may r (buf.bytes ++ rest)
  | fails {r later : R} {err : Error} {bytes : Bytes} (allowed : may)
      (answered : read r = (.error err, later)) : Ends may r bytes

theorem Yields.ends {r : R} {bytes : Bytes} (yields : Yields r bytes)
    (may : Prop) : Ends may r bytes := by
  induction yields with
  | done answered empty => exact .done answered empty
  | more answered nonempty _ induction =>
      exact .more answered nonempty induction

end Read

namespace StreamingReader

/-- What the reader is still going to return: all of the one request that has
not been sent yet, the rest of it, or nothing. -/
inductive Rest (may : Prop) : StreamingReader R → Bytes → Prop where
  | refused {reader : StreamingReader R} {err : Error} {bytes : Bytes}
      (allowed : may) (closed : reader.reader = none)
      (unknown : reader.generator.size = none)
      (failed : reader.generator.openRange ⟨reader.generator.offset, none⟩ =
        .error err) : Rest may reader bytes
  | unopened {reader : StreamingReader R} {r : R} {bytes : Bytes}
      (closed : reader.reader = none) (unknown : reader.generator.size = none)
      (opened : reader.generator.openRange ⟨reader.generator.offset, none⟩ =
        .ok r)
      (ends : Read.Ends may r bytes) : Rest may reader bytes
  | reading {reader : StreamingReader R} {r : R} {bytes : Bytes}
      (current : reader.reader = some r)
      (last : reader.generator.size = some 0)
      (ends : Read.Ends may r bytes) : Rest may reader bytes
  | finished {reader : StreamingReader R} (closed : reader.reader = none)
      (last : reader.generator.size = some 0) : Rest may reader []

/-- How many rounds there are at most. -/
def stage (reader : StreamingReader R) : Nat :=
  if reader.reader.isSome || reader.generator.size.isNone then 1 else 0

/-- What one round of `read` comes to; `weight` rounds are left at most. -/
inductive RestRound (may : Prop) (later : StreamingReader R) (bytes : Bytes)
    (weight : Nat) : Progress Unit (Except Error Buffer) → Prop where
  | suspended (kept : Rest may later bytes)
      (lighter : bytes.length + later.stage < weight) :
      RestRound may later bytes weight (.suspended ())
  | piece {buf : Buffer} {rest : Bytes} (nonempty : buf.isEmpty = false)
      (split : bytes = buf.bytes ++ rest) (kept : Rest may later rest)
      (lighter : rest.length + later.stage < weight) :
      RestRound may later bytes weight (.returned (.ok buf))
  | ended (nothing : bytes = []) :
      RestRound may later bytes weight (.returned (.ok Buffer.new))
  | failed {err : Error} (allowed : may) :
      RestRound may later bytes weight (.returned (.error err))

theorem readFrom_rest {reader : StreamingReader R} {r : R} {bytes : Bytes}
    (last : reader.generator.size = some 0) (ends : Read.Ends may r bytes) :
    RestRound may (reader.readFrom r).1 bytes (bytes.length + 1)
      (reader.readFrom r).2 := by
  unfold readFrom
  cases ends with
  | @done _ later buf answered empty =>
      have isEmpty := (Buffer.isEmpty_iff buf).mpr empty
      simp only [answered, isEmpty, if_true]
      apply RestRound.suspended
      · exact .finished rfl last
      · simp [stage, last]
  | @more _ later buf rest answered nonempty ends =>
      have isEmpty := Buffer.isEmpty_eq_false nonempty
      simp only [answered, isEmpty, Bool.false_eq_true, if_false]
      apply RestRound.piece isEmpty rfl
      · exact .reading rfl last ends
      · have positive := List.length_pos_iff.mpr nonempty
        have one : stage { reader with reader := some later } = 1 := by
          simp [stage]
        rw [one, List.length_append]
        omega
  | fails allowed answered =>
      simp only [answered]
      exact .failed allowed

omit [Read R] in
theorem nextReader_unknown {generator : ReadGenerator R}
    (unknown : generator.size = none) :
    generator.nextReader =
      ((generator.openRange ⟨generator.offset, none⟩).map some,
        { generator with size := some 0 }) := by
  have range : generator.nextRange =
      (some ⟨generator.offset, none⟩, { generator with size := some 0 }) := by
    simp [ReadGenerator.nextRange, unknown]
  rw [ReadGenerator.nextReader, range]
  rfl

theorem Rest.pollRead {reader : StreamingReader R} {bytes : Bytes}
    (rest : Rest may reader bytes) :
    RestRound may reader.pollRead.1 bytes (bytes.length + reader.stage)
      reader.pollRead.2 := by
  unfold StreamingReader.pollRead
  cases rest with
  | refused allowed closed unknown failed =>
      simp only [closed, nextReader_unknown unknown, failed, Except.map]
      exact .failed allowed
  | unopened closed unknown opened ends =>
      have stage : reader.stage = 1 := by simp [stage, unknown]
      rw [stage]
      simp only [closed, nextReader_unknown unknown, opened, Except.map]
      exact readFrom_rest rfl ends
  | @reading _ r current last ends =>
      have stage : reader.stage = 1 := by simp [stage, current]
      rw [stage]
      simp only [current]
      exact readFrom_rest last ends
  | finished closed last =>
      have next : reader.generator.nextReader =
          (.ok none, reader.generator) := by
        simp [ReadGenerator.nextReader, ReadGenerator.nextRange, last]
      simp only [closed, next]
      exact .ended rfl

end StreamingReader

/-! ## Collecting the stream -/

namespace ReaderRead

/-- The collected bytes and what is still to come are `bytes`, and at most
`weight` events are left. -/
inductive Collecting (may : Prop) (bytes : Bytes) :
    Nat → ReaderRead R → Prop where
  | running {state : ReaderRead R} {reader : StreamingReader R}
      {rest : Bytes} {weight : Nat} (current : state.stream.call = .one reader)
      (kept : reader.Rest may rest)
      (whole : state.bufs.flatMap Buffer.bytes ++ rest = bytes)
      (unfinished : state.result = none) (sound : state.panicked = false)
      (lighter : rest.length + reader.stage < weight) :
      Collecting may bytes weight state
  | returned {state : ReaderRead R} {buf : Buffer} {weight : Nat}
      (result : state.result = some (.ok buf)) (right : buf.bytes = bytes)
      (sound : state.panicked = false) : Collecting may bytes weight state
  | failed {state : ReaderRead R} {err : Error} {weight : Nat}
      (result : state.result = some (.error err)) (allowed : may)
      (sound : state.panicked = false) : Collecting may bytes weight state

theorem step_one {state later : ReaderRead R} {reader : StreamingReader R}
    {event : ReadEvent} (current : state.stream.call = .one reader)
    (unfinished : state.result = none) (sound : state.panicked = false)
    (stepped : state.step event = some later) :
    event = .poll ∧
      (BufferStream.pollReading (.one reader)).map state.collect =
        some later := by
  simp only [ReaderRead.step, unfinished, sound, Option.isSome_none,
    Bool.false_or, Bool.false_eq_true, if_false] at stepped
  cases event with
  | poll =>
      rw [BufferStream.pollNext, current] at stepped
      exact ⟨rfl, stepped⟩
  | finish position fuel =>
      cases stream : state.stream with
      | idle ways =>
          rw [stream] at current stepped
          cases ways <;> cases current
          cases stepped
      | reading call =>
          rw [stream] at current stepped
          cases current
          cases stepped
  | finishAwaited fuel =>
      cases stream : state.stream with
      | idle ways =>
          rw [stream] at stepped
          cases stepped
      | reading call =>
          rw [stream] at current stepped
          cases current
          cases stepped

theorem Collecting.step {bytes : Bytes} {weight : Nat}
    {state later : ReaderRead R} {event : ReadEvent}
    (collecting : Collecting may bytes weight state)
    (stepped : state.step event = some later) :
    ∃ lower, lower < weight ∧ Collecting may bytes lower later := by
  cases collecting with
  | returned result _ _ => simp [ReaderRead.step, result] at stepped
  | failed result _ _ => simp [ReaderRead.step, result] at stepped
  | running current kept whole unfinished sound lighter =>
      rename_i reader rest
      obtain ⟨-, polled⟩ := step_one current unfinished sound stepped
      have round := kept.pollRead
      simp only [BufferStream.pollReading] at polled
      generalize reader.pollRead = answer at round polled
      obtain ⟨next, progress⟩ := answer
      cases round with
      | suspended kept lower =>
          cases polled
          exact ⟨_, lighter,
            .running rfl kept whole unfinished sound lower⟩
      | @piece buf rest nonempty split kept lower =>
          simp only [BufferStream.item, nonempty, Bool.false_eq_true,
            if_false] at polled
          cases polled
          refine ⟨_, lighter, .running rfl kept ?_ unfinished sound lower⟩
          rw [← whole, split]
          simp [ReaderRead.collect]
      | ended nothing =>
          cases polled
          refine ⟨_, lighter, .returned rfl ?_ sound⟩
          rw [Buffer.bytes_flatten, ← whole, nothing, List.append_nil]
      | failed allowed =>
          cases polled
          exact ⟨_, lighter, .failed rfl allowed sound⟩

theorem Collecting.progress {bytes : Bytes} {weight : Nat}
    {state : ReaderRead R} (collecting : Collecting may bytes weight state)
    (running : state.result = none) :
    (state.step .poll).isSome = true := by
  cases collecting with
  | returned result _ _ =>
      rw [running] at result
      cases result
  | failed result _ _ =>
      rw [running] at result
      cases result
  | running current kept whole unfinished sound lighter =>
      rename_i reader rest
      have round := kept.pollRead
      simp only [ReaderRead.step, unfinished, sound, Option.isSome_none,
        Bool.false_or, Bool.false_eq_true, if_false, Option.isSome_map,
        BufferStream.pollNext, current, BufferStream.pollReading]
      generalize reader.pollRead = answer at round
      obtain ⟨next, progress⟩ := answer
      cases round <;> rfl

theorem Collecting.run {bytes : Bytes} {weight : Nat}
    {state later : ReaderRead R} {events : List ReadEvent}
    (collecting : Collecting may bytes weight state)
    (ran : Automaton.run ReaderRead.step state events = some later) :
    ∃ lower, lower + events.length ≤ weight ∧
      Collecting may bytes lower later := by
  induction events generalizing state weight with
  | nil =>
      rw [Automaton.run_nil] at ran
      cases ran
      exact ⟨weight, Nat.le_refl _, collecting⟩
  | cons event events induction =>
      obtain ⟨next, stepped, rest⟩ := Automaton.run_cons_eq_some_iff.mp ran
      obtain ⟨lower, less, kept⟩ := collecting.step stepped
      obtain ⟨last, bound, ended⟩ := induction kept rest
      refine ⟨last, ?_, ended⟩
      rw [List.length_cons]
      omega

end ReaderRead

/-- A range without an end is read to the end of the content, or the service
fails. -/
theorem BufferStream.settles_open {ctx : ReadContext R} {offset : Nat}
    {bytes : Bytes}
    (opened : ∀ r, ctx.acc.read ctx.path
      (ctx.args.withRange ⟨offset, none⟩) = .ok r → Read.Ends may r bytes)
    (refused : ∀ err, ctx.acc.read ctx.path
      (ctx.args.withRange ⟨offset, none⟩) = .error err → may) :
    (BufferStream.idle (.one (.new ctx ⟨offset, none⟩))).Settles
      fun result => (∃ buf, result = .ok buf ∧ buf.bytes = bytes) ∨
        may ∧ ∃ err, result = .error err := by
  have initially : ReaderRead.Collecting may bytes (bytes.length + 2)
      (.new (BufferStream.idle
        (.one (StreamingReader.new ctx ⟨offset, none⟩)))) := by
    have rest : StreamingReader.Rest may
        (StreamingReader.new ctx ⟨offset, none⟩) bytes := by
      cases answer : ctx.acc.read ctx.path
          (ctx.args.withRange ⟨offset, none⟩) with
      | error err => exact .refused (refused err answer) rfl rfl answer
      | ok r => exact .unopened rfl rfl answer (opened r answer)
    apply ReaderRead.Collecting.running rfl rest
    · rfl
    · rfl
    · rfl
    · simp [StreamingReader.stage, StreamingReader.new, ReadGenerator.new]
  constructor
  · refine ⟨bytes.length + 2, ?_⟩
    intro events state ran
    obtain ⟨lower, bound, -⟩ := initially.run ran
    omega
  · intro events state ran running
    obtain ⟨lower, -, collecting⟩ := initially.run ran
    exact ⟨.poll, collecting.progress running⟩
  · intro events state ran
    obtain ⟨lower, -, collecting⟩ := initially.run ran
    cases collecting with
    | running _ _ _ _ sound _ => exact sound
    | returned _ _ sound => exact sound
    | failed _ _ sound => exact sound
  · intro events state result ran finished
    obtain ⟨lower, -, collecting⟩ := initially.run ran
    cases collecting with
    | running _ _ _ unfinished _ _ =>
        rw [unfinished] at finished
        cases finished
    | returned returned right _ =>
        rw [returned] at finished
        cases finished
        exact .inl ⟨_, rfl, right⟩
    | failed returned allowed _ =>
        rw [returned] at finished
        cases finished
        exact .inr ⟨allowed, _, rfl⟩

theorem BufferStream.collects_open {ctx : ReadContext R} {offset : Nat}
    {r : R} {bytes : Bytes}
    (opened : ctx.acc.read ctx.path
      (ctx.args.withRange ⟨offset, none⟩) = .ok r)
    (yields : Read.Yields r bytes) :
    (BufferStream.idle (.one (.new ctx ⟨offset, none⟩))).Collects bytes := by
  have settles : (BufferStream.idle (.one
      (StreamingReader.new ctx ⟨offset, none⟩))).Settles fun result =>
      (∃ buf, result = .ok buf ∧ buf.bytes = bytes) ∨
        False ∧ ∃ err, result = .error err := by
    apply BufferStream.settles_open
    · intro other answered
      cases opened.symm.trans answered
      exact yields.ends False
    · intro err failed
      cases opened.symm.trans failed
  apply BufferStream.Settles.collects
  apply settles.imp
  intro result given
  exact given.resolve_right fun impossible => impossible.1

end OpenDal
