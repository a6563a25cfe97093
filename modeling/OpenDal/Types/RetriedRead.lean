import OpenDal.Types.ChunkedRead

/-!
# Retrying a chunked read

A consumer calls `ChunkedReader::read` again after every error, over readers
that may fail temporarily and then go on after the bytes they have returned.
Two things get lost on the way: the buffers that `read_all` has collected when
its reader fails, and the reader that is being submitted when `execute`
returns the failure of another one.  Where neither happens, everything
arrives.
-/

namespace OpenDal

variable {R : Type} [Read R]

/-! ## Readers that fail temporarily -/

namespace Read

variable {r later : R} {bytes : Bytes}

/-- The reader returns exactly `bytes`, with any number of temporary failures
in between. -/
inductive Resumes : R → Bytes → Prop where
  | done {r later : R} {buf : Buffer} (answered : read r = (.ok buf, later))
      (empty : buf.bytes = []) : Resumes r []
  | more {r later : R} {buf : Buffer} {rest : Bytes}
      (answered : read r = (.ok buf, later)) (nonempty : buf.bytes ≠ [])
      (resumes : Resumes later rest) : Resumes r (buf.bytes ++ rest)
  | failed {r later : R} {bytes : Bytes} {err : Error}
      (answered : read r = (.error err, later))
      (temporary : err.isTemporary = true)
      (resumes : Resumes later bytes) : Resumes r bytes

/-- The reader returns exactly `bytes`, and fails only before its first
buffer. -/
inductive Recovers : R → Bytes → Prop where
  | steady {r : R} {bytes : Bytes} (yields : Yields r bytes) :
      Recovers r bytes
  | failed {r later : R} {bytes : Bytes} {err : Error}
      (answered : read r = (.error err, later))
      (temporary : err.isTemporary = true)
      (recovers : Recovers later bytes) : Recovers r bytes

theorem Yields.resumes (yields : Yields r bytes) : Resumes r bytes := by
  induction yields with
  | done answered empty => exact .done answered empty
  | more answered nonempty _ induction =>
      exact .more answered nonempty induction

/-- Failing only before the first buffer is one way to fail temporarily. -/
theorem Recovers.resumes (recovers : Recovers r bytes) :
    Resumes r bytes := by
  induction recovers with
  | steady yields => exact yields.resumes
  | failed answered temporary _ induction =>
      exact .failed answered temporary induction

theorem Recovers.of_nonempty {buf : Buffer} (recovers : Recovers r bytes)
    (answered : read r = (.ok buf, later)) (nonempty : buf.bytes ≠ []) :
    ∃ rest, bytes = buf.bytes ++ rest ∧ Recovers later rest := by
  cases recovers with
  | steady yields =>
      obtain ⟨rest, split, yieldsRest⟩ := yields.of_nonempty answered nonempty
      exact ⟨rest, split, .steady yieldsRest⟩
  | failed other _ _ => cases answered.symm.trans other

theorem Recovers.of_empty {buf : Buffer} (recovers : Recovers r bytes)
    (answered : read r = (.ok buf, later)) (empty : buf.bytes = []) :
    bytes = [] := by
  cases recovers with
  | steady yields => exact yields.of_empty answered empty
  | failed other _ _ => cases answered.symm.trans other

/-- A reader that recovers has lost nothing when `read_all` fails. -/
theorem Recovers.readAll_error {fuel : Nat} {err : Error}
    (recovers : Recovers r bytes)
    (failed : readAll fuel r = some (later, .error err)) :
    err.isTemporary = true ∧ Recovers later bytes := by
  cases recovers with
  | steady yields => exact absurd failed yields.readAll_ne_error
  | failed answered temporary recovers =>
      cases fuel with
      | zero => cases failed
      | succ fuel =>
          simp only [readAll, readAllLoop, answered] at failed
          cases failed
          exact ⟨temporary, recovers⟩

end Read

/-! ## The consumer -/

structure RetriedRead (R : Type) where
  reader : ChunkedReader R
  /-- The current call of `read`. -/
  future : ReadFuture R
  /-- The buffers that have been returned. -/
  outputs : List Buffer
  /-- An empty buffer has been returned. -/
  ended : Bool
  panicked : Bool

namespace RetriedRead

def new (ctx : ReadContext R) (offset size : Nat) : RetriedRead R :=
  { reader := .new ctx ⟨offset, some size⟩
    future := .looping
    outputs := []
    ended := false
    panicked := false }

/-- `read` is called again after a buffer and after an error. -/
def advance (self : RetriedRead R) :
    ChunkedReader R × Progress (ReadFuture R) (Except Error Buffer) →
      RetriedRead R
  | (reader, .suspended future) => { self with reader, future }
  | (reader, .returned (.ok buf)) =>
      if buf.isEmpty then
        { self with reader, ended := true }
      else
        { self with
          reader
          future := .looping
          outputs := self.outputs ++ [buf] }
  | (reader, .returned (.error _)) =>
      { self with reader, future := .looping }
  | (reader, .panicked _) => { self with reader, panicked := true }

def step (self : RetriedRead R) (event : ReadEvent) :
    Option (RetriedRead R) :=
  if self.ended || self.panicked then
    none
  else
    match event with
    | .poll => (self.reader.pollRead self.future).map self.advance
    | .finish place fuel =>
        (self.reader.finish place fuel).map fun reader =>
          { self with reader }
    | .finishAwaited fuel =>
        (self.future.finish fuel).map fun future => { self with future }

/-- The steps in which no reader is submitted at a failure. -/
def Harmless (self : RetriedRead R) : ReadEvent → Prop
  | .poll => self.reader.submitsAtFailure self.future = false
  | _ => True

/-! ## The invariant -/

/-- Readers of `content` that recover. -/
def cursor (R : Type) [Read R] (content : Bytes) : Cursor R :=
  .ofReaders content Read.Recovers Read.Recovers.of_nonempty
    Read.Recovers.of_empty

/-- A failed task can be started again: its reader is where it was. -/
def fails (content : Bytes) (chunk : Chunk) (r : R) (err : Error) : Prop :=
  (cursor R content).stands (chunk.offset + chunk.size) chunk.offset r ∧
    err.isTemporary = true

variable {content : Bytes} {ctx : ReadContext R} {start stop : Nat}
  {state later : RetriedRead R}

theorem tasksFail (fuel : Nat) (task : Option (Task R Buffer)) :
    ChunkedReader.TasksFail (cursor R content) (fails content) fuel task := by
  intro chunk r handedBack err _ stands failed
  obtain ⟨within, bounded, recovers⟩ := stands
  obtain ⟨temporary, recovers⟩ := recovers.readAll_error failed
  exact ⟨⟨within, bounded, recovers⟩, temporary⟩

/-- The number of bytes that have been returned. -/
def returned (state : RetriedRead R) : Nat :=
  (state.outputs.flatMap Buffer.bytes).length

/-- What has been returned is right, and the reader goes on behind it. -/
structure Faithful (content : Bytes) (ctx : ReadContext R)
    (start stop : Nat) (state : RetriedRead R) : Prop where
  unpanicked : state.panicked = false
  right : (cursor R content).piece start
    (state.outputs.flatMap Buffer.bytes)
  going : state.ended = false →
    state.reader.Fits ((cursor R content).contract (fails content)) ctx stop
      (start + state.returned) state.future
  complete : state.ended = true → start + state.returned = stop

theorem faithful_new (content : Bytes) (ctx : ReadContext R)
    (offset size : Nat) :
    Faithful content ctx offset (offset + size) (new ctx offset size) where
  unpanicked := rfl
  right := (cursor R content).piece_nil offset
  going := fun _ => ChunkedReader.fits_new _ ctx
  complete := fun ended => by cases ended

theorem Faithful.advance {reader : ChunkedReader R}
    {progress : Progress (ReadFuture R) (Except Error Buffer)}
    (faithful : state.Faithful content ctx start stop)
    (running : state.ended = false)
    (serves : ctx.Serves Read.Recovers content)
    (within : stop ≤ content.length)
    (outcome : ChunkedReader.ReadOutcome
      ((cursor R content).contract (fails content)) (cursor R content) ctx
      stop (start + state.returned) false reader progress) :
    (state.advance (reader, progress)).Faithful content ctx start stop := by
  cases outcome with
  | suspended fits => exact { faithful with going := fun _ => fits }
  | @piece buf nonempty right fits =>
      have grown : (state.outputs ++ [buf]).flatMap Buffer.bytes =
          state.outputs.flatMap Buffer.bytes ++ buf.bytes := by simp
      rw [RetriedRead.advance, if_neg (by simp [nonempty])]
      refine
        { faithful with
          right := ?_
          going := fun _ => ?_
          complete := fun ended => by simp [running] at ended }
      · rw [grown]
        exact (cursor R content).piece_append faithful.right right
      · rw [returned, grown, List.length_append, Buffer.length_bytes,
          ← Nat.add_assoc]
        exact fits
  | ended finished =>
      exact
        { faithful with
          going := fun unended => by cases unended
          complete := fun _ => finished }
  | @unopened offset size err positive inside refused =>
      obtain ⟨r, answered, _⟩ := serves offset size (by omega)
      cases refused.symm.trans answered
  | refused _ submitting => cases submitting
  | failed failure fits =>
      exact { faithful with going := fun _ => fits failure.1 failure.2 }

theorem Faithful.step {event : ReadEvent}
    (faithful : state.Faithful content ctx start stop)
    (serves : ctx.Serves Read.Recovers content)
    (within : stop ≤ content.length) (harmless : state.Harmless event)
    (stepped : state.step event = some later) :
    later.Faithful content ctx start stop := by
  have opens : (cursor R content).Opens ctx stop := serves.opens within
  unfold RetriedRead.step at stepped
  split at stepped
  · cases stepped
  · rename_i unended
    have running : state.ended = false := by
      simp only [Bool.or_eq_true, not_or, Bool.not_eq_true] at unended
      exact unended.1
    have fits := faithful.going running
    cases event with
    | poll =>
        simp only [Option.map_eq_some_iff] at stepped
        obtain ⟨⟨reader, progress⟩, resumed, rfl⟩ := stepped
        have outcome := fits.pollRead opens resumed
        rw [show state.reader.submitsAtFailure state.future = false from
          harmless] at outcome
        exact faithful.advance running serves within outcome
    | finish place fuel =>
        simp only [Option.map_eq_some_iff] at stepped
        obtain ⟨reader, finished, rfl⟩ := stepped
        exact { faithful with
          going := fun _ => fits.finish finished (tasksFail fuel _) }
    | finishAwaited fuel =>
        simp only [Option.map_eq_some_iff] at stepped
        obtain ⟨future, finished, rfl⟩ := stepped
        exact { faithful with
          going := fun _ => fits.finishAwaited finished (tasksFail fuel _) }

/-! ## The result -/

/-- What has been returned is the beginning of the range, and all of it once
an empty buffer has been returned. -/
def Survives (content : Bytes) (start size : Nat) (state : RetriedRead R) :
    Prop :=
  state.panicked = false ∧
    state.outputs.flatMap Buffer.bytes <+: (content.drop start).take size ∧
    (state.ended = true →
      state.outputs.flatMap Buffer.bytes = (content.drop start).take size)

theorem Faithful.survives {size : Nat}
    (faithful : state.Faithful content ctx start (start + size)) :
    state.Survives content start size := by
  have begins : state.outputs.flatMap Buffer.bytes <+: content.drop start :=
    faithful.right
  have inside : state.returned ≤ size := by
    cases ended : state.ended with
    | true =>
        have finished := faithful.complete ended
        omega
    | false =>
        have reached := (faithful.going ended).position_le
        omega
  refine ⟨faithful.unpanicked, ?_, ?_⟩
  · rw [List.prefix_take_iff]
    exact ⟨begins, inside⟩
  · intro ended
    have finished : state.returned = size :=
      Nat.add_left_cancel (faithful.complete ended)
    rw [List.prefix_iff_eq_take.mp begins, ← finished, returned]

/-- Where a chunked read survives temporary failures.  If no reader fails
after it has returned a buffer, and no reader is being submitted at a failure
in any step of the run, the buffers that are returned are the content of the
range, without a hole and without a repetition. -/
theorem survives_of_harmless (content : Bytes) (ctx : ReadContext R)
    (serves : ctx.Serves Read.Recovers content) {start size : Nat}
    (within : start + size ≤ content.length) {events : List ReadEvent}
    {state : RetriedRead R}
    (harmless : Automaton.Along step Harmless (new ctx start size) events)
    (ran : Automaton.run step (new ctx start size) events = some state) :
    state.Survives content start size := by
  have faithful : state.Faithful content ctx start (start + size) :=
    Automaton.run_invariant_along
      (fun faithful harmless stepped =>
        faithful.step serves within harmless stepped)
      (faithful_new content ctx start size) harmless ran
  exact faithful.survives

/-! ## A service that fails once -/

def tryAgain : Error := (Error.new .unexpected "try again").setTemporary

/-- A reader that returns the bytes one by one and fails once after the first
`good` of them. -/
def faultyReader (good : Nat) (bytes : Bytes) : ScriptedReader :=
  ⟨(ScriptedReader.bytewise (bytes.take good)).replies ++
    .error tryAgain ::
      (ScriptedReader.bytewise (bytes.drop good)).replies⟩

/-- Chunks of two bytes, two at a time; every reader fails once after `good`
bytes. -/
def faultyContext (content : Bytes) (good : Nat) :
    ReadContext ScriptedReader :=
  .new
    { read := fun _ args => .ok (faultyReader good
        ((content.drop args.range.offset).take
          (args.range.size.getD content.length)))
      stat := fun _ _ => .ok content.length }
    "file" ⟨⟨0, none⟩, none⟩ ((OpReader.new.withChunk 2).withConcurrent 2)

private theorem recovers_faultyReader (bytes : Bytes) :
    Read.Recovers (faultyReader 0 bytes) bytes :=
  .failed rfl rfl (.steady (Read.yields_bytewise bytes))

private theorem resumes_faultyReader (bytes : Bytes) :
    Read.Resumes (faultyReader 1 bytes) bytes := by
  cases bytes with
  | nil => exact .failed rfl rfl (.done rfl rfl)
  | cons byte bytes =>
      have nonempty : (Buffer.fromBytes [byte]).bytes ≠ [] := by simp
      exact .more rfl nonempty
        (.failed rfl rfl (Read.yields_bytewise bytes).resumes)

/-- Both tasks fail when they are at the front of a full queue or behind the
last chunk. -/
def harmlessSchedule : List ReadEvent :=
  [.poll, .poll, .poll, .poll, .poll, .finish 0 9, .finish 1 9, .poll, .poll,
    .poll, .poll, .finish 0 9, .poll, .poll, .poll, .poll, .poll, .poll,
    .finish 0 9, .poll, .poll, .poll]

theorem survives_of_harmless_faulty :
    ∃ state,
      Automaton.run step (new (faultyContext [1, 2, 3, 4] 0) 0 4)
        harmlessSchedule = some state ∧
      state.ended = true ∧ state.Survives [1, 2, 3, 4] 0 4 := by
  obtain ⟨state, ran, ended⟩ :
      ∃ state,
        Automaton.run step (new (faultyContext [1, 2, 3, 4] 0) 0 4)
          harmlessSchedule = some state ∧ state.ended = true :=
    ⟨_, rfl, rfl⟩
  have serves : (faultyContext [1, 2, 3, 4] 0).Serves Read.Recovers
      [1, 2, 3, 4] :=
    fun offset size _ => ⟨_, rfl, recovers_faultyReader _⟩
  have harmless : Automaton.Along step Harmless
      (new (faultyContext [1, 2, 3, 4] 0) 0 4) harmlessSchedule :=
    ⟨rfl, rfl, rfl, rfl, rfl, trivial, trivial, rfl, rfl, rfl, rfl, trivial,
      rfl, rfl, rfl, rfl, rfl, rfl, trivial, rfl, rfl, rfl, trivial⟩
  exact ⟨state, ran, ended,
    survives_of_harmless [1, 2, 3, 4] (faultyContext [1, 2, 3, 4] 0) serves
      (by decide) harmless ran⟩

/-- The only reader fails after its first byte. -/
def lateSchedule : List ReadEvent :=
  [.poll, .poll, .poll, .finish 0 9, .poll, .poll, .poll, .poll, .finish 0 9,
    .poll, .poll, .poll]

/-- The first of two readers fails, and the second one is submitted. -/
def submitSchedule : List ReadEvent :=
  [.poll, .poll, .finish 0 9, .poll, .poll, .poll, .poll, .finish 0 9, .poll,
    .poll, .poll]

/-- The first byte is lost with the buffers of a failed `read_all`; the second
chunk is lost with the reader that could not be submitted. -/
theorem survives_fails_late_and_submitting :
    ((faultyContext [1, 2] 1).Serves Read.Resumes [1, 2] ∧
      ∃ state,
        Automaton.run step (new (faultyContext [1, 2] 1) 0 2) lateSchedule =
          some state ∧
        state.ended = true ∧ state.outputs.flatMap Buffer.bytes = [2] ∧
        ¬ state.Survives [1, 2] 0 2) ∧
    ((faultyContext [1, 2, 3, 4] 0).Serves Read.Resumes [1, 2, 3, 4] ∧
      ∃ state,
        Automaton.run step (new (faultyContext [1, 2, 3, 4] 0) 0 4)
          submitSchedule = some state ∧
        state.ended = true ∧ state.outputs.flatMap Buffer.bytes = [1, 2] ∧
        ¬ state.Survives [1, 2, 3, 4] 0 4) := by
  refine ⟨⟨?_, ?_⟩, ?_, ?_⟩
  · exact fun offset size _ => ⟨_, rfl, resumes_faultyReader _⟩
  · refine ⟨_, rfl, rfl, rfl, ?_⟩
    intro given
    obtain ⟨_, _, complete⟩ := given
    cases complete rfl
  · exact fun offset size _ => ⟨_, rfl, (recovers_faultyReader _).resumes⟩
  · refine ⟨_, rfl, rfl, rfl, ?_⟩
    intro given
    obtain ⟨_, _, complete⟩ := given
    cases complete rfl

end RetriedRead

end OpenDal
