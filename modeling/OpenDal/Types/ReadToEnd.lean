import OpenDal.Types.ReaderCursor

/-!
# Reading an adapter to its end

`read_to_end` calls `read` until it returns nothing.  The service may fail, and
so may the source of the adapter; what is asked of a source is `FallibleLaws`.
The bytes that have been read and those in the window are a piece at the start
of the range.
-/

namespace OpenDal

variable {R S : Type}

structure ReadToEnd (R S : Type) where
  reader : SeekingReader R S
  bytes : Bytes
  result : Option (Except IoError Unit)
  panicked : Bool

/-- A call of `read` for at least one byte, or progress in the background. -/
inductive ReadToEndEvent (B : Type) where
  | read (size fuel : Nat) (positive : 0 < size)
  | background (event : B)

namespace ReadToEnd

def new (reader : SeekingReader R S) : ReadToEnd R S :=
  { reader
    bytes := []
    result := none
    panicked := false }

/-- A round of a call of `read`. -/
def round (self : ReadToEnd R S) :
    SeekingReader R S × Progress Unit (Except IoError Bytes) → ReadToEnd R S
  | (reader, .suspended ()) => { self with reader }
  | (reader, .returned (.ok bytes)) =>
      if bytes.isEmpty then
        { self with reader, result := some (.ok ()) }
      else
        { self with reader, bytes := self.bytes ++ bytes }
  | (reader, .returned (.error err)) =>
      { self with reader, result := some (.error err) }
  | (reader, .panicked _) => { self with reader, panicked := true }

variable [BufferSource R S]

def step (self : ReadToEnd R S)
    (event : ReadToEndEvent (BufferSource.Background S)) :
    Option (ReadToEnd R S) :=
  if self.result.isSome || self.panicked then
    none
  else
    match event with
    | .read size fuel _ => (self.reader.read size fuel).map self.round
    | .background event => do
        let source ← BufferSource.background self.reader.source event
        some { self with reader := { self.reader with source } }

end ReadToEnd

/-- Reading to the end comes to its end in every schedule, as long as no empty
part of a buffer is in the way, and it gives these bytes unless it fails. -/
structure SeekingReader.Delivers [BufferSource R S] (bytes : Bytes)
    (reader : SeekingReader R S) : Prop where
  terminates : ∃ bound, ∀ events state,
    Automaton.run ReadToEnd.step (.new reader) events = some state →
      events.length ≤ bound
  continues : ∀ events state,
    Automaton.run ReadToEnd.step (.new reader) events = some state →
      state.result = none → ∀ size (positive : 0 < size),
      state.reader.buf.Dense (min state.reader.buf.len size) →
      (∃ fuel, (state.step (.read size fuel positive)).isSome = true) ∨
        ∃ event, (state.step (.background event)).isSome = true
  unpanicked : ∀ events state,
    Automaton.run ReadToEnd.step (.new reader) events = some state →
      state.panicked = false
  returns : ∀ events state,
    Automaton.run ReadToEnd.step (.new reader) events = some state →
      state.result = some (.ok ()) → state.bytes = bytes

/-! ## Sources that may fail -/

/-- What asking a source at `position` for its next buffer can come to. -/
inductive FallibleRound [Read R] (cursor : Cursor R)
    (stands : Nat → S → Prop) (stop position : Nat) (later : S) :
    Progress Unit (Option (Except Error Buffer)) → Prop where
  | suspended (kept : stands position later) :
      FallibleRound cursor stands stop position later (.suspended ())
  | piece {buf : Buffer} (nonempty : buf.isEmpty = false)
      (right : cursor.piece position buf.bytes)
      (moved : stands (position + buf.len) later) :
      FallibleRound cursor stands stop position later
        (.returned (some (.ok buf)))
  | ended (finished : position = stop) :
      FallibleRound cursor stands stop position later (.returned none)
  | failed {err : Error} :
      FallibleRound cursor stands stop position later
        (.returned (some (.error err)))

/-- A source of a range that ends at `stop`. -/
structure FallibleLaws (S : Type) [Read R] [BufferSource R S]
    (cursor : Cursor R) (stop : Nat) where
  stands : Nat → S → Prop
  weight : S → Nat
  inside : ∀ {position source}, stands position source → position ≤ stop
  next : ∀ {position source later progress}, stands position source →
    BufferSource.next source = some (later, progress) →
    FallibleRound cursor stands stop position later progress
  background : ∀ {position source later event}, stands position source →
    BufferSource.background source event = some later → stands position later
  next_weight : ∀ {position source later progress}, stands position source →
    BufferSource.next source = some (later, progress) →
    (progress = .suspended () → weight later < weight source) ∧
      ∀ buf, progress = .returned (some (.ok buf)) →
        weight later ≤ weight source
  background_weight : ∀ {position source later event},
    stands position source →
    BufferSource.background source event = some later →
    weight later < weight source
  progress : ∀ {position source}, stands position source →
    (BufferSource.next source).isSome = true ∨
      ∃ event, (BufferSource.background source event).isSome = true

theorem Buffer.bytes_eq_nil {buf : Buffer} (empty : ¬ 0 < buf.len) :
    buf.bytes = [] := by
  apply List.eq_nil_of_length_eq_zero
  rw [Buffer.length_bytes]
  omega

namespace SeekingReader

variable [BufferSource R S] {reader later : SeekingReader R S}
  {progress : Progress Unit (Except IoError Bytes)}

/-- A round of `read` takes bytes off the front of the window or, when the
window is empty, asks the source. -/
theorem read_cases {size fuel : Nat} (positive : 0 < size)
    (polled : reader.read size fuel = some (later, progress)) :
    (∃ bytes buf, bytes ≠ [] ∧ bytes ++ buf.bytes = reader.buf.bytes ∧
        later = { reader with buf, pos := reader.pos + bytes.length } ∧
        progress = .returned (.ok bytes)) ∨
      ¬ 0 < reader.buf.len ∧ reader.refill = some (later, progress) := by
  unfold SeekingReader.read at polled
  by_cases remains : 0 < reader.buf.len
  · left
    simp only [remains, if_true, Option.bind_eq_bind,
      Option.bind_eq_some_iff] at polled
    obtain ⟨⟨bytes, buf⟩, copied, same⟩ := polled
    cases same
    obtain ⟨-, rfl, dropped⟩ := Buffer.copyToSlice_eq_some copied
    have length : (reader.buf.bytes.take (min reader.buf.len size)).length =
        min reader.buf.len size := by
      rw [List.length_take, Buffer.length_bytes]
      omega
    refine ⟨_, buf, ?_, ?_, ?_, rfl⟩
    · intro nothing
      have zero := length.symm.trans (congrArg List.length nothing)
      rw [List.length_nil] at zero
      omega
    · rw [dropped, List.take_append_drop]
    · rw [length]
  · right
    rw [if_neg remains] at polled
    exact ⟨remains, polled⟩

end SeekingReader

namespace ReadToEnd

variable [Read R] [BufferSource R S] {cursor : Cursor R} {start stop : Nat}
  {laws : FallibleLaws S cursor stop} {state later : ReadToEnd R S}

structure Sound (laws : FallibleLaws S cursor stop) (start : Nat)
    (state : ReadToEnd R S) : Prop where
  unpanicked : state.panicked = false
  counted : state.bytes.length = state.reader.pos
  right : cursor.piece start (state.bytes ++ state.reader.buf.bytes)
  stands : state.result = none →
    laws.stands (start + state.reader.pos + state.reader.buf.len)
      state.reader.source
  ended : state.result = some (.ok ()) →
    state.reader.buf.bytes = [] ∧ start + state.reader.pos = stop

/-- How many rounds there are at most. -/
def measure (laws : FallibleLaws S cursor stop) (start : Nat)
    (state : ReadToEnd R S) : Nat :=
  if state.result.isSome then 0
  else 1 + laws.weight state.reader.source +
    2 * (stop - (start + state.reader.pos)) -
    if 0 < state.reader.buf.len then 1 else 0

omit [Read R] in
theorem step_cases {event : ReadToEndEvent (BufferSource.Background S)}
    (stepped : state.step event = some later) :
    state.result = none ∧
      ((∃ size fuel positive answer, event = .read size fuel positive ∧
          state.reader.read size fuel = some answer ∧
          later = state.round answer) ∨
        ∃ moved source, event = .background moved ∧
          BufferSource.background state.reader.source moved = some source ∧
          later = { state with reader := { state.reader with source } }) := by
  unfold step at stepped
  split at stepped
  · cases stepped
  · rename_i going
    have running : state.result = none := by
      cases result : state.result with
      | none => rfl
      | some result => simp [result] at going
    refine ⟨running, ?_⟩
    cases event with
    | read size fuel positive =>
        obtain ⟨answer, polled, same⟩ := Option.map_eq_some_iff.mp stepped
        exact .inl ⟨size, fuel, positive, answer, rfl, polled, same.symm⟩
    | background moved =>
        obtain ⟨source, moves, same⟩ := Option.bind_eq_some_iff.mp stepped
        cases same
        exact .inr ⟨moved, source, rfl, moves, rfl⟩

theorem Sound.refill {reader : SeekingReader R S}
    {progress : Progress Unit (Except IoError Bytes)}
    (sound : state.Sound laws start) (running : state.result = none)
    (empty : ¬ 0 < state.reader.buf.len)
    (refilled : state.reader.refill = some (reader, progress)) :
    (state.round (reader, progress)).Sound laws start ∧
      measure laws start (state.round (reader, progress)) <
        measure laws start state := by
  have stands := sound.stands running
  have nothing := Buffer.bytes_eq_nil empty
  have right := sound.right
  have zero : state.reader.buf.len = 0 := by omega
  rw [nothing, List.append_nil] at right
  rw [zero, Nat.add_zero] at stands
  have before : measure laws start state =
      1 + laws.weight state.reader.source +
        2 * (stop - (start + state.reader.pos)) := by
    simp [measure, running, empty]
  simp only [SeekingReader.refill, Option.bind_eq_bind,
    Option.bind_eq_some_iff] at refilled
  obtain ⟨⟨source, asked⟩, polled, same⟩ := refilled
  obtain ⟨lowered, bounded⟩ := laws.next_weight stands polled
  cases laws.next stands polled with
  | suspended kept =>
      cases same
      constructor
      · exact
          { sound with
            stands := fun _ => by simpa [round, zero] using kept
            ended := sound.ended }
      · have lighter := lowered rfl
        rw [before]
        simp only [measure, round, running, Option.isSome_none,
          Bool.false_eq_true, empty, if_false]
        omega
  | @piece buf nonempty piece moved =>
      cases same
      rw [← sound.counted] at piece
      have positive := Buffer.len_pos nonempty
      have lighter := bounded buf rfl
      constructor
      · exact
          { sound with
            right := cursor.piece_append right piece
            stands := fun _ => moved
            ended := fun ended => by
              rw [show (state.round _).result = state.result from rfl,
                running] at ended
              cases ended }
      · rw [before]
        simp only [measure, round, running, Option.isSome_none,
          Bool.false_eq_true, positive, if_true, if_false]
        omega
  | ended finished =>
      cases same
      constructor
      · exact
          { sound with
            stands := fun still => by cases still
            ended := fun _ => ⟨nothing, finished⟩ }
      · rw [before]
        simp only [measure, round, List.isEmpty_nil, if_true,
          Option.isSome_some]
        omega
  | failed =>
      cases same
      constructor
      · exact
          { sound with
            stands := fun still => by cases still
            ended := fun ended => by cases ended }
      · rw [before]
        simp only [measure, round, Option.isSome_some, if_true]
        omega

theorem Sound.take {bytes : Bytes} {buf : Buffer}
    (sound : state.Sound laws start) (running : state.result = none)
    (nonempty : bytes ≠ [])
    (split : bytes ++ buf.bytes = state.reader.buf.bytes) :
    Sound laws start
        { state with
          reader := { state.reader with
            buf, pos := state.reader.pos + bytes.length }
          bytes := state.bytes ++ bytes } ∧
      measure laws start
        { state with
          reader := { state.reader with
            buf, pos := state.reader.pos + bytes.length }
          bytes := state.bytes ++ bytes } < measure laws start state := by
  have stands := sound.stands running
  have length := congrArg List.length split
  rw [List.length_append, Buffer.length_bytes, Buffer.length_bytes] at length
  have positive := List.length_pos_iff.mpr nonempty
  have inside := laws.inside stands
  have behind : start + (state.reader.pos + bytes.length) + buf.len =
      start + state.reader.pos + state.reader.buf.len := by omega
  constructor
  · exact
      { sound with
        counted := by
          rw [List.length_append, sound.counted]
        right := by
          rw [List.append_assoc, split]
          exact sound.right
        stands := fun _ => by
          simp only [behind]
          exact stands
        ended := fun ended => by
          rw [running] at ended
          cases ended }
  · have remains : 0 < state.reader.buf.len := by omega
    simp only [measure, running, Option.isSome_none, Bool.false_eq_true,
      remains, if_true, if_false]
    omega

theorem Sound.step {event : ReadToEndEvent (BufferSource.Background S)}
    (sound : state.Sound laws start)
    (stepped : state.step event = some later) :
    later.Sound laws start ∧
      measure laws start later < measure laws start state := by
  obtain ⟨running, ⟨size, fuel, positive, ⟨reader, progress⟩, -, polled, rfl⟩ |
    ⟨moved, source, -, moves, rfl⟩⟩ := step_cases stepped
  · rcases SeekingReader.read_cases positive polled with
      ⟨bytes, buf, nonempty, split, rfl, rfl⟩ | ⟨empty, refilled⟩
    · have notEmpty : bytes.isEmpty = false := by
        cases bytes with
        | nil => exact absurd rfl nonempty
        | cons byte bytes => rfl
      simp only [round, notEmpty, Bool.false_eq_true, if_false]
      exact sound.take running nonempty split
    · exact sound.refill running empty refilled
  · have stands := sound.stands running
    have lighter := laws.background_weight stands moves
    constructor
    · exact { sound with stands := fun _ => laws.background stands moves }
    · simp only [measure, running, Option.isSome_none, Bool.false_eq_true,
        if_false]
      split
      · omega
      · omega

theorem Sound.continues (sound : state.Sound laws start)
    (running : state.result = none) {size : Nat} (positive : 0 < size)
    (dense : state.reader.buf.Dense (min state.reader.buf.len size)) :
    (∃ fuel, (state.step (.read size fuel positive)).isSome = true) ∨
      ∃ event, (state.step (.background event)).isSome = true := by
  have going : (state.result.isSome || state.panicked) = false := by
    simp [running, sound.unpanicked]
  by_cases remains : 0 < state.reader.buf.len
  · left
    obtain ⟨answer, copied⟩ := Option.isSome_iff_exists.mp
      (Buffer.copyToSlice_isSome (Nat.min_le_left _ _) dense
        (Nat.lt_succ_self _))
    refine ⟨min state.reader.buf.len size + 1, ?_⟩
    simp [ReadToEnd.step, going, SeekingReader.read, remains, copied]
  · rcases laws.progress (sound.stands running) with
      resumes | ⟨event, moves⟩
    · left
      obtain ⟨⟨source, progress⟩, polled⟩ :=
        Option.isSome_iff_exists.mp resumes
      have refills : state.reader.refill.isSome = true := by
        simp only [SeekingReader.refill, polled, Option.bind_eq_bind,
          Option.bind_some]
        cases progress with
        | suspended _ => rfl
        | panicked message => rfl
        | returned result =>
            cases result with
            | none => rfl
            | some result => cases result <;> rfl
      refine ⟨0, ?_⟩
      simpa [ReadToEnd.step, going, SeekingReader.read, remains] using refills
    · right
      obtain ⟨source, moved⟩ := Option.isSome_iff_exists.mp moves
      exact ⟨event, by simp [ReadToEnd.step, going, moved]⟩

end ReadToEnd

/-- A new adapter delivers what is right at the start of its range. -/
theorem SeekingReader.delivers [Read R] [BufferSource R S]
    {cursor : Cursor R} {start stop : Nat} {bytes : Bytes}
    (laws : FallibleLaws S cursor stop) {reader : SeekingReader R S}
    (fresh : reader.buf = Buffer.new) (origin : reader.pos = 0)
    (stands : laws.stands start reader.source)
    (whole : ∀ {others}, cursor.piece start others →
      start + others.length = stop → others = bytes) :
    reader.Delivers bytes := by
  have initially : (ReadToEnd.new reader).Sound laws start :=
    { unpanicked := rfl
      counted := origin.symm
      right := by
        simp only [ReadToEnd.new, fresh]
        exact cursor.piece_nil start
      stands := fun _ => by
        simp only [ReadToEnd.new, fresh, origin]
        exact stands
      ended := fun ended => by cases ended }
  have sound : ∀ {events state},
      Automaton.run ReadToEnd.step (.new reader) events = some state →
      state.Sound laws start :=
    fun ran => Automaton.run_invariant_of_forall
      (fun sound stepped => (sound.step stepped).1) initially ran
  constructor
  · refine ⟨ReadToEnd.measure laws start (.new reader), ?_⟩
    intro events state ran
    have kept : ∀ {state event next}, ReadToEnd.Sound laws start state →
        True → ReadToEnd.step state event = some next →
        next.Sound laws start :=
      fun sound _ stepped => (sound.step stepped).1
    exact Automaton.run_length_le _ kept
      (fun sound _ stepped => (sound.step stepped).2) initially
      (fun _ _ => trivial) ran
  · intro events state ran running size positive dense
    exact (sound ran).continues running positive dense
  · intro events state ran
    exact (sound ran).unpanicked
  · intro events state ran finished
    obtain ⟨nothing, reaches⟩ := (sound ran).ended finished
    have right := (sound ran).right
    rw [nothing, List.append_nil] at right
    apply whole right
    rw [(sound ran).counted]
    exact reaches

/-! ## The two sources -/

variable [Read R] {cursor : Cursor R} {ctx : ReadContext R} {stop : Nat}

/-- A stream whose readers come to their ends. -/
def BufferStream.fallibleLaws {fails : Chunk → R → Error → Prop}
    (finite : cursor.Finite) (opens : cursor.Opens ctx stop)
    (failure : ∀ fuel task, ChunkedReader.TasksFail cursor fails fuel task) :
    FallibleLaws (BufferStream R) cursor stop where
  stands := fun position stream => stream.Fits cursor fails ctx stop position
  weight := weight
  inside := fun fits => fits.position_le finite
  next := by
    intro position stream later progress fits polled
    cases fits.pollNext opens polled with
    | suspended kept => exact .suspended kept
    | piece nonempty right moved => exact .piece nonempty right moved
    | ended finished => exact .ended finished
    | failed _ => exact .failed
  background := by
    intro position stream later event fits moved
    cases event with
    | finish place fuel => exact fits.finish (failure fuel) moved
    | finishAwaited fuel => exact fits.finishAwaited (failure fuel) moved
  next_weight := fun fits polled => fits.pollNext_weight polled
  background_weight := by
    intro position stream later event _ moved
    cases event with
    | finish place fuel => exact finish_weight moved
    | finishAwaited fuel => exact finishAwaited_weight moved
  progress := by
    intro position stream fits
    rcases fits.progress finite with
      resumes | ⟨place, fuel, ends⟩ | ⟨fuel, ends⟩
    · exact .inl resumes
    · exact .inr ⟨.finish place fuel, ends⟩
    · exact .inr ⟨.finishAwaited fuel, ends⟩

def BufferIterator.fallibleLaws (finite : cursor.Finite)
    (opens : cursor.Opens ctx stop) :
    FallibleLaws (BufferIterator R) cursor stop where
  stands := fun position iter =>
    iter.inner.toStreaming.Stands cursor ctx stop position
  weight := fun iter => iter.inner.toStreaming.weight
  inside := fun stands => stands.position_le finite
  next := by
    intro position iter later progress stands polled
    simp only [BufferSource.next, Option.some.injEq] at polled
    cases nextRound_outcome opens stands polled with
    | suspended kept => exact .suspended kept
    | piece nonempty right moved => exact .piece nonempty right moved
    | ended finished _ => exact .ended finished
    | failed _ => exact .failed
  background := by
    intro position iter later event
    cases event
  next_weight := fun stands polled => next_weight stands.ends polled
  background_weight := by
    intro position iter later event
    cases event
  progress := fun _ => .inl rfl

end OpenDal
