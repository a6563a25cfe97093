import OpenDal.Layers.Retry
import OpenDal.Types.ReadTiling
import OpenDal.Types.StdReads

/-!
# `read_to_end` over a failing service

A generator moves on before it sends a request, and `read_to_end` goes on after
an error of the kind `Interrupted`.  So a request that is refused is neither
repeated nor reported: the bytes of its range are left out.

The invariant is the outcome itself: what has been read, with the outcome of
what is left, stays the same from round to round.
-/

namespace OpenDal

variable {R : Type}

/-- The requests that a generator still makes, up to `fuel` of them. -/
def ReadGenerator.requests : Nat → ReadGenerator R → List BytesRange
  | 0, _ => []
  | fuel + 1, generator =>
      match generator.nextRange with
      | (none, _) => []
      | (some range, later) => range :: requests fuel later

theorem ReadGenerator.exists_nextRange {generator : ReadGenerator R}
    {remaining : Nat} (known : generator.size = some remaining)
    (positive : 0 < remaining) :
    ∃ range later size, generator.nextRange = (some range, later) ∧
      later.ctx = generator.ctx ∧ later.size = some (remaining - size) ∧
      0 < size ∧ size ≤ remaining ∧
      ∀ content, (range.select content).length ≤ size := by
  obtain ⟨some, short⟩ := generator.readSize_spec positive
  exact ⟨_, _, generator.readSize remaining, nextRange_inside known positive,
    rfl, rfl, some, short, fun content => List.length_take_le _ _⟩

/-- An outcome behind bytes that have been delivered. -/
def prepend {ε : Type} (front : Bytes) (outcome : Except ε Bytes) :
    Except ε Bytes :=
  outcome.map (front ++ ·)

@[simp] theorem prepend_nil {ε : Type} (outcome : Except ε Bytes) :
    prepend [] outcome = outcome := by
  cases outcome <;> rfl

@[simp] theorem prepend_prepend {ε : Type} (first second : Bytes)
    (outcome : Except ε Bytes) :
    prepend first (prepend second outcome) =
      prepend (first ++ second) outcome := by
  cases outcome <;> simp [prepend, Except.map]

variable [Read R] {ctx : ReadContext R} {content : Bytes}

namespace StdReader

/-- What `read_to_end` makes of these requests. -/
def outcomeOf (ctx : ReadContext R) (content : Bytes) :
    List BytesRange → Except IoError Bytes
  | [] => .ok []
  | range :: ranges =>
      match ctx.acc.read ctx.path (ctx.args.withRange range) with
      | .ok _ =>
          prepend (range.select content) (outcomeOf ctx content ranges)
      | .error err =>
          if (IoError.formatStdIoError err).kind = .interrupted then
            outcomeOf ctx content ranges
          else
            .error (.formatStdIoError err)

/-- A request that is not refused is answered with its range. -/
def Answers (ctx : ReadContext R) (content : Bytes) : Prop :=
  ∀ range r, ctx.acc.read ctx.path (ctx.args.withRange range) = .ok r →
    Read.Yields r (range.select content)

end StdReader

/-! ## Rounds -/

namespace IteratingReader

/-- The reader that is open delivers `current` and ends. -/
def Delivers (reader : Option R) (current : Bytes) : Prop :=
  match reader with
  | none => current = []
  | some r => Read.Yields r current

/-- The outcome of what is left; `bound` bounds the rounds. -/
def Rests (ctx : ReadContext R) (content : Bytes) (bound : Nat)
    (self : IteratingReader R) (outcome : Except IoError Bytes) : Prop :=
  ∃ current fuel remaining, self.generator.ctx = ctx ∧
    self.generator.size = some remaining ∧ remaining ≤ fuel ∧
    Delivers self.reader current ∧
    outcome = prepend current
      (StdReader.outcomeOf ctx content (self.generator.requests fuel)) ∧
    8 * remaining + 4 * current.length +
      (if self.reader.isSome then 1 else 0) ≤ bound

/-- What a round can come to. -/
inductive Rounds (ctx : ReadContext R) (content : Bytes) (bound : Nat)
    (outcome : Except IoError Bytes) (later : IteratingReader R) :
    Progress Unit (Except Error Buffer) → Prop where
  | suspended (less : Nat) (lower : less < bound)
      (rests : later.Rests ctx content less outcome) :
      Rounds ctx content bound outcome later (.suspended ())
  | piece (less : Nat) (rest : Except IoError Bytes) {buf : Buffer}
      (nonempty : buf.bytes ≠ []) (split : outcome = prepend buf.bytes rest)
      (lower : less + 4 * buf.len ≤ bound)
      (rests : later.Rests ctx content less rest) :
      Rounds ctx content bound outcome later (.returned (.ok buf))
  | ended {buf : Buffer} (empty : buf.bytes = [])
      (nothing : outcome = .ok []) :
      Rounds ctx content bound outcome later (.returned (.ok buf))
  | skipped (less : Nat) {err : Error}
      (interrupted : (IoError.formatStdIoError err).kind = .interrupted)
      (lower : less < bound) (rests : later.Rests ctx content less outcome) :
      Rounds ctx content bound outcome later (.returned (.error err))
  | failed {err : Error}
      (reported : (IoError.formatStdIoError err).kind ≠ .interrupted)
      (same : outcome = .error (.formatStdIoError err)) :
      Rounds ctx content bound outcome later (.returned (.error err))

theorem rounds_readFrom {self : IteratingReader R} {r : R} {current : Bytes}
    {fuel remaining bound : Nat} {outcome : Except IoError Bytes}
    (same : self.generator.ctx = ctx)
    (known : self.generator.size = some remaining) (enough : remaining ≤ fuel)
    (yields : Read.Yields r current)
    (split : outcome = prepend current
      (StdReader.outcomeOf ctx content (self.generator.requests fuel)))
    (bounded : 8 * remaining + 4 * current.length + 1 ≤ bound) :
    Rounds ctx content bound outcome (self.readFrom r).1
      (self.readFrom r).2 := by
  obtain ⟨buf, later, answered⟩ := yields.exists_read
  simp only [readFrom, answered]
  by_cases empty : buf.bytes = []
  · have isEmpty : buf.isEmpty = true := (Buffer.isEmpty_iff buf).mpr empty
    have none := yields.of_empty answered empty
    subst none
    rw [if_pos isEmpty]
    refine .suspended (8 * remaining) (by omega)
      ⟨[], fuel, remaining, same, known, enough, rfl, split, by simp⟩
  · have notEmpty := Buffer.isEmpty_eq_false empty
    obtain ⟨rest, rfl, yieldsLater⟩ := yields.of_nonempty answered empty
    rw [if_neg (by simp [notEmpty])]
    rw [List.length_append, Buffer.length_bytes] at bounded
    refine .piece (8 * remaining + 4 * rest.length + 1)
      (prepend rest
        (StdReader.outcomeOf ctx content (self.generator.requests fuel)))
      empty (by rw [prepend_prepend, split]) (by omega)
      ⟨rest, fuel, remaining, same, known, enough, yieldsLater, rfl, by simp⟩

theorem Rests.rounds {self : IteratingReader R} {bound : Nat}
    {outcome : Except IoError Bytes} (answers : StdReader.Answers ctx content)
    (rests : self.Rests ctx content bound outcome) :
    Rounds ctx content bound outcome self.readRound.1 self.readRound.2 := by
  obtain ⟨current, fuel, remaining, same, known, enough, delivers, split,
    bounded⟩ := rests
  subst same
  cases opened : self.reader with
  | some r =>
      rw [opened] at delivers bounded
      simp only [readRound, opened]
      exact rounds_readFrom rfl known enough delivers split bounded
  | none =>
      rw [opened] at delivers bounded
      cases delivers
      simp only [readRound, opened, ReadGenerator.nextBlockingReader,
        ReadGenerator.nextReader]
      by_cases finished : remaining = 0
      · subst finished
        have ended := ReadGenerator.nextRange_end known
        have nothing : self.generator.requests fuel = [] := by
          cases fuel with
          | zero => rfl
          | succ fuel => simp [ReadGenerator.requests, ended]
        simp only [ended]
        exact .ended rfl (by simpa [nothing, StdReader.outcomeOf] using split)
      · have positive : 0 < remaining := Nat.pos_of_ne_zero finished
        obtain ⟨fuel, rfl⟩ : ∃ left, fuel = left + 1 :=
          Nat.exists_eq_succ_of_ne_zero (by omega)
        obtain ⟨range, later, size, next, same, left, some, short, fits⟩ :=
          ReadGenerator.exists_nextRange known positive
        simp only [ReadGenerator.requests, next, StdReader.outcomeOf,
          prepend_nil] at split
        simp only [next, ReadGenerator.openRange, same]
        split at split
        · rename_i r found
          have yields := answers range r found
          have length := fits content
          simp only [found, Except.map]
          exact rounds_readFrom same left (by omega) yields split (by omega)
        · rename_i err found
          have rests : Rests self.generator.ctx content (8 * (remaining - size))
              ⟨later, Option.none⟩
              (StdReader.outcomeOf self.generator.ctx content
                (later.requests fuel)) :=
            ⟨[], fuel, _, same, left, by omega, rfl, by simp, by simp⟩
          simp only [found, Except.map]
          split at split
          · rename_i interrupted
            rw [← split] at rests
            exact .skipped _ interrupted (by omega) rests
          · rename_i reported
            exact .failed reported split

end IteratingReader

/-! ## The call -/

namespace StdReader

/-- The outcome of a call that has come so far. -/
def Owes (ctx : ReadContext R) (content : Bytes)
    (outcome : Except IoError Bytes) (bound : Nat) (state : ReadingToEnd R) :
    Prop :=
  state.reader.buf.Solid ∧ ∃ less rest,
    state.reader.source.inner.Rests ctx content less rest ∧
    outcome = prepend (state.bytes ++ state.reader.buf.bytes) rest ∧
    less + 4 * state.reader.buf.len +
      (if state.reader.buf.len = 0 then 1 else 0) ≤ bound

variable {outcome : Except IoError Bytes} {bound : Nat}
  {state : ReadingToEnd R} {space : Nat → Nat}

/-- A round that finds bytes in the window takes some of them. -/
theorem Owes.take (owes : Owes ctx content outcome bound state)
    (roomy : ∀ length, 0 < space length) (remains : 0 < state.reader.buf.len) :
    ∃ less next, less < bound ∧
      readToEndRound space state = some (.inl next) ∧
      Owes ctx content outcome less next := by
  obtain ⟨solid, less, rest, rests, split, bounded⟩ := owes
  have room := roomy state.bytes.length
  have enough : min state.reader.buf.len (space state.bytes.length) <
      space state.bytes.length + 1 := by omega
  obtain ⟨⟨bytes, buf⟩, copied⟩ := Option.isSome_iff_exists.mp
    (Buffer.copyToSlice_isSome (Nat.min_le_left _ _) (solid.dense _) enough)
  obtain ⟨_, front, dropped⟩ := Buffer.copyToSlice_eq_some copied
  have whole : state.reader.buf.bytes = bytes ++ buf.bytes := by
    rw [front, dropped, List.take_append_drop]
  have total := congrArg List.length whole
  rw [List.length_append, Buffer.length_bytes, Buffer.length_bytes] at total
  have length : bytes.length =
      min state.reader.buf.len (space state.bytes.length) := by
    rw [front, List.length_take, Buffer.length_bytes]
    omega
  have filled : bytes.isEmpty = false := by
    rw [List.isEmpty_eq_false_iff, ← List.length_pos_iff]
    omega
  refine ⟨less + 4 * buf.len + (if buf.len = 0 then 1 else 0),
    ⟨{ state.reader with
      buf
      pos := state.reader.pos +
        min state.reader.buf.len (space state.bytes.length) },
      state.bytes ++ bytes⟩, ?_, ?_, solid.copyToSlice copied, less, rest,
    rests, ?_, Nat.le_refl _⟩
  · split at bounded <;> split <;> omega
  · simp [readToEndRound, SeekingReader.read, remains, copied, filled]
  · rw [split, whole, List.append_assoc]

theorem Owes.ask (returns : Read.ReturnsSolid R)
    (answers : Answers ctx content)
    (owes : Owes ctx content outcome bound state)
    (empty : ¬ 0 < state.reader.buf.len) :
    (∃ less next, less < bound ∧
        readToEndRound space state = some (.inl next) ∧
        Owes ctx content outcome less next) ∨
      ∃ answer, readToEndRound space state = some (.inr answer) ∧
        answer.1 = outcome := by
  obtain ⟨solid, less, rest, rests, split, bounded⟩ := owes
  have none : state.reader.buf.len = 0 := by omega
  have nothing : state.reader.buf.bytes = [] := by
    rw [← List.length_eq_zero_iff, Buffer.length_bytes, none]
  rw [nothing, List.append_nil] at split
  rw [none, if_pos rfl] at bounded
  have rounds := rests.rounds answers
  have returned : ∀ {buf}, state.reader.source.inner.readRound.2 =
      .returned (.ok buf) → buf.Solid := fun same =>
    IteratingReader.readRound_solid returns
      (show _ = (state.reader.source.inner.readRound.1, _) by rw [← same])
  simp only [readToEndRound, SeekingReader.read, empty, if_false,
    SeekingReader.refill, BufferSource.next, BufferIterator.nextRound,
    Option.bind_eq_bind, Option.bind_some]
  generalize state.reader.source.inner.readRound = round at rounds returned
  obtain ⟨inner, progress⟩ := round
  cases rounds with
  | suspended lighter lower restsLater =>
      refine .inl ⟨lighter + 1, _, by omega, rfl, solid, lighter, rest,
        restsLater, ?_, ?_⟩
      · simp only [nothing, List.append_nil]
        exact split
      · simp [none]
  | @piece lighter behind buf nonempty same lower restsLater =>
      have filled := Buffer.isEmpty_eq_false nonempty
      have some : buf.len ≠ 0 := by
        rw [← Buffer.length_bytes]
        exact fun zero => nonempty (List.length_eq_zero_iff.mp zero)
      simp only [filled]
      refine .inl ⟨less, _, by omega, rfl, returned rfl, lighter, behind,
        restsLater, ?_, ?_⟩
      · rw [split, same, prepend_prepend]
      · simp only [some, if_false]
        omega
  | @ended buf isNil same =>
      have drained := (Buffer.isEmpty_iff buf).mpr isNil
      simp only [drained]
      refine .inr ⟨_, rfl, ?_⟩
      rw [split, same]
      simp [prepend, Except.map]
  | @skipped lighter err interrupted lower restsLater =>
      simp only [interrupted]
      refine .inl ⟨lighter + 1, _, by omega, rfl, solid, lighter, rest,
        restsLater, ?_, ?_⟩
      · simp only [nothing, List.append_nil]
        exact split
      · simp [none]
  | @failed err reported same =>
      simp only [reported, if_false]
      refine .inr ⟨_, rfl, ?_⟩
      rw [split, same]
      rfl

/-- `read_to_end` never fails for an error that `format_std_io_error` takes for
an interruption.  It returns the bytes of the ranges that the service has
answered, in order and without those it has refused, up to the first refusal
that counts as one. -/
theorem readToEnd_outcome (returns : Read.ReturnsSolid R)
    (answers : Answers ctx content) {start stop : Nat}
    (ordered : start ≤ stop) (roomy : ∀ length, 0 < space length) :
    ∃ reader : StdReader R, SeekingReader.new ctx start stop = some reader ∧
      (∃ fuel answer, reader.readToEnd space fuel = some answer) ∧
      ∀ fuel answer, reader.readToEnd space fuel = some answer →
        answer.1 = outcomeOf ctx content
          ((ReadGenerator.new ctx start (some (stop - start))).requests
            (stop - start)) := by
  have size : stop - start + start = stop := Nat.sub_add_cancel ordered
  have range : BytesRange.fromBounds ⟨.included start, .excluded stop⟩ =
      some ⟨start, some (stop - start)⟩ := by
    have exclusive := BytesRange.fromBounds_exclusive start (stop - start)
    rw [Nat.add_comm start, size] at exclusive
    exact exclusive
  let iter : BufferIterator R := ⟨.new ctx ⟨start, some (stop - start)⟩⟩
  let reader : StdReader R :=
    { ctx
      source := iter
      buf := Buffer.new
      start
      stop
      pos := 0 }
  have rests : iter.inner.Rests ctx content (8 * (stop - start))
      (outcomeOf ctx content (iter.inner.generator.requests (stop - start))) :=
    ⟨[], stop - start, stop - start, rfl, rfl, Nat.le_refl _, rfl, by simp,
      by simp [iter, IteratingReader.new]⟩
  have owes : Owes ctx content
      (outcomeOf ctx content (iter.inner.generator.requests (stop - start)))
      (8 * (stop - start) + 1) ⟨reader, []⟩ :=
    ⟨Buffer.solid_new, _, _, rests, by simp [reader], by
      show 8 * (stop - start) + 4 * 0 + 1 ≤ 8 * (stop - start) + 1
      omega⟩
  refine ⟨reader, ?_, Loop.returns_of_bound ?_ owes⟩
  · simp [SeekingReader.new, BufferSource.rebuild, BufferIterator.new, range,
      reader, iter]
  · intro bound state owes
    by_cases remains : 0 < state.reader.buf.len
    · exact .inl (owes.take roomy remains)
    · exact owes.ask returns answers remains

end StdReader

/-- `BlockingRead` of `Bytes`: everything at once. -/
structure BytesReader where
  bytes : Bytes

instance : Read BytesReader where
  read := fun self => (.ok (.fromBytes self.bytes), ⟨[]⟩)

theorem BytesReader.returnsSolid : Read.ReturnsSolid BytesReader := by
  intro r later buf answered
  cases answered
  exact trivial

theorem BytesReader.yields (bytes : Bytes) :
    Read.Yields (⟨bytes⟩ : BytesReader) bytes := by
  have last : Read.Yields (⟨[]⟩ : BytesReader) [] := .done rfl rfl
  by_cases empty : bytes = []
  · rw [empty]
    exact last
  · have more : Read.Yields (⟨bytes⟩ : BytesReader)
        ((Buffer.fromBytes bytes).bytes ++ []) :=
      .more rfl (by simpa using empty) last
    simpa using more

/-- The service refuses the requests that begin at one of these offsets. -/
def decliningAccessor (content : Bytes) (refused : List (Nat × Error)) :
    Accessor BytesReader where
  read := fun _ args =>
    match refused.lookup args.range.offset with
    | some err => .error err
    | none => .ok ⟨args.range.select content⟩
  stat := fun _ _ => .ok content.length

/-- Chunks of two bytes.  The second request meets a rate limit, or the file is
gone by then. -/
def decliningContext (err : Error) : ReadContext BytesReader :=
  .new (decliningAccessor [1, 2, 3, 4, 5, 6] [(2, err)]) "file"
    ⟨⟨0, none⟩, none⟩ (OpReader.new.withChunk 2)

theorem StdReader.readToEnd_outcome_refused :
    (∃ reader : StdReader BytesReader,
      SeekingReader.new (decliningContext (.new .rateLimited "slow down")) 0 6 =
          some reader ∧
        ∃ fuel answer, reader.readToEnd (fun _ => 32) fuel = some answer ∧
          answer.1 = .ok [1, 2, 5, 6]) ∧
      ∃ reader : StdReader BytesReader,
        SeekingReader.new (decliningContext (.new .notFound "gone")) 0 6 =
            some reader ∧
          ∃ fuel answer, reader.readToEnd (fun _ => 32) fuel = some answer ∧
            answer.1 = .error (.formatStdIoError (.new .notFound "gone")) := by
  have answers : ∀ err, StdReader.Answers (decliningContext err)
      [1, 2, 3, 4, 5, 6] := by
    intro err range r answered
    simp only [decliningContext, decliningAccessor, ReadContext.new,
      OpRead.withRange] at answered
    split at answered
    · cases answered
    · cases answered
      exact BytesReader.yields _
  have outcome : ∀ err, _ := fun err =>
    StdReader.readToEnd_outcome BytesReader.returnsSolid (answers err)
      (show 0 ≤ 6 by decide) (fun _ => show 0 < 32 by decide)
  obtain ⟨first, created, ⟨fuel, answer, returned⟩, sound⟩ :=
    outcome (.new .rateLimited "slow down")
  obtain ⟨second, opened, ⟨enough, last, ended⟩, reported⟩ :=
    outcome (.new .notFound "gone")
  exact ⟨⟨first, created, fuel, answer, returned, sound _ _ returned⟩,
    second, opened, enough, last, ended, reported _ _ ended⟩

end OpenDal
