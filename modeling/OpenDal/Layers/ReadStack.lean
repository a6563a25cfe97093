import OpenDal.Layers.CompleteReader
import OpenDal.Layers.ResumedRead
import OpenDal.Types.ContentRead

/-!
# Reading through the layers

A user's `RetryLayer` stands over the `CompleteLayer` that every operator has.
The complete layer turns a reader that ends too early into one that fails, so
the retrying reader only ever sees failures, and it resumes behind what it has
delivered.  Over that a stream reads the range, at once or in chunks.

What passes through all three is one relation: the bytes that a reader has
still to deliver.  A reader that owes its bytes cannot panic, so `SteadyReader`
carries the relation as a field and is a reader like any other.
-/

namespace OpenDal

/-! ## The complete layer over a service -/

/-- Assumptions about a service that holds `content` under `path`: no reader of
it returns a wrong byte.  Opening and reading may fail at any point.  A reader
of a range with a size may also end at any point, as one does whose connection
is closed; where no size is asked for, only the service knows the end. -/
structure HonestReads (A : Type) {R : Type} [Read R] [ReadAccess A R]
    (path : String) (content : Bytes) where
  /-- `reads sized r bytes`: what the reader is going to return begins
  `bytes`. -/
  reads : Bool → R → Bytes → Prop
  opened : ∀ {inner later : A} {args : OpRead} {r : R},
    args.range.Within content →
    ReadAccess.read inner path args = (.ok r, later) →
    reads args.range.size.isSome r (args.range.select content)
  more : ∀ {sized : Bool} {r later : R} {buf : Buffer} {bytes : Bytes},
    reads sized r bytes →
    Read.read r = (.ok buf, later) → buf.bytes ≠ [] →
    ∃ rest, bytes = buf.bytes ++ rest ∧ reads sized later rest
  last : ∀ {sized : Bool} {r later : R} {buf : Buffer} {bytes : Bytes},
    reads sized r bytes →
    Read.read r = (.ok buf, later) → buf.bytes = [] →
    (sized = false → bytes = []) ∧ reads sized later bytes

/-- `CompleteAccessor` over a service with state `A`. -/
structure CompleteAccess (A : Type) where
  inner : A

variable {A R : Type} [Read R] [ReadAccess A R] {path : String}
  {content : Bytes}

instance : ReadAccess (CompleteAccess A) (CompleteReader R) where
  read := fun self path args =>
    let size := args.range.size
    match ReadAccess.read self.inner path args with
    | (.error err, inner) => (.error err, ⟨inner⟩)
    | (.ok r, inner) => (.ok (.new r size), ⟨inner⟩)

namespace HonestReads

variable (service : HonestReads A path content)

/-- With a size the count is right: what is missing is what has not been
counted. -/
def Completes (r : CompleteReader R) (bytes : Bytes) : Prop :=
  service.reads r.size.isSome r.inner bytes ∧
    ∀ size, r.size = some size → r.read + bytes.length = size

variable {service} {r later : CompleteReader R} {bytes : Bytes} {buf : Buffer}

theorem Completes.more (completes : service.Completes r bytes)
    (answered : Read.read r = (.ok buf, later)) (nonempty : buf.bytes ≠ []) :
    ∃ rest, bytes = buf.bytes ++ rest ∧ service.Completes later rest := by
  obtain ⟨inner, size, read⟩ := r
  obtain ⟨reads, counted⟩ := completes
  rcases inside : Read.read inner with ⟨_ | piece, next⟩
  · simp [Read.read, inside] at answered
  · by_cases empty : piece.bytes = []
    · rw [CompleteReader.read_end inside empty] at answered
      cases checked : (CompleteReader.mk inner size read).check with
      | error err =>
          rw [checked] at answered
          cases answered
      | ok passed =>
          rw [checked] at answered
          cases answered
          exact absurd empty nonempty
    · rw [CompleteReader.read_piece inside empty] at answered
      cases answered
      obtain ⟨rest, split, readsRest⟩ := service.more reads inside empty
      refine ⟨rest, split, readsRest, ?_⟩
      intro expected known
      have total := counted expected known
      simp only [split, List.length_append, Buffer.length_bytes] at total ⊢
      omega

/-- A reader with a size passes the check only when nothing is missing. -/
theorem Completes.last (completes : service.Completes r bytes)
    (answered : Read.read r = (.ok buf, later)) (empty : buf.bytes = []) :
    bytes = [] ∧ service.Completes later [] := by
  obtain ⟨inner, size, read⟩ := r
  obtain ⟨reads, counted⟩ := completes
  rcases inside : Read.read inner with ⟨_ | piece, next⟩
  · simp [Read.read, inside] at answered
  · by_cases ended : piece.bytes = []
    · rw [CompleteReader.read_end inside ended] at answered
      cases checked : (CompleteReader.mk inner size read).check with
      | error err =>
          rw [checked] at answered
          cases answered
      | ok passed =>
          rw [checked] at answered
          cases answered
          obtain ⟨known, readsLater⟩ := service.last reads inside ended
          have nothing : bytes = [] := by
            cases size with
            | none => exact known rfl
            | some size =>
                have complete := CompleteReader.check_eq_ok rfl checked
                have total := counted size rfl
                simp only at complete total
                exact List.eq_nil_of_length_eq_zero (by omega)
          rw [nothing] at readsLater counted
          exact ⟨nothing, readsLater, counted⟩
    · rw [CompleteReader.read_piece inside ended] at answered
      cases answered
      exact absurd empty ended

variable (service)

/-- Behind the complete layer an honest service ends no reader too early. -/
def complete : FaultyReads (CompleteAccess A) path content where
  reads := service.Completes
  opened := by
    intro inner later args r within opened
    simp only [ReadAccess.read] at opened
    split at opened
    · cases opened
    · rename_i raw next answered
      cases opened
      refine ⟨service.opened within answered, ?_⟩
      intro size same
      have known : args.range.size = some size := same
      have fits : args.range.offset + size ≤ content.length := by
        simpa [BytesRange.Within, known] using within
      simp only [BytesRange.select, known, CompleteReader.new,
        List.length_take, List.length_drop]
      omega
  more := Completes.more
  last := Completes.last

end HonestReads

/-! ## The retry layer -/

namespace RetryWrapper

variable {B : Type} (service : FaultyReads A path content)

/-- The wrapper has not lost its reader, which has to deliver `rest`. -/
def Owes (rest : Bytes) (self : RetryWrapper (RetryReader A R) B) : Prop :=
  ∃ reader, self.inner = some reader ∧ reader.Owes service rest

variable [Backoff B]

theorem retryWith_error {T C : Type} {self later : RetryWrapper C B}
    {call : C → Option (Except Error T × C)} {err : Error} {inner : C}
    (held : self.inner = some inner)
    (failed : self.retryWith call = some (.error err, later)) :
    err.status = .persistent := by
  simp only [retryWith, takeInner, held, Option.map_eq_some_iff] at failed
  obtain ⟨⟨result, after⟩, _, same⟩ := failed
  cases result with
  | error cause =>
      cases same
      rfl
  | ok value => cases same

variable {service} {rest : Bytes} {self : RetryWrapper (RetryReader A R) B}

/-- A read does not panic; it fails for good and owes the same, or it delivers
the next bytes. -/
theorem Owes.read [LawfulBackoff B] (owes : self.Owes service rest) :
    (∃ err later, self.read = some (.error err, later) ∧
        err.status = .persistent ∧ later.Owes service rest) ∨
      ∃ buf later, self.read = some (.ok buf, later) ∧
        (buf.bytes = [] → rest = []) ∧
        ∃ tail, rest = buf.bytes ++ tail ∧ later.Owes service tail := by
  obtain ⟨reader, held, owes⟩ := owes
  rcases retryWith_attempts RetryReader.read_attempts ⟨reader, held, owes⟩ with
    ⟨err, later, failed, owesLater⟩ |
    ⟨buf, later, succeeded, last, heldLast, atEnd, tail, split, owesTail⟩
  · exact .inl ⟨err, later, failed, retryWith_error held failed, owesLater⟩
  · exact .inr ⟨buf, later, succeeded, atEnd, tail, split, last, heldLast,
      owesTail⟩

end RetryWrapper

/-- A reader of the retry layer that owes what is left of its range. -/
structure SteadyReader {A R : Type} [Read R] [ReadAccess A R] {path : String}
    {content : Bytes} (service : FaultyReads A path content) (B : Type) where
  wrapper : RetryWrapper (RetryReader A R) B
  steady : ∃ rest, wrapper.Owes service rest

namespace SteadyReader

variable {service : FaultyReads A path content} {B : Type} [Backoff B]
  [LawfulBackoff B] {rest : Bytes}

theorem steady_later {self : SteadyReader service B}
    {result : Except Error Buffer}
    {later : RetryWrapper (RetryReader A R) B}
    (answered : self.wrapper.read = some (result, later)) :
    ∃ rest, later.Owes service rest := by
  obtain ⟨rest, owes⟩ := self.steady
  rcases owes.read with ⟨err, after, failed, _, owesAfter⟩ |
    ⟨buf, after, succeeded, _, tail, _, owesTail⟩
  · cases failed.symm.trans answered
    exact ⟨rest, owesAfter⟩
  · cases succeeded.symm.trans answered
    exact ⟨tail, owesTail⟩

theorem unpanicked (self : SteadyReader service B) :
    self.wrapper.read ≠ none := by
  obtain ⟨rest, owes⟩ := self.steady
  rcases owes.read with ⟨_, _, failed, _⟩ | ⟨_, _, succeeded, _⟩
  · simp [failed]
  · simp [succeeded]

instance : Read (SteadyReader service B) where
  read := fun self =>
    match answered : self.wrapper.read with
    | some (result, later) => (result, ⟨later, steady_later answered⟩)
    | none => absurd answered self.unpanicked

theorem read_eq {self : SteadyReader service B} {result : Except Error Buffer}
    {later : RetryWrapper (RetryReader A R) B}
    (answered : self.wrapper.read = some (result, later)) :
    Read.read self = (result, ⟨later, steady_later answered⟩) := by
  simp only [Read.read]
  split
  · rename_i other after same
    cases answered.symm.trans same
    rfl
  · rename_i panicked
    exact absurd panicked self.unpanicked

/-- `rest` is what the reader has still to deliver. -/
def Reads (self : SteadyReader service B) (rest : Bytes) : Prop :=
  self.wrapper.Owes service rest

theorem Reads.read {self : SteadyReader service B} (reads : self.Reads rest) :
    (∃ err later, Read.read self = (.error err, later) ∧
        err.status = .persistent ∧ later.Reads rest) ∨
      ∃ buf later, Read.read self = (.ok buf, later) ∧
        (buf.bytes = [] → rest = []) ∧
        ∃ tail, rest = buf.bytes ++ tail ∧ later.Reads tail := by
  rcases RetryWrapper.Owes.read reads with
    ⟨err, later, failed, persistent, owes⟩ |
    ⟨buf, later, succeeded, atEnd, tail, split, owes⟩
  · exact .inl ⟨err, _, read_eq failed, persistent, owes⟩
  · exact .inr ⟨buf, _, read_eq succeeded, atEnd, tail, split, owes⟩

theorem Reads.more {self later : SteadyReader service B} {buf : Buffer}
    (reads : self.Reads rest) (answered : Read.read self = (.ok buf, later)) :
    ∃ tail, rest = buf.bytes ++ tail ∧ later.Reads tail := by
  rcases reads.read with ⟨_, _, failed, _⟩ |
    ⟨_, _, succeeded, _, tail, split, owes⟩
  · cases failed.symm.trans answered
  · cases succeeded.symm.trans answered
    exact ⟨tail, split, owes⟩

theorem Reads.last {self later : SteadyReader service B} {buf : Buffer}
    (reads : self.Reads rest) (answered : Read.read self = (.ok buf, later))
    (empty : buf.bytes = []) : rest = [] := by
  rcases reads.read with ⟨_, _, failed, _⟩ | ⟨_, _, succeeded, atEnd, _⟩
  · cases failed.symm.trans answered
  · cases succeeded.symm.trans answered
    exact atEnd empty

theorem Reads.persistent {self later : SteadyReader service B} {err : Error}
    (reads : self.Reads rest)
    (answered : Read.read self = (.error err, later)) :
    err.status = .persistent := by
  rcases reads.read with ⟨_, _, failed, persistent, _⟩ | ⟨_, _, succeeded, _⟩
  · cases failed.symm.trans answered
    exact persistent
  · cases succeeded.symm.trans answered

private theorem Reads.readAllLoop {self : SteadyReader service B}
    (reads : self.Reads rest) (bufs : List Buffer) :
    ∃ fuel later result,
      Read.readAllLoop fuel bufs self = some (later, result) := by
  induction length : rest.length using Nat.strongRecOn
    generalizing rest self bufs with
  | _ length' induction =>
    rcases reads.read with ⟨err, later, failed, _⟩ |
      ⟨buf, later, succeeded, _, tail, split, owes⟩
    · exact ⟨1, later, .error err, by simp [Read.readAllLoop, failed]⟩
    · by_cases empty : buf.isEmpty = true
      · exact ⟨1, later, .ok (Buffer.flatten bufs),
          by simp [Read.readAllLoop, succeeded, empty]⟩
      · have nonempty : buf.bytes ≠ [] := by
          intro none
          exact empty ((Buffer.isEmpty_iff buf).mpr none)
        have positive := List.length_pos_iff.mpr nonempty
        have shorter : tail.length < length' := by
          rw [← length, split, List.length_append]
          omega
        obtain ⟨fuel, last, result, finished⟩ :=
          induction tail.length shorter owes (bufs ++ [buf]) rfl
        refine ⟨fuel + 1, last, result, ?_⟩
        simp only [Read.readAllLoop, succeeded]
        rw [if_neg empty]
        exact finished

private theorem Reads.readAllLoop_error {fuel : Nat} {bufs : List Buffer}
    {self later : SteadyReader service B} {err : Error}
    (reads : self.Reads rest)
    (failed : Read.readAllLoop fuel bufs self = some (later, .error err)) :
    err.status = .persistent := by
  induction fuel generalizing rest self bufs with
  | zero => cases failed
  | succ fuel induction =>
      simp only [Read.readAllLoop] at failed
      split at failed
      · rename_i buf next answered
        split at failed
        · cases failed
        · obtain ⟨tail, _, readsTail⟩ := reads.more answered
          exact induction readsTail failed
      · rename_i cause next answered
        cases failed
        exact reads.persistent answered

/-- The reader stands where the part of the content begins that it owes. -/
def cursor (service : FaultyReads A path content) (B : Type) [Backoff B]
    [LawfulBackoff B] : Cursor (SteadyReader service B) :=
  .ofReaders content Reads (fun reads answered _ => reads.more answered)
    (fun reads answered empty => reads.last answered empty)

theorem cursor_finite : (cursor service B).Finite where
  inside := fun stands => stands.1
  ends := by
    intro stop position self stands
    exact stands.2.2.readAllLoop []

/-- Tasks fail for good. -/
def fails : Chunk → SteadyReader service B → Error → Prop :=
  fun _ _ err => err.status = .persistent

theorem tasksFail (fuel : Nat)
    (task : Option (Task (SteadyReader service B) Buffer)) :
    ChunkedReader.TasksFail (cursor service B) fails fuel task := by
  intro chunk self later err _ stands failed
  exact stands.2.2.readAllLoop_error failed

end SteadyReader

/-! ## The stack -/

theorem RetryAccessor.wrapper_owes (service : FaultyReads A path content)
    {B : Type} [Backoff B] [LawfulBackoff B] {inner later : A} {builder : B}
    {args : OpRead} {wrapper : RetryWrapper (RetryReader A R) B}
    (within : args.range.Within content)
    (opened : RetryAccessor.read inner builder path args =
      some (.ok wrapper, later)) :
    ∃ rest, wrapper.Owes service rest := by
  obtain ⟨⟨reader, rest, held, owes, _⟩, _⟩ :=
    ResumedRead.retryAccessor_read_resumes service within opened
  exact ⟨rest, reader, held, owes⟩

omit [Read R] in
theorem RetryAccessor.read_ne_none {B : Type} [Backoff B] [LawfulBackoff B]
    (inner : A) (builder : B) (path : String) (args : OpRead) :
    RetryAccessor.read inner builder path args ≠ none := by
  have attempts : ∀ {inner : A}, True →
      Attempts (some (ReadAccess.read inner path args)) (fun _ => True)
        (fun _ _ => True) := by
    intro inner _
    rcases ReadAccess.read inner path args with ⟨_ | r, later⟩
    · exact .inl ⟨_, _, rfl, trivial⟩
    · exact .inr ⟨_, _, rfl, trivial⟩
  have outcome : Attempts (Backoff.retry builder
        (fun inner => some (ReadAccess.read inner path args)) inner)
      (fun _ => True) (fun _ _ => True) :=
    retry_attempts attempts builder trivial
  rw [RetryAccessor.read, ne_eq, Option.map_eq_none_iff]
  rcases outcome with ⟨_, _, failed, _⟩ | ⟨_, _, succeeded, _⟩
  · rw [failed]
    exact nofun
  · rw [succeeded]
    exact nofun

/-- The accessor of the context is that of the retry layer over a service, as
far as it is asked for parts of the content.  One read requests every range at
most once, so `seed` is any pattern of failures. -/
structure ReadContext.Retries {service : FaultyReads A path content}
    {B : Type} [Backoff B] (ctx : ReadContext (SteadyReader service B))
    (seed : OpRead → A) (builder : B) : Prop where
  samePath : ctx.path = path
  opened : ∀ args, args.range.Within content →
    (RetryAccessor.read (seed args) builder path args).map Prod.fst =
      some ((ctx.acc.read path args).map SteadyReader.wrapper)

/-- The accessor of the retry layer, where it is asked for parts of the
content. -/
def RetryAccessor.steady (service : FaultyReads A path content) {B : Type}
    [Backoff B] [LawfulBackoff B] (seed : OpRead → A) (builder : B) :
    Accessor (SteadyReader service B) where
  read := fun _ args =>
    if within : args.range.Within content then
      match opened : RetryAccessor.read (seed args) builder path args with
      | some (.ok wrapper, _) =>
          .ok ⟨wrapper, wrapper_owes service within opened⟩
      | some (.error err, _) => .error err
      | none => .error (.new .unexpected "")
    else
      .error (.new .rangeNotSatisfied "")
  stat := fun _ _ => .ok content.length

/-- The result of a read of `bytes`. -/
def DeliversOrFails (bytes : Bytes) : Except Error Buffer → Prop
  | .ok buf => buf.bytes = bytes
  | .error err => err.status = .persistent

namespace ReadContext.Retries

variable {service : FaultyReads A path content} {B : Type} [Backoff B]
  [LawfulBackoff B] {ctx : ReadContext (SteadyReader service B)}
  {seed : OpRead → A} {builder : B} {args : OpRead}

theorem reads {reader : SteadyReader service B}
    (retries : ctx.Retries seed builder)
    (within : args.range.Within content)
    (answered : ctx.acc.read path args = .ok reader) :
    reader.Reads (args.range.select content) := by
  have same := retries.opened args within
  rw [answered, Option.map_eq_some_iff] at same
  obtain ⟨⟨result, later⟩, opened, equal⟩ := same
  cases equal
  obtain ⟨⟨inner, rest, held, owes, split⟩, _⟩ :=
    ResumedRead.retryAccessor_read_resumes service within opened
  have whole : args.range.select content = rest := split
  rw [whole]
  exact ⟨inner, held, owes⟩

omit [LawfulBackoff B] in
theorem persistent {err : Error} (retries : ctx.Retries seed builder)
    (within : args.range.Within content)
    (refused : ctx.acc.read path args = .error err) :
    err.status = .persistent := by
  have same := retries.opened args within
  rw [refused, Option.map_eq_some_iff] at same
  obtain ⟨outcome, opened, equal⟩ := same
  simp only [RetryAccessor.read, Option.map_eq_some_iff] at opened
  obtain ⟨⟨result, later⟩, _, produced⟩ := opened
  cases result with
  | error cause =>
      rw [← produced] at equal
      cases equal
      rfl
  | ok r =>
      rw [← produced] at equal
      cases equal

theorem opens {stop : Nat} (retries : ctx.Retries seed builder)
    (inside : stop ≤ content.length) :
    (SteadyReader.cursor service B).Opens ctx stop := by
  intro offset size reader _ fits answered
  rw [retries.samePath] at answered
  have within : (ctx.args.withRange ⟨offset, some size⟩).range.Within content :=
    Nat.le_trans fits inside
  have owed := retries.reads within answered
  refine ⟨by omega, by omega, ?_⟩
  rw [Nat.add_sub_cancel_left]
  exact owed

/-- A read ends in every schedule, and its result is what the content has
there, or an error after the last retry. -/
theorem settles {offset size : Nat} (retries : ctx.Retries seed builder)
    (inside : offset + size ≤ content.length) :
    (BufferStream.new ctx offset (some size)).Settles
      (DeliversOrFails ((content.drop offset).take size)) := by
  apply BufferStream.settles_new SteadyReader.cursor_finite
    (retries.opens inside) SteadyReader.tasksFail
  · intro err blamed
    cases blamed with
    | @unopened start length _ fits refused =>
        rw [retries.samePath] at refused
        exact retries.persistent (Nat.le_trans fits inside) refused
    | reader stands failed => exact stands.2.2.persistent failed
    | task failed => exact failed
  · intro buf right length
    have begins : buf.bytes <+: content.drop offset := right
    show buf.bytes = _
    rw [List.prefix_iff_eq_take.mp begins, Buffer.length_bytes, length]

end ReadContext.Retries

/-- Reading through the layers is never wrong.  The service may fail at any
point of any request and may end any reader too early; the range may be read at
once or in chunks of any size, by any number of tasks, in any order.  The read
comes to its end without a panic, and it returns the bytes of the range or an
error that has outlived its retries. -/
theorem Reader.read_delivers_or_fails {B : Type} [Backoff B] [LawfulBackoff B]
    (service : HonestReads A path content)
    {ctx : ReadContext (SteadyReader service.complete B)}
    {seed : OpRead → CompleteAccess A} {builder : B}
    (retries : ctx.Retries seed builder) {range : RangeBounds}
    {offset size : Nat} (known : BufferStream.SizeKnown ctx range offset size)
    (inside : offset + size ≤ content.length) :
    ∃ stream, BufferStream.create ctx range = some (.ok stream) ∧
      stream.Settles (DeliversOrFails ((content.drop offset).take size)) :=
  ⟨_, BufferStream.create_of_sizeKnown known, retries.settles inside⟩

theorem ReadContext.retries_steady (service : FaultyReads A path content)
    {B : Type} [Backoff B] [LawfulBackoff B] {seed : OpRead → A} {builder : B}
    {ctx : ReadContext (SteadyReader service B)} (samePath : ctx.path = path)
    (accessor : ctx.acc = RetryAccessor.steady service seed builder) :
    ctx.Retries seed builder where
  samePath := samePath
  opened := by
    intro args within
    rw [accessor, RetryAccessor.steady]
    simp only [dif_pos within]
    split
    · rename_i opened
      exact Option.map_eq_some_iff.mpr ⟨_, opened, rfl⟩
    · rename_i opened
      exact Option.map_eq_some_iff.mpr ⟨_, opened, rfl⟩
    · rename_i panicked
      exact absurd panicked
        (RetryAccessor.read_ne_none (seed args) builder path args)

/-! ## A service with mishaps -/

/-- What happens to a request: it is refused, or its reader fails or ends after
a number of buffers. -/
inductive Mishap where
  | refused
  | failing (count : Nat)
  | cut (count : Nat)

/-- The mishaps of the requests in their order; after the last one nothing
happens.  A connection is cut only where a size has been asked for. -/
structure UnsteadyService (content : Bytes) where
  mishaps : List Mishap

namespace UnsteadyService

variable {content : Bytes}

instance : ReadAccess (UnsteadyService content) ScriptedReader where
  read := fun self _ args =>
    let bytes := args.range.select content
    match self.mishaps with
    | [] => (.ok (.bytewise bytes), self)
    | .refused :: mishaps => (.error FlakyService.failure, ⟨mishaps⟩)
    | .failing count :: mishaps =>
        (.ok (FlakyService.failAfter count bytes), ⟨mishaps⟩)
    | .cut count :: mishaps =>
        let kept := if args.range.size.isSome then bytes.take count else bytes
        (.ok (.bytewise kept), ⟨mishaps⟩)

/-- Up to the first failure or the end these replies begin `bytes`. -/
def Begins : List (Except Error Buffer) → Bytes → Prop
  | [], _ => True
  | .error _ :: _, _ => True
  | .ok buf :: replies, bytes =>
      buf.bytes ≠ [] ∧ ∃ rest, bytes = buf.bytes ++ rest ∧ Begins replies rest

/-- Without a size they return all of `bytes`. -/
def Reads : Bool → List (Except Error Buffer) → Bytes → Prop
  | true => Begins
  | false => FlakyService.Returns

private theorem begins_bytewise {kept bytes : Bytes} (begins : kept <+: bytes) :
    Begins (ScriptedReader.bytewise kept).replies bytes := by
  obtain ⟨rest, rfl⟩ := begins
  induction kept with
  | nil => trivial
  | cons byte kept induction =>
      exact ⟨by simp, kept ++ rest, by simp, induction⟩

private theorem reads_bytewise (sized : Bool) (bytes : Bytes) :
    Reads sized (ScriptedReader.bytewise bytes).replies bytes := by
  cases sized with
  | true => exact begins_bytewise (List.prefix_refl bytes)
  | false =>
      induction bytes with
      | nil => rfl
      | cons byte bytes induction => exact ⟨by simp, bytes, by simp, induction⟩

private theorem reads_failAfter (sized : Bool) (count : Nat) (bytes : Bytes) :
    Reads sized (FlakyService.failAfter count bytes).replies bytes := by
  induction count generalizing bytes with
  | zero => cases sized <;> trivial
  | succ count induction =>
      cases bytes with
      | nil => cases sized <;> trivial
      | cons byte bytes =>
          cases sized with
          | true => exact ⟨by simp, bytes, by simp, induction bytes⟩
          | false => exact ⟨by simp, bytes, by simp, induction bytes⟩

def honestReads (path : String) (content : Bytes) :
    HonestReads (UnsteadyService content) path content where
  reads := fun sized r bytes => Reads sized r.replies bytes
  opened := by
    intro inner later args r _ answered
    obtain ⟨mishaps⟩ := inner
    match mishaps with
    | [] =>
        cases answered
        exact reads_bytewise _ _
    | .refused :: mishaps => cases answered
    | .failing count :: mishaps =>
        cases answered
        exact reads_failAfter _ count _
    | .cut count :: mishaps =>
        cases answered
        cases sized : args.range.size.isSome with
        | true => exact begins_bytewise (List.take_prefix count _)
        | false => exact reads_bytewise false _
  more := by
    intro sized r later buf bytes reads answered nonempty
    obtain ⟨replies⟩ := r
    match replies with
    | [] =>
        cases answered
        exact absurd rfl nonempty
    | .error _ :: _ => cases answered
    | .ok _ :: _ =>
        cases answered
        cases sized with
        | true => exact reads.2
        | false => exact reads.2
  last := by
    intro sized r later buf bytes reads answered empty
    obtain ⟨replies⟩ := r
    match replies with
    | [] =>
        cases answered
        refine ⟨?_, reads⟩
        intro unsized
        subst unsized
        exact reads
    | .error _ :: _ => cases answered
    | .ok _ :: _ =>
        cases answered
        cases sized with
        | true => exact absurd empty reads.1
        | false => exact absurd empty reads.1

end UnsteadyService

/-- Two tasks read chunks of two bytes.  The reader of the chunk at one fails
and is opened again; that of the chunk at three is cut or is not. -/
def unsteadyContext (cut : Bool) :
    ReadContext (SteadyReader
      (UnsteadyService.honestReads "file" [1, 2, 3, 4, 5]).complete
      FixedDelays) :=
  .new
    (RetryAccessor.steady _
      (fun args =>
        ⟨⟨if args.range.offset = 1 then [.failing 1, .refused]
          else if cut then [.cut 1] else []⟩⟩)
      ⟨2⟩)
    "file" ⟨⟨0, none⟩, none⟩ ((OpReader.new.withChunk 2).withConcurrent 2)

def unsteadySchedule : List ReadEvent :=
  [.poll, .poll, .poll, .poll, .finish 1 5, .finish 0 5, .poll, .poll,
    .poll, .poll, .poll, .poll, .poll, .poll]

theorem Reader.read_delivers_or_fails_unsteady :
    ∃ whole buf cut err,
      Automaton.run ReaderRead.step
        (.new (BufferStream.new (unsteadyContext false) 1 (some 4)))
        unsteadySchedule = some whole ∧
      whole.result = some (.ok buf) ∧ buf.bytes = [2, 3, 4, 5] ∧
      Automaton.run ReaderRead.step
        (.new (BufferStream.new (unsteadyContext true) 1 (some 4)))
        (unsteadySchedule.take 12) = some cut ∧
      cut.result = some (.error err) ∧ err.status = .persistent := by
  have retries : ∀ cut, (unsteadyContext cut).Retries _ _ :=
    fun cut => ReadContext.retries_steady _ rfl rfl
  have inside : 1 + 4 ≤ ([1, 2, 3, 4, 5] : Bytes).length := by decide
  have delivers : ∀ cut, ∃ stream,
      BufferStream.create (unsteadyContext cut)
        ⟨.included 1, .excluded 5⟩ = some (.ok stream) ∧
      stream.Settles (DeliversOrFails [2, 3, 4, 5]) :=
    fun cut => Reader.read_delivers_or_fails _ (retries cut) (.inl rfl) inside
  obtain ⟨stream, created, settles⟩ := delivers false
  obtain ⟨cutStream, cutCreated, cutSettles⟩ := delivers true
  cases created
  cases cutCreated
  obtain ⟨whole, buf, ran, finished⟩ : ∃ whole buf,
      Automaton.run ReaderRead.step
        (.new (BufferStream.new (unsteadyContext false) 1 (some 4)))
        unsteadySchedule = some whole ∧ whole.result = some (.ok buf) :=
    ⟨_, _, rfl, rfl⟩
  obtain ⟨cut, err, cutRan, failed⟩ : ∃ cut err,
      Automaton.run ReaderRead.step
        (.new (BufferStream.new (unsteadyContext true) 1 (some 4)))
        (unsteadySchedule.take 12) = some cut ∧
      cut.result = some (.error err) :=
    ⟨_, _, rfl, rfl⟩
  exact ⟨whole, buf, cut, err, ran, finished,
    settles.returns _ _ _ ran finished, cutRan, failed,
    cutSettles.returns _ _ _ cutRan failed⟩

/-! ## Enough retries -/

/-- Assumptions about a service whose failures are temporary and of a known
number: `failures` is how many requests and readers may still fail, and `doomed`
is one for a reader that may. -/
structure HonestReads.Bounded (service : HonestReads A path content) where
  failures : A → Nat
  doomed : R → Nat
  refused : ∀ {inner later : A} {args : OpRead} {err : Error},
    args.range.Within content →
    ReadAccess.read inner path args = (.error err, later) →
    err.isTemporary = true ∧ failures later < failures inner
  opened : ∀ {inner later : A} {args : OpRead} {r : R},
    args.range.Within content →
    ReadAccess.read inner path args = (.ok r, later) →
    failures later + doomed r ≤ failures inner
  failed : ∀ {sized : Bool} {r later : R} {err : Error} {bytes : Bytes},
    service.reads sized r bytes → Read.read r = (.error err, later) →
    err.isTemporary = true ∧ 0 < doomed r
  goes : ∀ {sized : Bool} {r later : R} {buf : Buffer} {bytes : Bytes},
    service.reads sized r bytes → Read.read r = (.ok buf, later) →
    doomed later ≤ doomed r
  ends : ∀ {sized : Bool} {r later : R} {buf : Buffer} {bytes : Bytes},
    service.reads sized r bytes → Read.read r = (.ok buf, later) →
    buf.bytes = [] → bytes = []

/-- A call whose failures are temporary and counted succeeds within as many
retries. -/
theorem FixedDelays.retryWith_succeeds {C T : Type}
    {call : C → Option (Except Error T × C)} {kept : C → Prop}
    {returned : T → C → Prop} {rank : C → Nat} {limit : Nat}
    (attempts : ∀ {context}, kept context → rank context ≤ limit →
      (∃ err later, call context = some (.error err, later) ∧
          err.isTemporary = true ∧ kept later ∧ rank later < rank context) ∨
        ∃ value later, call context = some (.ok value, later) ∧
          returned value later)
    {context : C} (before : kept context) (fits : rank context ≤ limit) :
    ∃ value later, retryWith call limit context = some (.ok value, later) ∧
      returned value later := by
  suffices enough : ∀ delays context, kept context → rank context ≤ delays →
      delays ≤ limit →
      ∃ value later, retryWith call delays context = some (.ok value, later) ∧
        returned value later from
    enough limit context before fits (Nat.le_refl limit)
  intro delays
  induction delays with
  | zero =>
      intro context before fits _
      rcases attempts before (by omega) with
        ⟨_, _, _, _, _, lower⟩ | ⟨value, later, succeeded, after⟩
      · omega
      · exact ⟨value, later, succeeded, after⟩
  | succ delays induction =>
      intro context before fits within
      rcases attempts before (by omega) with
        ⟨err, later, failed, temporary, after, lower⟩ |
        ⟨value, later, succeeded, after⟩
      · obtain ⟨value, last, retried, reached⟩ :=
          induction later after (by omega) (by omega)
        refine ⟨value, last, ?_, reached⟩
        simp [retryWith, failed, temporary, retried]
      · exact ⟨value, later, by simp [retryWith, succeeded], after⟩

namespace HonestReads.Bounded

variable {service : HonestReads A path content} (bounded : service.Bounded)
  {rest : Bytes} {buf : Buffer} {err : Error}

/-- The complete layer adds no failure to a service that ends no reader too
early. -/
theorem complete_failed {r later : CompleteReader R}
    (completes : service.Completes r rest)
    (answered : Read.read r = (.error err, later)) :
    err.isTemporary = true ∧ 0 < bounded.doomed r.inner := by
  obtain ⟨inner, size, read⟩ := r
  obtain ⟨reads, counted⟩ := completes
  rcases inside : Read.read inner with ⟨_ | piece, next⟩
  · simp only [Read.read, inside] at answered
    cases answered
    exact bounded.failed reads inside
  · by_cases empty : piece.bytes = []
    · have nothing := bounded.ends reads inside empty
      have passed : (CompleteReader.mk inner size read).check = .ok () := by
        cases size with
        | none => rfl
        | some size =>
            have total := counted size rfl
            rw [nothing] at total
            have same : read = size := total
            simp [CompleteReader.check, same]
      rw [CompleteReader.read_end inside empty, passed] at answered
      cases answered
    · rw [CompleteReader.read_piece inside empty] at answered
      cases answered

theorem complete_goes {r later : CompleteReader R}
    (completes : service.Completes r rest)
    (answered : Read.read r = (.ok buf, later)) :
    bounded.doomed later.inner ≤ bounded.doomed r.inner := by
  obtain ⟨inner, size, read⟩ := r
  rcases inside : Read.read inner with ⟨_ | piece, next⟩
  · simp [Read.read, inside] at answered
  · have lower := bounded.goes completes.1 inside
    by_cases empty : piece.bytes = []
    · rw [CompleteReader.read_end inside empty] at answered
      obtain ⟨_, rfl⟩ := Prod.mk.inj answered
      exact lower
    · rw [CompleteReader.read_piece inside empty] at answered
      cases answered
      exact lower

/-- How often the reader may still fail. -/
def rank (self : RetryReader (CompleteAccess A) (CompleteReader R)) : Nat :=
  bounded.failures self.inner.inner +
    (self.reader.map fun r => bounded.doomed r.inner).getD 0

variable {self later : RetryReader (CompleteAccess A) (CompleteReader R)}
  {r : CompleteReader R}

private theorem readFrom_failed (completes : service.Completes r rest)
    (answered : self.readFrom r = some (.error err, later)) :
    err.isTemporary = true ∧
      bounded.rank later < bounded.failures self.inner.inner +
        bounded.doomed r.inner := by
  simp only [RetryReader.readFrom] at answered
  split at answered
  · rename_i cause next failed
    cases answered
    obtain ⟨temporary, positive⟩ := bounded.complete_failed completes failed
    exact ⟨temporary, by simp [rank, positive]⟩
  · obtain ⟨range, _, same⟩ := Option.map_eq_some_iff.mp answered
    cases same

private theorem readFrom_goes (completes : service.Completes r rest)
    (answered : self.readFrom r = some (.ok buf, later)) :
    bounded.rank later ≤ bounded.failures self.inner.inner +
      bounded.doomed r.inner := by
  simp only [RetryReader.readFrom] at answered
  split at answered
  · cases answered
  · rename_i piece next succeeded
    obtain ⟨range, _, same⟩ := Option.map_eq_some_iff.mp answered
    cases same
    have lower := bounded.complete_goes completes succeeded
    simpa [rank] using lower

private theorem taken (owes : self.Owes service.complete rest)
    {result : Except Error Buffer}
    (answered : self.read = some (result, later)) :
    (∃ err, result = .error err ∧ err.isTemporary = true ∧
        bounded.rank later < bounded.rank self) ∨
      ∃ (source : RetryReader (CompleteAccess A) (CompleteReader R))
        (r : CompleteReader R), source.readFrom r = some (result, later) ∧
        service.Completes r rest ∧
        bounded.failures source.inner.inner + bounded.doomed r.inner ≤
          bounded.rank self := by
  obtain ⟨samePath, within, selected, reads⟩ := owes
  rw [RetryReader.read] at answered
  cases held : self.reader with
  | some r =>
      rw [held] at answered
      exact .inr ⟨self, r, answered, reads r held, by simp [rank, held]⟩
  | none =>
      rw [held] at answered
      rcases opening : ReadAccess.read self.inner.inner self.path self.args with
        ⟨_ | raw, next⟩
      · rename_i err
        simp only [ReadAccess.read, opening] at answered
        cases answered
        rw [samePath] at opening
        obtain ⟨temporary, lower⟩ := bounded.refused within opening
        exact .inl ⟨err, rfl, temporary, by simpa [rank, held] using lower⟩
      · simp only [ReadAccess.read, opening] at answered
        rw [samePath] at opening
        refine .inr ⟨_, _, answered, ?_, ?_⟩
        · have opened : ReadAccess.read self.inner path self.args =
              (.ok (CompleteReader.new raw self.args.range.size),
                CompleteAccess.mk next) := by
            simp only [ReadAccess.read, opening]
          exact selected ▸ service.complete.opened within opened
        · have lower := bounded.opened within opening
          simpa [rank, held, CompleteReader.new] using lower

theorem attempts (owes : self.Owes service.complete rest) :
    (∃ err later, self.read = some (.error err, later) ∧
        err.isTemporary = true ∧ later.Owes service.complete rest ∧
        bounded.rank later < bounded.rank self) ∨
      ∃ buf later, self.read = some (.ok buf, later) ∧
        RetryReader.Delivered service.complete rest buf later ∧
        bounded.rank later ≤ bounded.rank self := by
  rcases RetryReader.read_attempts owes with
    ⟨err, later, failed, owesLater⟩ | ⟨buf, later, succeeded, delivered⟩
  · refine .inl ⟨err, later, failed, ?_⟩
    rcases bounded.taken owes failed with
      ⟨_, same, temporary, lower⟩ | ⟨source, r, from_, completes, within⟩
    · cases same
      exact ⟨temporary, owesLater, lower⟩
    · obtain ⟨temporary, lower⟩ := bounded.readFrom_failed completes from_
      exact ⟨temporary, owesLater, Nat.lt_of_lt_of_le lower within⟩
  · refine .inr ⟨buf, later, succeeded, delivered, ?_⟩
    rcases bounded.taken owes succeeded with
      ⟨_, same, _⟩ | ⟨source, r, from_, completes, within⟩
    · cases same
    · exact Nat.le_trans (bounded.readFrom_goes completes from_) within

/-- The wrapper has at least as many retries as there are failures left. -/
def Survives (limit : Nat) (rest : Bytes)
    (self : SteadyReader service.complete FixedDelays) : Prop :=
  self.wrapper.builder.maxTimes = limit ∧
    ∃ reader, self.wrapper.inner = some reader ∧
      reader.Owes service.complete rest ∧ bounded.rank reader ≤ limit

theorem Survives.read {limit : Nat}
    {self : SteadyReader service.complete FixedDelays}
    (survives : bounded.Survives limit rest self) :
    ∃ buf later, Read.read self = (.ok buf, later) ∧
      (buf.bytes = [] → rest = []) ∧
      ∃ tail, rest = buf.bytes ++ tail ∧ bounded.Survives limit tail later := by
  obtain ⟨retries, reader, held, owes, fits⟩ := survives
  obtain ⟨buf, later, retried, delivered, left⟩ :
      ∃ buf later,
        FixedDelays.retryWith RetryReader.read limit reader =
          some (.ok buf, later) ∧
        RetryReader.Delivered service.complete rest buf later ∧
        bounded.rank later ≤ limit := by
    apply FixedDelays.retryWith_succeeds _ owes fits
    intro context before within
    rcases bounded.attempts before with failed |
      ⟨buf, later, succeeded, delivered, lower⟩
    · exact .inl failed
    · exact .inr ⟨buf, later, succeeded, delivered, Nat.le_trans lower within⟩
  obtain ⟨atEnd, tail, split, owesTail⟩ := delivered
  have answered : self.wrapper.read =
      some (.ok buf, { self.wrapper with inner := some later }) := by
    simp [RetryWrapper.read, RetryWrapper.retryWith, RetryWrapper.takeInner,
      held, Backoff.retry, retries, retried, Except.mapError]
  exact ⟨buf, _, SteadyReader.read_eq answered, atEnd, tail, split, retries,
    later, rfl, owesTail, left⟩

theorem Survives.yields {limit : Nat}
    {self : SteadyReader service.complete FixedDelays}
    (survives : bounded.Survives limit rest self) : Read.Yields self rest := by
  induction length : rest.length using Nat.strongRecOn
    generalizing rest self with
  | _ length' induction =>
    obtain ⟨buf, later, answered, atEnd, tail, split, left⟩ := survives.read
    by_cases empty : buf.bytes = []
    · rw [atEnd empty]
      exact .done answered empty
    · have positive := List.length_pos_iff.mpr empty
      have shorter : tail.length < length' := by
        rw [← length, split, List.length_append]
        omega
      rw [split]
      exact .more answered empty (induction tail.length shorter left rfl)

/-- With enough retries every request is answered, and its reader does not
fail. -/
theorem serves {seed : OpRead → CompleteAccess A} {limit : Nat}
    {ctx : ReadContext (SteadyReader service.complete FixedDelays)}
    (retries : ctx.Retries seed ⟨limit⟩)
    (enough : ∀ args, bounded.failures (seed args).inner ≤ limit) :
    ctx.Serves Read.Yields content := by
  intro offset size inside
  have within : (ctx.args.withRange ⟨offset, some size⟩).range.Within content :=
    inside
  have attempts : ∀ {inner : CompleteAccess A}, True →
      bounded.failures inner.inner ≤ limit →
      (∃ err later,
        some (ReadAccess.read inner path
          (ctx.args.withRange ⟨offset, some size⟩)) =
            some (.error err, later) ∧
          err.isTemporary = true ∧ True ∧
          bounded.failures later.inner < bounded.failures inner.inner) ∨
        ∃ r later,
          some (ReadAccess.read inner path
            (ctx.args.withRange ⟨offset, some size⟩)) =
              some (.ok r, later) ∧
            (service.Completes r ((content.drop offset).take size) ∧
              bounded.failures later.inner + bounded.doomed r.inner ≤
                limit) := by
    intro inner _ fits
    rcases opening : ReadAccess.read inner.inner path
      (ctx.args.withRange ⟨offset, some size⟩) with ⟨err | raw, next⟩
    · obtain ⟨temporary, lower⟩ := bounded.refused within opening
      refine .inl ⟨err, ⟨next⟩, ?_, temporary, trivial, lower⟩
      simp only [ReadAccess.read, opening]
    · have opened : ReadAccess.read inner path
          (ctx.args.withRange ⟨offset, some size⟩) =
            (.ok (CompleteReader.new raw (some size)),
              CompleteAccess.mk next) := by
        simp only [ReadAccess.read, opening]
        rfl
      refine .inr ⟨_, _, congrArg some opened, ?_, ?_⟩
      · exact service.complete.opened within opened
      · exact Nat.le_trans (bounded.opened within opening) fits
  obtain ⟨r, later, retried, completes, fits⟩ :=
    FixedDelays.retryWith_succeeds attempts trivial
      (enough (ctx.args.withRange ⟨offset, some size⟩))
  have same := retries.opened _ within
  simp only [RetryAccessor.read, Backoff.retry, retried, Option.map_some]
    at same
  rw [retries.samePath]
  cases answered : ctx.acc.read path
      (ctx.args.withRange ⟨offset, some size⟩) with
  | error err =>
      rw [answered] at same
      cases same
  | ok reader =>
      rw [answered] at same
      refine ⟨reader, rfl, ?_⟩
      have wrapped : RetryWrapper.new (RetryReader.new later path
          (ctx.args.withRange ⟨offset, some size⟩) r) ⟨limit⟩ =
            reader.wrapper := by
        simpa [Except.map] using same
      have survives : bounded.Survives limit
          ((content.drop offset).take size) reader := by
        unfold Survives
        rw [← wrapped]
        refine ⟨rfl, _, rfl, ⟨rfl, within, rfl, ?_⟩, fits⟩
        intro held equal
        cases equal
        exact completes
      exact survives.yields

end HonestReads.Bounded

/-- With enough retries nothing is left of the failures.  If every request,
with the requests that repeat it, fails only temporarily and at most as often
as it is retried, the read ends in every schedule, and with the bytes of the
range. -/
theorem Reader.read_survives {service : HonestReads A path content}
    (bounded : service.Bounded)
    {ctx : ReadContext (SteadyReader service.complete FixedDelays)}
    {seed : OpRead → CompleteAccess A} {limit : Nat}
    (retries : ctx.Retries seed ⟨limit⟩)
    (enough : ∀ args, bounded.failures (seed args).inner ≤ limit)
    {range : RangeBounds} {offset size : Nat}
    (known : BufferStream.SizeKnown ctx range offset size)
    (inside : offset + size ≤ content.length) :
    ∃ stream, BufferStream.create ctx range = some (.ok stream) ∧
      stream.Collects ((content.drop offset).take size) :=
  ⟨_, BufferStream.create_of_sizeKnown known,
    BufferStream.collects_new (bounded.serves retries enough) inside⟩

namespace FlakyService

/-- All errors of a flaky service are the same temporary one. -/
def temporaryReads (path : String) (content : Bytes) :
    HonestReads (FlakyService content) path content where
  reads := fun _ r bytes =>
    Returns r.replies bytes ∧ ∀ err, .error err ∈ r.replies → err = failure
  opened := by
    intro inner later args r within answered
    refine ⟨(faultyReads path content).opened within answered, ?_⟩
    intro err member
    obtain ⟨plans⟩ := inner
    match plans with
    | [] =>
        cases answered
        simp [ScriptedReader.bytewise] at member
    | none :: plans => cases answered
    | some count :: plans =>
        cases answered
        rcases List.mem_append.mp member with piece | last
        · have whole := List.mem_of_mem_take piece
          simp [ScriptedReader.bytewise] at whole
        · simpa using last
  more := by
    intro sized r later buf bytes reads answered nonempty
    obtain ⟨rest, split, returns⟩ :=
      (faultyReads path content).more reads.1 answered nonempty
    refine ⟨rest, split, returns, ?_⟩
    obtain ⟨replies⟩ := r
    match replies with
    | [] =>
        cases answered
        exact reads.2
    | .error _ :: _ => cases answered
    | .ok _ :: _ =>
        cases answered
        intro err member
        exact reads.2 err (List.mem_cons_of_mem _ member)
  last := by
    intro sized r later buf bytes reads answered empty
    obtain ⟨nothing, returns⟩ :=
      (faultyReads path content).last reads.1 answered empty
    refine ⟨fun _ => nothing, nothing ▸ returns, ?_⟩
    obtain ⟨replies⟩ := r
    match replies with
    | [] =>
        cases answered
        exact reads.2
    | .error _ :: _ => cases answered
    | .ok _ :: _ =>
        cases answered
        intro err member
        exact reads.2 err (List.mem_cons_of_mem _ member)

/-- Every plan is one failure. -/
def bounded (path : String) (content : Bytes) :
    (temporaryReads path content).Bounded where
  failures := fun inner => inner.plans.length
  doomed := fun r => r.replies.countP fun reply => !reply.isOk
  refused := by
    intro inner later args err _ answered
    obtain ⟨plans⟩ := inner
    match plans with
    | [] => cases answered
    | none :: plans =>
        cases answered
        exact ⟨rfl, Nat.lt_succ_self _⟩
    | some count :: plans => cases answered
  opened := by
    intro inner later args r _ answered
    have unspoiled : ∀ count bytes,
        ((ScriptedReader.bytewise bytes).replies.take count).countP
          (fun reply => !reply.isOk) = 0 := by
      intro count bytes
      rw [List.countP_eq_zero]
      intro reply member
      obtain ⟨byte, _, rfl⟩ := List.mem_map.mp (List.mem_of_mem_take member)
      simp [Except.isOk, Except.toBool]
    obtain ⟨plans⟩ := inner
    match plans with
    | [] =>
        cases answered
        have whole := unspoiled
          (ScriptedReader.bytewise (args.range.select content)).replies.length
          (args.range.select content)
        rw [List.take_length] at whole
        simp [whole]
    | none :: plans => cases answered
    | some count :: plans =>
        cases answered
        simp only [failAfter, List.countP_append, unspoiled]
        exact Nat.le_refl _
  failed := by
    intro sized r later err bytes reads answered
    obtain ⟨replies⟩ := r
    match replies with
    | [] => cases answered
    | .error cause :: _ =>
        cases answered
        rw [reads.2 err (by simp)]
        exact ⟨rfl, by simp [Except.isOk, Except.toBool]⟩
    | .ok _ :: _ => cases answered
  goes := by
    intro sized r later buf bytes _ answered
    obtain ⟨replies⟩ := r
    match replies with
    | [] =>
        cases answered
        exact Nat.le_refl _
    | .error _ :: _ => cases answered
    | .ok _ :: _ =>
        cases answered
        exact (List.sublist_cons_self _ _).countP_le
  ends := fun reads answered empty =>
    ((faultyReads path content).last reads.1 answered empty).1

end FlakyService

/-- The context of the chunks above, over a service that fails twice for each
of them. -/
def flakyContext :
    ReadContext (SteadyReader
      (FlakyService.temporaryReads "file" [1, 2, 3, 4, 5]).complete
      FixedDelays) :=
  .new
    (RetryAccessor.steady _ (fun _ => ⟨⟨[some 1, none]⟩⟩) ⟨2⟩)
    "file" ⟨⟨0, none⟩, none⟩ ((OpReader.new.withChunk 2).withConcurrent 2)

theorem Reader.read_survives_flaky :
    ∃ state buf,
      Automaton.run ReaderRead.step
        (.new (BufferStream.new flakyContext 1 (some 4)))
        unsteadySchedule = some state ∧
      state.result = some (.ok buf) ∧ buf.bytes = [2, 3, 4, 5] := by
  have inside : 1 + 4 ≤ ([1, 2, 3, 4, 5] : Bytes).length := by decide
  have retries : flakyContext.Retries (fun _ => ⟨⟨[some 1, none]⟩⟩) ⟨2⟩ :=
    ReadContext.retries_steady _ rfl rfl
  have collects : ∃ stream,
      BufferStream.create flakyContext ⟨.included 1, .excluded 5⟩ =
        some (.ok stream) ∧ stream.Collects [2, 3, 4, 5] :=
    Reader.read_survives (FlakyService.bounded "file" [1, 2, 3, 4, 5]) retries
      (fun _ => Nat.le_refl 2) (.inl rfl) inside
  obtain ⟨stream, created, collects⟩ := collects
  cases created
  obtain ⟨state, result, ran, finished⟩ : ∃ state result,
      Automaton.run ReaderRead.step
        (.new (BufferStream.new flakyContext 1 (some 4)))
        unsteadySchedule = some state ∧ state.result = some result :=
    ⟨_, _, rfl, rfl⟩
  obtain ⟨buf, rfl, right⟩ := collects.returns _ _ _ ran finished
  exact ⟨state, buf, ran, finished, right⟩

end OpenDal
