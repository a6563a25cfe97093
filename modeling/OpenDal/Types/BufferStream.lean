import OpenDal.Raw.ConcurrentTasks
import OpenDal.Types.ReadGenerator

/-!
# `BufferStream` and `Reader::read`

A stream of buffers is read by one reader after the other, or in chunks by
background tasks.  As in `OpenDal.Raw.ConcurrentTasks`, the futures are data;
resuming one performs at most one round of its loop.
-/

namespace OpenDal

variable {R : Type} [Read R]

/-! ## `StreamingReader` -/

structure StreamingReader (R : Type) where
  generator : ReadGenerator R
  reader : Option R

namespace StreamingReader

def new (ctx : ReadContext R) (range : BytesRange) : StreamingReader R :=
  { generator := .new ctx range.offset range.size
    reader := none }

/-- The second half of the loop of `read`. -/
def readFrom (self : StreamingReader R) (r : R) :
    StreamingReader R × Progress Unit (Except Error Buffer) :=
  match Read.read r with
  | (.error err, r) =>
      ({ self with reader := some r }, .returned (.error err))
  | (.ok buf, r) =>
      if buf.isEmpty then
        ({ self with reader := none }, .suspended ())
      else
        ({ self with reader := some r }, .returned (.ok buf))

/-- One round of the loop of `read`. -/
def pollRead (self : StreamingReader R) :
    StreamingReader R × Progress Unit (Except Error Buffer) :=
  match self.reader with
  | some r => self.readFrom r
  | none =>
      match self.generator.nextReader with
      | (.error err, generator) =>
          ({ self with generator }, .returned (.error err))
      | (.ok none, generator) =>
          ({ self with generator }, .returned (.ok Buffer.new))
      | (.ok (some r), generator) => { self with generator }.readFrom r

end StreamingReader

/-! ## `ChunkedReader` -/

structure ChunkedReader (R : Type) where
  generator : ReadGenerator R
  tasks : ConcurrentTasks R Buffer
  done : Bool

/-- Where `ChunkedReader::read` is suspended. -/
inductive ReadFuture (R : Type) where
  | looping
  | executing (future : ExecuteFuture R Buffer)
  | draining (future : NextFuture)

namespace ChunkedReader

def new (ctx : ReadContext R) (range : BytesRange) : ChunkedReader R :=
  { generator := .new ctx range.offset range.size
    tasks := .new ctx.capacity
    done := false }

/-- The factory of the tasks.  The reader is handed back as `read_all` left
it. -/
def readTask (r : R) (fuel : Nat) : Option (R × Except Error Buffer) :=
  Read.readAll fuel r

def pollRead (self : ChunkedReader R) :
    ReadFuture R →
      Option (ChunkedReader R × Progress (ReadFuture R) (Except Error Buffer))
  | .looping =>
      if self.tasks.hasRemaining && !self.done then
        match self.generator.nextReader with
        | (.error err, generator) =>
            some ({ self with generator }, .returned (.error err))
        | (.ok (some r), generator) =>
            some ({ self with generator },
              .suspended (.executing (.unresumed r)))
        | (.ok none, generator) =>
            some ({ self with generator, done := true },
              .suspended (.draining .unresumed))
      else
        some (self, .suspended (.draining .unresumed))
  | .executing future => do
      match ← self.tasks.pollExecute future with
      | (tasks, .suspended future) =>
          some ({ self with tasks }, .suspended (.executing future))
      | (tasks, .returned (.ok ())) =>
          if tasks.hasResult then
            some ({ self with tasks }, .suspended (.draining .unresumed))
          else
            some ({ self with tasks }, .suspended .looping)
      | (tasks, .returned (.error err)) =>
          some ({ self with tasks }, .returned (.error err))
      | (tasks, .panicked message) =>
          some ({ self with tasks }, .panicked message)
  | .draining future => do
      match ← self.tasks.pollNext future with
      | (tasks, .suspended future) =>
          some ({ self with tasks }, .suspended (.draining future))
      | (tasks, .returned (some result)) =>
          some ({ self with tasks }, .returned result)
      | (tasks, .returned none) =>
          some ({ self with tasks }, .returned (.ok Buffer.new))
      | (tasks, .panicked message) =>
          some ({ self with tasks }, .panicked message)

/-- A background task comes to its end. -/
def finish (self : ChunkedReader R) (position fuel : Nat) :
    Option (ChunkedReader R) := do
  let tasks ← self.tasks.finish readTask position fuel
  some { self with tasks }

end ChunkedReader

/-- The task that is awaited directly comes to its end. -/
def ReadFuture.finish (fuel : Nat) : ReadFuture R → Option (ReadFuture R)
  | .executing future =>
      (future.finish ChunkedReader.readTask fuel).map .executing
  | _ => none

/-! ## `BufferStream` -/

inductive TwoWays (α β : Type) where
  | one (value : α)
  | two (value : β)

inductive BufferStream (R : Type) where
  | idle (reader : TwoWays (StreamingReader R) (ChunkedReader R))
  | reading (call : TwoWays (StreamingReader R)
      (ChunkedReader R × ReadFuture R))

namespace BufferStream

def new (ctx : ReadContext R) (offset : Nat) (size : Option Nat) :
    BufferStream R :=
  if ctx.options.chunk.isSome then
    .idle (.two (.new ctx ⟨offset, size⟩))
  else
    .idle (.one (.new ctx ⟨offset, size⟩))

/-- `none` is the overflow of a range whose end lies before its start. -/
def create (ctx : ReadContext R) (range : RangeBounds) :
    Option (Except Error (BufferStream R)) :=
  if ctx.options.chunk.isSome then
    match ctx.parseIntoRange range with
    | .error err => some (.error err)
    | .ok (start, stop) => do
        let range ← BytesRange.fromBounds ⟨.included start, .excluded stop⟩
        some (.ok (.idle (.two (.new ctx range))))
  else do
    let range ← BytesRange.fromBounds range
    some (.ok (.idle (.one (.new ctx range))))

/-- What `poll_next` makes of the result of `read`. -/
def item : Except Error Buffer → Option (Except Error Buffer)
  | .ok buf => if buf.isEmpty then none else some (.ok buf)
  | .error err => some (.error err)

/-- Resume the future of a stream that is reading. -/
def pollReading :
    TwoWays (StreamingReader R) (ChunkedReader R × ReadFuture R) →
      Option (BufferStream R ×
        Progress Unit (Option (Except Error Buffer)))
  | .one reader =>
      match reader.pollRead with
      | (reader, .suspended ()) => some (.reading (.one reader), .suspended ())
      | (reader, .returned result) =>
          some (.idle (.one reader), .returned (item result))
      | (reader, .panicked message) =>
          some (.idle (.one reader), .panicked message)
  | .two (reader, future) => do
      match ← reader.pollRead future with
      | (reader, .suspended future) =>
          some (.reading (.two (reader, future)), .suspended ())
      | (reader, .returned result) =>
          some (.idle (.two reader), .returned (item result))
      | (reader, .panicked message) =>
          some (.idle (.two reader), .panicked message)

/-- The call of `read` that the next poll resumes; an idle stream begins a new
one. -/
def call : BufferStream R →
    TwoWays (StreamingReader R) (ChunkedReader R × ReadFuture R)
  | .idle (.one reader) => .one reader
  | .idle (.two reader) => .two (reader, .looping)
  | .reading call => call

def pollNext (stream : BufferStream R) :
    Option (BufferStream R ×
      Progress Unit (Option (Except Error Buffer))) :=
  pollReading stream.call

/-- A background task comes to its end. -/
def finish (position fuel : Nat) : BufferStream R → Option (BufferStream R)
  | .idle (.two reader) =>
      (reader.finish position fuel).map fun reader => .idle (.two reader)
  | .reading (.two (reader, future)) =>
      (reader.finish position fuel).map fun reader =>
        .reading (.two (reader, future))
  | _ => none

/-- The task that is awaited directly comes to its end. -/
def finishAwaited (fuel : Nat) : BufferStream R → Option (BufferStream R)
  | .reading (.two (reader, future)) =>
      (future.finish fuel).map fun future => .reading (.two (reader, future))
  | _ => none

end BufferStream

/-! ## `Reader::read` -/

/-- What can happen while a range is read. -/
inductive ReadEvent where
  | poll
  | finish (position fuel : Nat)
  | finishAwaited (fuel : Nat)

/-- The state of `Reader::read`, which collects the stream until its end or
its first error. -/
structure ReaderRead (R : Type) where
  stream : BufferStream R
  bufs : List Buffer
  result : Option (Except Error Buffer)
  panicked : Bool

namespace ReaderRead

def new (stream : BufferStream R) : ReaderRead R :=
  { stream
    bufs := []
    result := none
    panicked := false }

/-- `try_collect` takes an item of the stream. -/
def collect (self : ReaderRead R) :
    BufferStream R × Progress Unit (Option (Except Error Buffer)) →
      ReaderRead R
  | (stream, .suspended ()) => { self with stream }
  | (stream, .returned (some (.ok buf))) =>
      { self with stream, bufs := self.bufs ++ [buf] }
  | (stream, .returned (some (.error err))) =>
      { self with stream, result := some (.error err) }
  | (stream, .returned none) =>
      { self with stream, result := some (.ok (Buffer.flatten self.bufs)) }
  | (stream, .panicked _) => { self with stream, panicked := true }

def step (self : ReaderRead R) (event : ReadEvent) : Option (ReaderRead R) :=
  if self.result.isSome || self.panicked then
    none
  else
    match event with
    | .poll => self.stream.pollNext.map self.collect
    | .finish position fuel =>
        (self.stream.finish position fuel).map fun stream =>
          { self with stream }
    | .finishAwaited fuel =>
        (self.stream.finishAwaited fuel).map fun stream =>
          { self with stream }

end ReaderRead

end OpenDal
