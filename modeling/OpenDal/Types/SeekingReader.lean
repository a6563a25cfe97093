import OpenDal.Types.BufferCopy
import OpenDal.Types.BufferStream

/-!
# `FuturesAsyncReader` and `StdReader`

Both adapters keep a window of buffered bytes over a source that returns one
buffer after the other.  A seek inside of the window moves the window; every
other seek drops it and makes a new source for the rest of the range.  The two
have the same bodies and differ in the source, `BufferStream` or
`BufferIterator`, so they are one definition over `BufferSource`.

A call that reads polls its source until bytes are there.  Its state between
two polls is the reader itself, so each function performs one round of its
loop and another call may follow after any round.

Positions lie inside of the content and so below `2^63`; the casts between
`u64` and `i64` do not change them.
-/

namespace OpenDal

variable {R : Type}

/-! ## `BufferIterator` -/

/-- The generator asks `blocking_read` for the next reader; it is the `read` of
an accessor whose readers are blocking. -/
def ReadGenerator.nextBlockingReader (generator : ReadGenerator R) :
    Except Error (Option R) × ReadGenerator R :=
  generator.nextReader

structure IteratingReader (R : Type) where
  generator : ReadGenerator R
  reader : Option R

namespace IteratingReader

def new (ctx : ReadContext R) (range : BytesRange) : IteratingReader R :=
  { generator := .new ctx range.offset range.size
    reader := none }

variable [Read R]

/-- The second half of the loop of `read`. -/
def readFrom (self : IteratingReader R) (r : R) :
    IteratingReader R × Progress Unit (Except Error Buffer) :=
  match Read.read r with
  | (.error err, r) =>
      ({ self with reader := some r }, .returned (.error err))
  | (.ok buf, r) =>
      if buf.isEmpty then
        ({ self with reader := none }, .suspended ())
      else
        ({ self with reader := some r }, .returned (.ok buf))

/-- One round of the loop of `read`. -/
def readRound (self : IteratingReader R) :
    IteratingReader R × Progress Unit (Except Error Buffer) :=
  match self.reader with
  | some r => self.readFrom r
  | none =>
      match self.generator.nextBlockingReader with
      | (.error err, generator) =>
          ({ self with generator }, .returned (.error err))
      | (.ok none, generator) =>
          ({ self with generator }, .returned (.ok Buffer.new))
      | (.ok (some r), generator) => { self with generator }.readFrom r

/-- `StreamingReader` has the same body over readers that are awaited. -/
def toStreaming (self : IteratingReader R) : StreamingReader R :=
  { generator := self.generator
    reader := self.reader }

end IteratingReader

structure BufferIterator (R : Type) where
  inner : IteratingReader R

namespace BufferIterator

/-- `none` is the overflow of a range whose end lies before its start. -/
def new (ctx : ReadContext R) (range : RangeBounds) :
    Option (BufferIterator R) := do
  let range ← BytesRange.fromBounds range
  some ⟨.new ctx range⟩

variable [Read R]

/-- One round of the loop inside of `next`. -/
def nextRound (iter : BufferIterator R) :
    BufferIterator R × Progress Unit (Option (Except Error Buffer)) :=
  match iter.inner.readRound with
  | (inner, .suspended ()) => (⟨inner⟩, .suspended ())
  | (inner, .returned (.ok buf)) =>
      (⟨inner⟩, .returned (if buf.isEmpty then none else some (.ok buf)))
  | (inner, .returned (.error err)) => (⟨inner⟩, .returned (some (.error err)))
  | (inner, .panicked message) => (⟨inner⟩, .panicked message)

end BufferIterator

/-! ## The common body -/

/-- `std::io::SeekFrom`. -/
inductive SeekFrom where
  | start (pos : Nat)
  | fromEnd (pos : Int)
  | current (pos : Int)
deriving DecidableEq

/-- The position that a seek goes to, from `pos` in the range from `start` to
`stop`. -/
def SeekFrom.target (start stop pos : Nat) : SeekFrom → Int
  | .start target => target
  | .fromEnd offset => stop - start + offset
  | .current offset => pos + offset

/-- What the adapters ask of their source. -/
class BufferSource (R : outParam Type) (S : Type) where
  /-- The source for the range from `start` to `stop` without its first
  `newPos` bytes; `none` is an overflow. -/
  rebuild : ReadContext R → (start stop newPos : Nat) → Option S
  /-- One round of the call that returns the next buffer. -/
  next : S → Option (S × Progress Unit (Option (Except Error Buffer)))
  /-- What can happen in the background. -/
  Background : Type
  background : S → Background → Option S

structure SeekingReader (R S : Type) where
  ctx : ReadContext R
  source : S
  buf : Buffer
  start : Nat
  stop : Nat
  pos : Nat

namespace SeekingReader

variable {S : Type} [BufferSource R S]

def new (ctx : ReadContext R) (start stop : Nat) :
    Option (SeekingReader R S) := do
  let source ← BufferSource.rebuild ctx start stop 0
  some { ctx, source, buf := Buffer.new, start, stop, pos := 0 }

/-- The second half of the loops of `fill_buf` and `read`: ask the source for
the next buffer.  The loop ends where the source does. -/
def refill (self : SeekingReader R S) :
    Option (SeekingReader R S × Progress Unit (Except IoError Bytes)) := do
  match ← BufferSource.next self.source with
  | (source, .suspended ()) => some ({ self with source }, .suspended ())
  | (source, .returned (some (.ok buf))) =>
      some ({ self with source, buf }, .suspended ())
  | (source, .returned (some (.error err))) =>
      some ({ self with source }, .returned (.error (.formatStdIoError err)))
  | (source, .returned none) =>
      some ({ self with source }, .returned (.ok []))
  | (source, .panicked message) =>
      some ({ self with source }, .panicked message)

/-- One round of the loop of `fill_buf`. -/
def fillBuf (self : SeekingReader R S) :
    Option (SeekingReader R S × Progress Unit (Except IoError Bytes)) :=
  if 0 < self.buf.len then do
    let front ← self.buf.inner.chunk
    some (self, .returned (.ok front))
  else
    self.refill

/-- One round of the loop of `read` into a buffer of `size` bytes; it returns
the bytes that were copied. -/
def read (self : SeekingReader R S) (size fuel : Nat) :
    Option (SeekingReader R S × Progress Unit (Except IoError Bytes)) :=
  if 0 < self.buf.len then do
    let size := min self.buf.len size
    let (bytes, buf) ← self.buf.copyToSlice fuel size
    some ({ self with buf, pos := self.pos + size }, .returned (.ok bytes))
  else
    self.refill

/-- `none` is the failed assertion of `advance`. -/
def consume (self : SeekingReader R S) (amt : Nat) :
    Option (SeekingReader R S) := do
  let buf ← self.buf.advance amt
  let buf := if buf.isEmpty then Buffer.new else buf
  some { self with buf, pos := self.pos + amt }

def negativePosition : IoError :=
  ⟨.invalidInput, .inl "invalid seek to a negative position"⟩

/-- `acc` is how the service answers the requests of a new source. -/
def seek (self : SeekingReader R S) (pos : SeekFrom) (acc : Accessor R) :
    Option (SeekingReader R S × Except IoError Nat) :=
  let target := pos.target self.start self.stop self.pos
  if target < 0 then
    some (self, .error negativePosition)
  else
    let newPos := target.toNat
    if self.pos ≤ newPos ∧ newPos < self.pos + self.buf.len then do
      let cnt := newPos - self.pos
      let buf ← self.buf.advance cnt
      some ({ self with buf, pos := newPos }, .ok newPos)
    else do
      let ctx := { self.ctx with acc }
      let source ← BufferSource.rebuild ctx self.start self.stop newPos
      some ({ self with ctx, source, buf := Buffer.new, pos := newPos },
        .ok newPos)

end SeekingReader

/-! ## The two adapters -/

inductive StreamBackground where
  | finish (position fuel : Nat)
  | finishAwaited (fuel : Nat)

variable [Read R]

instance : BufferSource R (BufferStream R) where
  rebuild ctx start stop newPos := do
    let size ← checkedSub (← checkedSub stop start) newPos
    some (.new ctx (newPos + start) (some size))
  next := BufferStream.pollNext
  Background := StreamBackground
  background stream
    | .finish position fuel => stream.finish position fuel
    | .finishAwaited fuel => stream.finishAwaited fuel

instance : BufferSource R (BufferIterator R) where
  rebuild ctx start stop newPos :=
    BufferIterator.new ctx ⟨.included (newPos + start), .excluded stop⟩
  next iter := some iter.nextRound
  Background := Empty
  background _ event := nomatch event

abbrev FuturesAsyncReader (R : Type) : Type :=
  SeekingReader R (BufferStream R)

abbrev StdReader (R : Type) : Type :=
  SeekingReader R (BufferIterator R)

end OpenDal
