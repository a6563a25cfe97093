import OpenDal.Types.SeekingReader

/-!
# Parsing ranges

A `RangeBounds<u64>` is turned into positions at three places: for a
`BytesRange`, for the range of an asynchronous reader and for that of a
blocking one.  All three add one to an excluded start and to an included end,
and all three subtract the start from the end, in `u64` and unchecked; `none`
is an overflow.

As long as nothing overflows these are the functions of
`OpenDal.Types.ReadGenerator`, which compute with natural numbers.
-/

namespace OpenDal

namespace Bound

/-- The first position. -/
def first : Bound → Option Nat
  | .included value => some value
  | .excluded value => checkedAdd value 1
  | .unbounded => some 0

/-- The position behind the last one; the inner `none` is that there is no
last one. -/
def behind : Bound → Option (Option Nat)
  | .included value => (checkedAdd value 1).map some
  | .excluded value => some (some value)
  | .unbounded => some none

end Bound

/-- `From<impl RangeBounds<u64>>`. -/
def BytesRange.parse (range : RangeBounds) : Option BytesRange := do
  let offset ← range.startBound.first
  match ← range.endBound.behind with
  | some stop =>
      let size ← checkedSub stop offset
      some ⟨offset, some size⟩
  | none => some ⟨offset, none⟩

variable {R : Type}

/-- `parse_into_range`. -/
def ReadContext.parseRange (ctx : ReadContext R) (range : RangeBounds) :
    Option (Except Error (Nat × Nat)) := do
  let start ← range.startBound.first
  match ← range.endBound.behind with
  | some stop => some (.ok (start, stop))
  | none =>
      some ((ctx.acc.stat ctx.path { version := ctx.args.version }).map
        fun stop => (start, stop))

namespace Reader

/-- `BufferStream::create`. -/
def intoStream (ctx : ReadContext R) (range : RangeBounds) :
    Option (Except Error (BufferStream R)) :=
  if ctx.options.chunk.isSome then do
    match ← ctx.parseRange range with
    | .error err => some (.error err)
    | .ok (start, stop) => do
        let range ← BytesRange.parse ⟨.included start, .excluded stop⟩
        some (.ok (.idle (.two (.new ctx range))))
  else do
    let range ← BytesRange.parse range
    some (.ok (.idle (.one (.new ctx range))))

def intoFuturesAsyncRead [Read R] (ctx : ReadContext R)
    (range : RangeBounds) : Option (Except Error (FuturesAsyncReader R)) := do
  match ← ctx.parseRange range with
  | .error err => some (.error err)
  | .ok (start, stop) =>
      let reader ← SeekingReader.new ctx start stop
      some (.ok reader)

end Reader

/-! ## `BlockingReader` -/

/-- `u64::MAX` stands for a length that is not known. -/
structure AtomicContentLength where
  value : Nat
deriving DecidableEq, Repr

namespace AtomicContentLength

def unknown : Nat := 2 ^ 64 - 1

def new : AtomicContentLength := ⟨unknown⟩

def load (length : AtomicContentLength) : Option Nat :=
  if length.value = unknown then none else some length.value

def store (_ : AtomicContentLength) (value : Nat) : AtomicContentLength :=
  ⟨value⟩

end AtomicContentLength

structure BlockingReader (R : Type) where
  ctx : ReadContext R
  size : AtomicContentLength

namespace BlockingReader

def new (ctx : ReadContext R) : BlockingReader R :=
  ⟨ctx, .new⟩

/-- The size of the reader is asked for once and cached. -/
def contentLength (self : BlockingReader R) :
    Except Error Nat × BlockingReader R :=
  match self.size.load with
  | some size => (.ok size, self)
  | none =>
      match self.ctx.acc.stat self.ctx.path { version := none } with
      | .error err => (.error err, self)
      | .ok size => (.ok size, { self with size := self.size.store size })

def parseRange (self : BlockingReader R) (range : RangeBounds) :
    Option (Except Error (Nat × Nat) × BlockingReader R) := do
  let start ← range.startBound.first
  match ← range.endBound.behind with
  | some stop => some (.ok (start, stop), self)
  | none =>
      let (size, self) := self.contentLength
      some (size.map fun stop => (start, stop), self)

def intoIterator (self : BlockingReader R) (range : RangeBounds) :
    Option (Except Error (BufferIterator R) × BlockingReader R) := do
  match ← self.parseRange range with
  | (.error err, self) => some (.error err, self)
  | (.ok (start, stop), self) =>
      let iter ← BufferIterator.new self.ctx ⟨.included start, .excluded stop⟩
      some (.ok iter, self)

def intoStdRead [Read R] (self : BlockingReader R) (range : RangeBounds) :
    Option (Except Error (StdReader R) × BlockingReader R) := do
  match ← self.parseRange range with
  | (.error err, self) => some (.error err, self)
  | (.ok (start, stop), self) =>
      let reader ← SeekingReader.new self.ctx start stop
      some (.ok reader, self)

variable [Read R]

/-- The loop of `read` over the iterator, at most `fuel` rounds. -/
def collect : Nat → List Buffer → BufferIterator R →
    Option (Except Error Buffer)
  | 0, _, _ => none
  | fuel + 1, bufs, iter =>
      match iter.nextRound with
      | (iter, .suspended ()) => collect fuel bufs iter
      | (_, .returned none) => some (.ok (Buffer.flatten bufs))
      | (iter, .returned (some (.ok buf))) => collect fuel (bufs ++ [buf]) iter
      | (_, .returned (some (.error err))) => some (.error err)
      | (_, .panicked _) => none

def read (self : BlockingReader R) (range : RangeBounds) (fuel : Nat) :
    Option (Except Error Buffer × BlockingReader R) := do
  match ← self.intoIterator range with
  | (.error err, self) => some (.error err, self)
  | (.ok iter, self) =>
      let result ← collect fuel [] iter
      some (result, self)

end BlockingReader

end OpenDal
