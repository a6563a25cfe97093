import OpenDal.Raw.Read

/-!
# `ReadContext` and `ReadGenerator`

A generator cuts the range to be read into the ranges of single requests: one
for everything, or one for each chunk.  It moves on before the request is
sent, so a request that fails is not sent again.

Of the arguments of an operation only those that these functions read or set
are kept.
-/

namespace OpenDal

/-- Offset and size of a range of content; without a size it is everything
from the offset on. -/
structure BytesRange where
  offset : Nat
  size : Option Nat
deriving DecidableEq, Repr

namespace BytesRange

def startOf : Bound → Nat
  | .included value => value
  | .excluded value => value + 1
  | .unbounded => 0

/-- `From<impl RangeBounds<u64>>`; `none` is the overflow of a range whose end
lies before its start. -/
def fromBounds (range : RangeBounds) : Option BytesRange :=
  let offset := startOf range.startBound
  match range.endBound with
  | .included value =>
      (checkedSub (value + 1) offset).map fun size => ⟨offset, some size⟩
  | .excluded value =>
      (checkedSub value offset).map fun size => ⟨offset, some size⟩
  | .unbounded => some ⟨offset, none⟩

theorem fromBounds_exclusive (offset size : Nat) :
    fromBounds ⟨.included offset, .excluded (offset + size)⟩ =
      some ⟨offset, some size⟩ := by
  simp [fromBounds, startOf, checkedSub]

end BytesRange

structure OpRead where
  range : BytesRange
  version : Option String
deriving DecidableEq

def OpRead.withRange (args : OpRead) (range : BytesRange) : OpRead :=
  { args with range }

structure OpStat where
  version : Option String
deriving DecidableEq

/-- Options of a reader; the setters raise both numbers to at least one. -/
structure OpReader where
  concurrent : Nat
  chunk : Option Nat
  concurrentPositive : 1 ≤ concurrent
  chunkPositive : ∀ size, chunk = some size → 1 ≤ size

namespace OpReader

def new : OpReader :=
  { concurrent := 1
    chunk := none
    concurrentPositive := Nat.le_refl 1
    chunkPositive := by simp }

def withConcurrent (options : OpReader) (concurrent : Nat) : OpReader :=
  { options with
    concurrent := max concurrent 1
    concurrentPositive := Nat.le_max_right concurrent 1 }

def withChunk (options : OpReader) (chunk : Nat) : OpReader :=
  { options with
    chunk := some (max chunk 1)
    chunkPositive := by
      intro size same
      cases same
      exact Nat.le_max_right chunk 1 }

end OpReader

/-- The operations of a service that reading uses.  `stat` answers with the
content length.  One read requests every range at most once, so a function of
the arguments can be any behaviour. -/
structure Accessor (R : Type) where
  read : String → OpRead → Except Error R
  stat : String → OpStat → Except Error Nat

/-- A service that answers every request byte by byte. -/
def bytewiseAccessor (content : Bytes) : Accessor ScriptedReader where
  read := fun _ args =>
    .ok (.bytewise ((content.drop args.range.offset).take
      (args.range.size.getD content.length)))
  stat := fun _ _ => .ok content.length

structure ReadContext (R : Type) where
  acc : Accessor R
  path : String
  args : OpRead
  options : OpReader
  /-- The capacity of `VecDeque::with_capacity(options.concurrent())`. -/
  capacity : Nat
  reserved : options.concurrent ≤ capacity

namespace ReadContext

variable {R : Type}

/-- The queue reserves what it is asked for and no more. -/
def new (acc : Accessor R) (path : String) (args : OpRead)
    (options : OpReader) : ReadContext R :=
  { acc
    path
    args
    options
    capacity := options.concurrent
    reserved := Nat.le_refl _ }

theorem capacity_pos (ctx : ReadContext R) : 0 < ctx.capacity :=
  Nat.lt_of_lt_of_le ctx.options.concurrentPositive ctx.reserved

/-- The range as start and end. -/
def parseIntoRange (ctx : ReadContext R) (range : RangeBounds) :
    Except Error (Nat × Nat) := do
  let start := BytesRange.startOf range.startBound
  match range.endBound with
  | .included value => .ok (start, value + 1)
  | .excluded value => .ok (start, value)
  | .unbounded =>
      let stop ← ctx.acc.stat ctx.path { version := ctx.args.version }
      .ok (start, stop)

/-- Bounds that determine the size are parsed without asking the service. -/
theorem parseIntoRange_of_fromBounds (ctx : ReadContext R)
    {range : RangeBounds} {offset size : Nat}
    (known : BytesRange.fromBounds range = some ⟨offset, some size⟩) :
    ctx.parseIntoRange range = .ok (offset, offset + size) := by
  cases bound : range.endBound with
  | unbounded => simp [BytesRange.fromBounds, bound] at known
  | included value =>
      simp only [BytesRange.fromBounds, bound, checkedSub,
        Option.map_eq_some_iff, Option.ite_none_right_eq_some,
        Option.some.injEq] at known
      obtain ⟨_, ⟨ordered, rfl⟩, same⟩ := known
      cases same
      simp [parseIntoRange, bound, Nat.add_sub_cancel' ordered]
  | excluded value =>
      simp only [BytesRange.fromBounds, bound, checkedSub,
        Option.map_eq_some_iff, Option.ite_none_right_eq_some,
        Option.some.injEq] at known
      obtain ⟨_, ⟨ordered, rfl⟩, same⟩ := known
      cases same
      simp [parseIntoRange, bound, Nat.add_sub_cancel' ordered]

end ReadContext

structure ReadGenerator (R : Type) where
  ctx : ReadContext R
  offset : Nat
  size : Option Nat

namespace ReadGenerator

variable {R : Type}

def new (ctx : ReadContext R) (offset : Nat) (size : Option Nat) :
    ReadGenerator R :=
  { ctx, offset, size }

/-- The size of the next request when `remaining` bytes are left. -/
def readSize (generator : ReadGenerator R) (remaining : Nat) : Nat :=
  match generator.ctx.options.chunk with
  | none => remaining
  | some chunk => min remaining chunk

def nextRange (generator : ReadGenerator R) :
    Option BytesRange × ReadGenerator R :=
  if generator.size = some 0 then
    (none, generator)
  else
    match generator.size with
    | none =>
        (some ⟨generator.offset, none⟩, { generator with size := some 0 })
    | some remaining =>
        let readSize := generator.readSize remaining
        (some ⟨generator.offset, some readSize⟩,
          { generator with
            offset := generator.offset + readSize
            size := some (remaining - readSize) })

/-- Send the request for a range. -/
def openRange (generator : ReadGenerator R) (range : BytesRange) :
    Except Error R :=
  generator.ctx.acc.read generator.ctx.path
    (generator.ctx.args.withRange range)

def nextReader (generator : ReadGenerator R) :
    Except Error (Option R) × ReadGenerator R :=
  match generator.nextRange with
  | (none, generator) => (.ok none, generator)
  | (some range, generator) =>
      ((generator.openRange range).map some, generator)

/-! ## Generators of a range that ends at `stop` -/

/-- The generator still has to produce what lies before `stop`. -/
def Ends (stop : Nat) (generator : ReadGenerator R) : Prop :=
  ∃ remaining, generator.size = some remaining ∧
    generator.offset + remaining = stop

theorem readSize_spec (generator : ReadGenerator R) {remaining : Nat}
    (positive : 0 < remaining) :
    0 < generator.readSize remaining ∧
      generator.readSize remaining ≤ remaining := by
  unfold readSize
  split
  · exact ⟨positive, Nat.le_refl _⟩
  · rename_i chunk chosen
    have chunkPositive := generator.ctx.options.chunkPositive chunk chosen
    omega

/-- What `next_reader` does: nothing at the end; before it, open a reader for
some bytes at the offset and move behind them. -/
theorem Ends.nextReader {stop : Nat} {generator : ReadGenerator R}
    (ends : generator.Ends stop) :
    generator.offset = stop ∧ generator.size = some 0 ∧
      generator.nextReader = (.ok none, generator) ∨
    ∃ size later, 0 < size ∧ generator.offset + size ≤ stop ∧
      generator.nextReader =
        ((generator.openRange ⟨generator.offset, some size⟩).map some, later) ∧
      later.ctx = generator.ctx ∧ later.offset = generator.offset + size ∧
      later.Ends stop := by
  obtain ⟨remaining, known, reaches⟩ := ends
  cases remaining with
  | zero =>
      left
      exact ⟨reaches, known, by
        simp [ReadGenerator.nextReader, ReadGenerator.nextRange, known]⟩
  | succ remaining =>
      right
      obtain ⟨positive, bounded⟩ :=
        generator.readSize_spec (show 0 < remaining + 1 by omega)
      refine ⟨generator.readSize (remaining + 1),
        { generator with
          offset := generator.offset + generator.readSize (remaining + 1)
          size := some (remaining + 1 - generator.readSize (remaining + 1)) },
        positive, by omega, ?_, rfl, rfl, ?_⟩
      · simp only [ReadGenerator.nextReader, ReadGenerator.nextRange, known,
          Option.some.injEq, Nat.succ_ne_zero, if_false]
        rfl
      · exact ⟨_, rfl, by simp only; omega⟩

end ReadGenerator

end OpenDal
