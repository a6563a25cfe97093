import Mathlib.Algebra.GroupWithZero.Nat
import OpenDal.Segments

/-!
# `Buffer`: contiguous and non-contiguous bytes

The operations are embedded on the raw representation `Buffer.Inner`.  They
return `none` where the code panics: a failed assertion, an index or a slice
out of bounds, a subtraction below zero.  Sizes are natural numbers.

A `Buffer` is a raw value together with the invariant that every constructor
establishes and every operation keeps; `OpenDal.Types.BufferSequence` shows
that the operations cannot panic on it.
-/

namespace OpenDal

/-- A reference counted slice of memory; only its content is observable. -/
abbrev Bytes : Type := List UInt8

/-- `Bytes::slice(begin..end)`. -/
def Bytes.slice (bytes : Bytes) (start stop : Nat) : Option Bytes :=
  if start ≤ stop ∧ stop ≤ bytes.length then
    some ((bytes.drop start).take (stop - start))
  else
    none

/-- Subtraction of two `usize`, which must not go below zero. -/
def checkedSub (left right : Nat) : Option Nat :=
  if right ≤ left then some (left - right) else none

/-- Addition of two `u64`, which must not overflow. -/
def checkedAdd (left right : Nat) : Option Nat :=
  if left + right < 2 ^ 64 then some (left + right) else none

theorem isSome_checkedAdd {left right : Nat} :
    (checkedAdd left right).isSome ↔ left + right < 2 ^ 64 := by
  unfold checkedAdd
  split
  · rename_i fits
    exact ⟨fun _ => fits, fun _ => rfl⟩
  · rename_i large
    constructor
    · intro sum
      cases sum
    · intro fits
      exact absurd fits large

/-- The sum of two `u64` that does not overflow is their sum. -/
theorem eq_of_checkedAdd {left right sum : Nat}
    (added : checkedAdd left right = some sum) : sum = left + right := by
  unfold checkedAdd at added
  split at added <;> cases added
  rfl

inductive Bound where
  | included (value : Nat)
  | excluded (value : Nat)
  | unbounded
deriving DecidableEq, Repr

/-- `impl RangeBounds<usize>`. -/
structure RangeBounds where
  startBound : Bound
  endBound : Bound
deriving DecidableEq, Repr

namespace Buffer

inductive Inner where
  | contiguous (bytes : Bytes)
  | nonContiguous (parts : List Bytes) (size idx offset : Nat)
deriving DecidableEq, Repr

namespace Inner

/-- `Buffer::new`. -/
def new : Inner := .contiguous []

/-! ## Constructors -/

def fromVecU8 (bytes : List UInt8) : Inner := .contiguous bytes

def fromBytes (bytes : Bytes) : Inner := .contiguous bytes

/-- The conversions from a collection of parts share one body: the size is
the sum of the part lengths and the cursor starts at the first part. -/
def fromParts (parts : List Bytes) : Inner :=
  .nonContiguous parts (parts.map List.length).sum 0 0

def fromVecDequeBytes (parts : List Bytes) : Inner := fromParts parts

def fromVecBytes (parts : List Bytes) : Inner := fromParts parts

def fromArcBytes (parts : List Bytes) : Inner := fromParts parts

/-- `FromIterator<Bytes>` counts the size while it collects the parts. -/
def fromIterBytes (items : List Bytes) : Inner :=
  .nonContiguous items
    (items.foldl (fun size item => size + item.length) 0) 0 0

/-! ## Operations -/

def len : Inner → Nat
  | .contiguous bytes => bytes.length
  | .nonContiguous _ size _ _ => size

def isEmpty (buffer : Inner) : Bool :=
  buffer.len == 0

def truncate (buffer : Inner) (newLen : Nat) : Inner :=
  match buffer with
  | .contiguous bytes => .contiguous (bytes.take newLen)
  | .nonContiguous parts size idx offset =>
      .nonContiguous parts (min size newLen) idx offset

/-- The loop of `Buf::advance`.  The first argument is what is left of `parts`
from `newIdx` on; running out of it is an index out of bounds. -/
def advanceLoop : List Bytes → Nat → Nat → Nat → Option (Nat × Nat)
  | _, newIdx, newOffset, 0 => some (newIdx, newOffset)
  | [], _, _, _ + 1 => none
  | part :: rest, newIdx, newOffset, remainingCnt + 1 => do
      let remainingInPart ← checkedSub part.length newOffset
      if remainingCnt + 1 < remainingInPart then
        some (newIdx, newOffset + (remainingCnt + 1))
      else
        advanceLoop rest (newIdx + 1) 0 (remainingCnt + 1 - remainingInPart)

/-- `Buf::advance`. -/
def advance (buffer : Inner) (cnt : Nat) : Option Inner :=
  match buffer with
  | .contiguous bytes =>
      if cnt ≤ bytes.length then some (.contiguous (bytes.drop cnt)) else none
  | .nonContiguous parts size idx offset =>
      if cnt ≤ size then do
        let (newIdx, newOffset) ← advanceLoop (parts.drop idx) idx offset cnt
        some (.nonContiguous parts (size - cnt) newIdx newOffset)
      else
        none

/-- The first position of a range, as `slice` computes it. -/
def sliceBegin (range : RangeBounds) : Nat :=
  match range.startBound with
  | .included value => value
  | .excluded value => value + 1
  | .unbounded => 0

/-- The position after the last one of a range, as `slice` computes it. -/
def sliceEnd (range : RangeBounds) (length : Nat) : Nat :=
  match range.endBound with
  | .included value => value + 1
  | .excluded value => value
  | .unbounded => length

def slice (buffer : Inner) (range : RangeBounds) : Option Inner :=
  let start := sliceBegin range
  let stop := sliceEnd range buffer.len
  if start ≤ stop ∧ stop ≤ buffer.len then
    if stop = start then some new else (buffer.truncate stop).advance start
  else
    none

/-- `Iterator::next`: the item, if there is one, and the buffer after it. -/
def next : Inner → Option (Option Bytes × Inner)
  | .contiguous bytes =>
      if bytes.isEmpty then
        some (none, .contiguous bytes)
      else
        some (some bytes, .contiguous [])
  | .nonContiguous parts size idx offset =>
      if size = 0 then
        some (none, .nonContiguous parts size idx offset)
      else do
        let chunk ← parts[idx]?
        let n := min (← checkedSub chunk.length offset) size
        let item ← Bytes.slice chunk offset (offset + n)
        if offset + n = chunk.length then
          some (some item, .nonContiguous parts (size - n) (idx + 1) 0)
        else
          some (some item, .nonContiguous parts (size - n) idx (offset + n))

/-- `Buf::remaining`. -/
def remaining (buffer : Inner) : Nat := buffer.len

/-- `Buf::chunk`. -/
def chunk : Inner → Option Bytes
  | .contiguous bytes => some bytes
  | .nonContiguous parts size idx offset =>
      if size = 0 then
        some []
      else do
        let part ← parts[idx]?
        let n := min (← checkedSub part.length offset) size
        Bytes.slice part offset (offset + n)

/-- A bound on the number of calls of `next` that iteration still makes. -/
def iterFuel : Inner → Nat
  | .contiguous bytes => if bytes.isEmpty then 1 else 2
  | .nonContiguous parts size idx _ =>
      if size = 0 then 1 else parts.length - idx + 1

/-- Call `next` until it returns `None`, at most `fuel` times. -/
def iterateWith : Nat → Inner → Option (List Bytes)
  | 0, _ => none
  | fuel + 1, buffer => do
      match ← buffer.next with
      | (none, _) => some []
      | (some item, rest) => do
          let items ← iterateWith fuel rest
          some (item :: items)

/-- The items that iterating the buffer returns. -/
def iterate (buffer : Inner) : Option (List Bytes) :=
  iterateWith buffer.iterFuel buffer

/-! ## The representation invariant -/

/-- The cursor is valid and at least `size` bytes lie behind it. -/
def WellFormed : Inner → Prop
  | .contiguous _ => True
  | .nonContiguous parts size idx offset =>
      Segments.Valid parts idx offset ∧
        size ≤ (Segments.suffix parts idx offset).length

/-- The byte sequence a raw value stands for. -/
def content : Inner → Bytes
  | .contiguous bytes => bytes
  | .nonContiguous parts size idx offset =>
      (Segments.suffix parts idx offset).take size

end Inner

end Buffer

/-- A buffer whose representation invariant holds. -/
structure Buffer where
  inner : Buffer.Inner
  wellFormed : inner.WellFormed
deriving DecidableEq

end OpenDal
