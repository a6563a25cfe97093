import Mathlib.Algebra.Order.BigOperators.Group.List
import Mathlib.Algebra.Order.Ring.Canonical
import Mathlib.Algebra.Order.Ring.Nat
import OpenDal.Raw.QueueBuf
import OpenDal.Types.Error

/-!
# `WriteGenerator` and the public `Writer`

The generator groups what it is given into chunks for the writer of the
service.  That writer is modelled by what can be seen of it: the calls it has
received, and the answer to each of them, which is arbitrary.

The loops of `Writer::write` and `WriteGenerator::close` take a bound on
their iterations; `none` means that the bound was too small or that `advance`
panicked.
-/

namespace OpenDal

/-- A call of `oio::Write`. -/
inductive WriterCall where
  | write (bs : Buffer)
  | close
  | abort
deriving DecidableEq

/-- A writer of a service: the answers it will give and the calls so far. -/
structure OioWriter where
  answers : Nat → Except Error Unit
  calls : List WriterCall

namespace OioWriter

/-- A writer that never fails and has not been called yet. -/
def infallible : OioWriter :=
  { answers := fun _ => .ok ()
    calls := [] }

def call (w : OioWriter) (request : WriterCall) :
    Except Error Unit × OioWriter :=
  (w.answers w.calls.length, { w with calls := w.calls ++ [request] })

end OioWriter

structure WriteGenerator where
  w : OioWriter
  chunkSize : Option Nat
  exact : Bool
  buffer : QueueBuf

namespace WriteGenerator

def new (w : OioWriter) (chunkSize : Option Nat) (exact : Bool) :
    WriteGenerator :=
  { w
    chunkSize
    exact
    buffer := QueueBuf.new }

/-- `self.buffer.take().collect()` handed to the writer.  The queue is empty
afterwards whatever the writer answers. -/
def writeQueued (generator : WriteGenerator) :
    Except Error Unit × WriteGenerator :=
  let (taken, left) := generator.buffer.take
  let (answer, w) := generator.w.call (.write taken.collect)
  (answer, { generator with w, buffer := left })

/-- The number of bytes of `bs` that were accepted. -/
def write (generator : WriteGenerator) (bs : Buffer) :
    Except Error Nat × WriteGenerator :=
  match generator.chunkSize with
  | none =>
      let size := bs.len
      let (answer, w) := generator.w.call (.write bs)
      (answer.map fun _ => size, { generator with w })
  | some chunkSize =>
      if generator.buffer.len + bs.len < chunkSize then
        (.ok bs.len, { generator with buffer := generator.buffer.push bs })
      else if !generator.exact then
        let fillSize := bs.len
        let (answer, generator) :=
          { generator with buffer := generator.buffer.push bs }.writeQueued
        (answer.map fun _ => fillSize, generator)
      else
        let (answer, generator) :=
          if chunkSize ≤ generator.buffer.len then
            generator.writeQueued
          else
            (.ok (), generator)
        match answer with
        | .error err => (.error err, generator)
        | .ok () =>
            let remaining := chunkSize - generator.buffer.len
            let bs := bs.truncate remaining
            (.ok bs.len, { generator with buffer := generator.buffer.push bs })

def close : Nat → WriteGenerator →
    Option (Except Error Unit × WriteGenerator)
  | 0, _ => none
  | fuel + 1, generator =>
      if generator.buffer.isEmpty then
        let (answer, w) := generator.w.call .close
        some (answer, { generator with w })
      else
        match generator.writeQueued with
        | (.error err, generator) => some (.error err, generator)
        | (.ok (), generator) => close fuel generator

end WriteGenerator

/-- `Option<WriteGenerator>` as the adapters keep it.  A generator that was
closed is dropped; the calls that the service has received stay, and nothing
but the results reads them. -/
inductive WriteHandle where
  | opened (generator : WriteGenerator)
  | closed (calls : List WriterCall)

namespace WriteHandle

def calls : WriteHandle → List WriterCall
  | opened generator => generator.w.calls
  | closed calls => calls

end WriteHandle

/-- The bytes of the calls in order. -/
def WriterCall.bytes : WriterCall → Bytes
  | write bs => bs.bytes
  | close => []
  | abort => []

@[simp] theorem flatMap_bytes_write (written : List Buffer) :
    (written.map WriterCall.write).flatMap WriterCall.bytes =
      written.flatMap Buffer.bytes := by
  rw [List.flatMap_map]
  rfl

namespace Writer

/-- `Writer::write`: hand the buffer to the generator until all of it has been
accepted. -/
def write : Nat → WriteGenerator → Buffer →
    Option (Except Error Unit × WriteGenerator)
  | 0, _, _ => none
  | fuel + 1, inner, bs =>
      if bs.isEmpty then
        some (.ok (), inner)
      else
        match inner.write bs with
        | (.error err, inner) => some (.error err, inner)
        | (.ok n, inner) => do
            let rest ← bs.advance n
            write fuel inner rest

/-- A sequence of `write` calls, stopping at the first error. -/
def writeAll (fuel : Nat) : WriteGenerator → List Buffer →
    Option (Except Error Unit × WriteGenerator)
  | inner, [] => some (.ok (), inner)
  | inner, bs :: rest => do
      match ← write fuel inner bs with
      | (.error err, inner) => some (.error err, inner)
      | (.ok (), inner) => writeAll fuel inner rest

/-- A sequence of `write` calls followed by `close`. -/
def writeAllAndClose (fuel : Nat) (inner : WriteGenerator)
    (inputs : List Buffer) : Option (Except Error Unit × WriteGenerator) := do
  match ← writeAll fuel inner inputs with
  | (.error err, inner) => some (.error err, inner)
  | (.ok (), inner) => inner.close fuel

end Writer

/-! ## The invariant of a writer that never fails -/

namespace WriteGenerator

/-- A chunk that may be followed by another one. -/
def FullChunk (chunkSize : Option Nat) (exact : Bool) (bs : Buffer) : Prop :=
  ∀ size, chunkSize = some size →
    if exact then bs.len = size else size ≤ bs.len

/-- `accepted` is what the callers have handed over so far; `writes` is what
has reached the service. -/
structure Consistent (chunkSize : Option Nat) (exact : Bool)
    (accepted : Bytes) (writes : List Buffer)
    (generator : WriteGenerator) : Prop where
  settings : generator.chunkSize = chunkSize ∧ generator.exact = exact
  infallible : ∀ count, generator.w.answers count = .ok ()
  written : generator.w.calls = writes.map .write
  complete : accepted = writes.flatMap Buffer.bytes ++ generator.buffer.bytes
  full : ∀ bs ∈ writes, FullChunk chunkSize exact bs
  bounded : ∀ size, chunkSize = some size → exact = true →
    generator.buffer.len ≤ size
  unbuffered : chunkSize = none → generator.buffer.bytes = []

variable {chunkSize : Option Nat} {exact : Bool} {accepted : Bytes}
  {writes : List Buffer} {generator : WriteGenerator}

theorem consistent_new (chunkSize : Option Nat) (exact : Bool) :
    Consistent chunkSize exact [] [] (new .infallible chunkSize exact) where
  settings := ⟨rfl, rfl⟩
  infallible := fun _ => rfl
  written := rfl
  complete := rfl
  full := by simp
  bounded := by simp [new]
  unbuffered := by simp [new]

theorem Consistent.push {size : Nat}
    (consistent : Consistent (some size) exact accepted writes generator)
    (bs : Buffer)
    (fits : exact = true → generator.buffer.len + bs.len ≤ size) :
    Consistent (some size) exact (accepted ++ bs.bytes) writes
      { generator with buffer := generator.buffer.push bs } where
  settings := consistent.settings
  infallible := consistent.infallible
  written := consistent.written
  complete := by simp [consistent.complete]
  full := consistent.full
  bounded := by
    intro other same isExact
    cases same
    simpa using fits isExact
  unbuffered := by simp

theorem Consistent.writeQueued
    (consistent : Consistent chunkSize exact accepted writes generator)
    (full : FullChunk chunkSize exact generator.buffer.collect) :
    ∃ flushed, generator.writeQueued = (.ok (), flushed) ∧
      flushed.buffer = QueueBuf.new ∧
      Consistent chunkSize exact accepted
        (writes ++ [generator.buffer.collect]) flushed := by
  refine ⟨_, by
    simp only [WriteGenerator.writeQueued, OioWriter.call,
      consistent.infallible]
    rfl, rfl, ?_⟩
  exact
    { settings := consistent.settings
      infallible := consistent.infallible
      written := by simp [consistent.written, QueueBuf.take]
      complete := by simp [consistent.complete, QueueBuf.take]
      full := by
        intro bs member
        rcases List.mem_append.mp member with earlier | last
        · exact consistent.full bs earlier
        · rw [List.mem_singleton.mp last]
          exact full
      bounded := by simp [QueueBuf.take]
      unbuffered := by simp [QueueBuf.take] }

theorem Consistent.writeThrough
    (consistent : Consistent none exact accepted writes generator)
    (bs : Buffer) :
    ∃ passed, generator.write bs = (.ok bs.len, passed) ∧
      Consistent none exact (accepted ++ bs.bytes) (writes ++ [bs]) passed := by
  obtain ⟨w, size, isExact, buffer⟩ := generator
  obtain ⟨rfl, rfl⟩ : size = none ∧ isExact = exact := consistent.settings
  have queued : buffer.bytes = [] := consistent.unbuffered rfl
  have called : w.calls = writes.map .write := consistent.written
  have answer : w.answers w.calls.length = .ok () := consistent.infallible _
  refine ⟨_, by
    simp only [WriteGenerator.write, OioWriter.call, answer]
    rfl, ?_⟩
  exact
    { settings := ⟨rfl, rfl⟩
      infallible := consistent.infallible
      written := by simp [called]
      complete := by simp [consistent.complete, queued]
      full := by simp [FullChunk]
      bounded := by simp
      unbuffered := fun _ => queued }

theorem Consistent.write_inexact {size : Nat}
    (consistent : Consistent (some size) false accepted writes generator)
    (bs : Buffer) :
    ∃ later, generator.write bs = (.ok bs.len, later) ∧
      (generator.buffer.len + bs.len < size ∧
          later.buffer.len = generator.buffer.len + bs.len ∧
          Consistent (some size) false (accepted ++ bs.bytes) writes later ∨
        size ≤ generator.buffer.len + bs.len ∧ later.buffer.len = 0 ∧
          ∃ handed, handed.len = generator.buffer.len + bs.len ∧
            Consistent (some size) false (accepted ++ bs.bytes)
              (writes ++ [handed]) later) := by
  obtain ⟨w, chunk, isExact, buffer⟩ := generator
  obtain ⟨rfl, rfl⟩ : chunk = some size ∧ isExact = false :=
    consistent.settings
  have pushed := consistent.push bs (by simp)
  by_cases small : buffer.len + bs.len < size
  · exact ⟨_, by simp only [WriteGenerator.write, small, if_true],
      .inl ⟨small, by simp, pushed⟩⟩
  · obtain ⟨flushed, result, emptied, kept⟩ := pushed.writeQueued (by
      intro other same
      cases same
      simpa using small)
    refine ⟨flushed, by
      simp only [WriteGenerator.write, small, if_false, result,
        Bool.not_false, if_true, Except.map], .inr ⟨Nat.not_lt.mp small, ?_, _, ?_, kept⟩⟩
    · rw [emptied]
      rfl
    · simp

/-- Exact mode, with the queue not full: the buffer is cut to the room that is
left in the chunk. -/
theorem Consistent.writeExact {size : Nat}
    (consistent : Consistent (some size) true accepted writes generator)
    (bs : Buffer) (n : Nat)
    (cut : n = min (size - generator.buffer.len) bs.len)
    (room : generator.buffer.len ≤ size) :
    (bs.truncate (size - generator.buffer.len)).len = n ∧
      Consistent (some size) true (accepted ++ bs.bytes.take n) writes
        { generator with
          buffer := generator.buffer.push
            (bs.truncate (size - generator.buffer.len)) } := by
  have length : (bs.truncate (size - generator.buffer.len)).len =
      min (size - generator.buffer.len) bs.len :=
    bs.len_truncate _
  refine ⟨length.trans cut.symm, ?_⟩
  have kept := consistent.push (bs.truncate (size - generator.buffer.len))
    fun _ => by omega
  rw [Buffer.bytes_truncate] at kept
  rw [cut, ← Buffer.length_bytes, ← List.take_eq_take_min]
  exact kept

/-- In exact chunks the queue is filled up to a chunk, and a full chunk in it
goes out first. -/
theorem Consistent.write_exact {size : Nat}
    (consistent : Consistent (some size) true accepted writes generator)
    (bs : Buffer) :
    ∃ n later written, generator.write bs = (.ok n, later) ∧ n ≤ bs.len ∧
      (0 < bs.len → (0 < n ↔ size ≠ 0)) ∧
      (∀ handed ∈ written, handed ∈ writes ∨ handed.len = size) ∧
      Consistent (some size) true (accepted ++ bs.bytes.take n) written
        later := by
  obtain ⟨w, chunk, isExact, buffer⟩ := generator
  obtain ⟨rfl, rfl⟩ : chunk = some size ∧ isExact = true :=
    consistent.settings
  by_cases small : buffer.len + bs.len < size
  · have whole : bs.bytes.take bs.len = bs.bytes :=
      List.take_of_length_le (by simp)
    refine ⟨bs.len, _, writes, by
      simp only [WriteGenerator.write, small, if_true]
      rfl, Nat.le_refl _, ?_, fun _ member => .inl member, ?_⟩
    · intro nonempty
      omega
    · rw [whole]
      exact consistent.push bs fun _ => Nat.le_of_lt small
  · by_cases full : size ≤ buffer.len
    · -- The queue holds exactly one chunk, which goes out first.
      have exactly : buffer.len = size :=
        Nat.le_antisymm (consistent.bounded size rfl rfl) full
      obtain ⟨flushed, result, emptied, kept⟩ :=
        consistent.writeQueued (by
          intro other same
          cases same
          simpa using exactly)
      have noBytes : flushed.buffer.len = 0 := by
        rw [emptied]
        rfl
      obtain ⟨length, later⟩ := kept.writeExact bs
        (min (size - flushed.buffer.len) bs.len) rfl
        (by rw [noBytes]; exact Nat.zero_le _)
      refine ⟨_, _, _, ?_, Nat.min_le_right _ _, ?_, ?_, later⟩
      · simp only [WriteGenerator.write, small, if_false,
          Bool.not_true, Bool.false_eq_true, full, if_true, result,
          length]
      · intro nonempty
        omega
      · intro handed member
        rcases List.mem_append.mp member with earlier | last
        · exact .inl earlier
        · rw [List.mem_singleton.mp last]
          exact .inr (by simp [exactly])
    · have room : buffer.len < size := by omega
      obtain ⟨length, later⟩ := consistent.writeExact bs
        (min (size - buffer.len) bs.len) rfl (Nat.le_of_lt room)
      refine ⟨_, _, _, ?_, Nat.min_le_right _ _, ?_,
        fun _ member => .inl member, later⟩
      · simp only [WriteGenerator.write, small, if_false,
          Bool.not_true, Bool.false_eq_true, full, length]
      · intro nonempty
        omega

/-- The chunks have to be exact, and of no bytes at all. -/
def Stuck (chunkSize : Option Nat) (exact : Bool) : Prop :=
  chunkSize = some 0 ∧ exact = true

instance (chunkSize : Option Nat) (exact : Bool) :
    Decidable (Stuck chunkSize exact) :=
  inferInstanceAs (Decidable (_ ∧ _))

theorem not_stuck (positive : ∀ size, chunkSize = some size → 1 ≤ size) :
    ¬ Stuck chunkSize exact := by
  intro stuck
  have impossible := positive 0 stuck.1
  omega

/-- What a write of `bs` hands to the service: one exact chunk, or all that
is queued together with `bs`. -/
def Hands (generator : WriteGenerator) (bs handed : Buffer) : Prop :=
  (generator.exact = true ∧ generator.chunkSize = some handed.len) ∨
  handed.len = generator.buffer.len + bs.len

theorem Hands.of_mem_concat {bs handed other : Buffer}
    (hands : generator.Hands bs handed) (member : other ∈ writes ++ [handed]) :
    other ∈ writes ∨ generator.Hands bs other := by
  rcases List.mem_append.mp member with earlier | last
  · exact .inl earlier
  · rw [List.mem_singleton.mp last]
    exact .inr hands

/-- One call of `WriteGenerator::write` accepts a front part of the buffer,
and nothing of a non-empty one only in chunks of no bytes.  It hands at most
one buffer to the service. -/
theorem Consistent.accepts
    (consistent : Consistent chunkSize exact accepted writes generator)
    (bs : Buffer) :
    ∃ n later written, generator.write bs = (.ok n, later) ∧ n ≤ bs.len ∧
      (0 < bs.len → (0 < n ↔ ¬ Stuck chunkSize exact)) ∧
      (∀ handed ∈ written, handed ∈ writes ∨ generator.Hands bs handed) ∧
      Consistent chunkSize exact (accepted ++ bs.bytes.take n) written
        later := by
  have whole : bs.bytes.take bs.len = bs.bytes :=
    List.take_of_length_le (by simp)
  cases chunkSize with
  | none =>
      obtain ⟨passed, result, kept⟩ := consistent.writeThrough bs
      refine ⟨bs.len, passed, writes ++ [bs], result, Nat.le_refl _, ?_, ?_,
        ?_⟩
      · simp [Stuck]
      · have empty : generator.buffer.len = 0 := by
          rw [← QueueBuf.length_bytes, consistent.unbuffered rfl,
            List.length_nil]
        have hands : generator.Hands bs bs := .inr (by rw [empty, Nat.zero_add])
        exact fun _ => hands.of_mem_concat
      · rw [whole]
        exact kept
  | some size =>
      cases exact with
      | false =>
          obtain ⟨later, result, ⟨small, _, kept⟩ | ⟨_, _, handed, len, kept⟩⟩ :=
            consistent.write_inexact bs
          · refine ⟨bs.len, later, writes, result, Nat.le_refl _, ?_,
              fun _ member => .inl member, ?_⟩
            · simp [Stuck]
            · rw [whole]
              exact kept
          · have hands : generator.Hands bs handed := .inr len
            refine ⟨bs.len, later, writes ++ [handed], result, Nat.le_refl _,
              ?_, fun _ => hands.of_mem_concat, ?_⟩
            · simp [Stuck]
            · rw [whole]
              exact kept
      | true =>
          obtain ⟨chunk, isExact⟩ := consistent.settings
          obtain ⟨n, later, written, result, bound, progress, sizes, kept⟩ :=
            consistent.write_exact bs
          refine ⟨n, later, written, result, bound, ?_, ?_, kept⟩
          · intro nonempty
            rw [progress nonempty]
            simp [Stuck]
          · intro handed member
            rcases sizes handed member with earlier | len
            · exact .inl earlier
            · exact .inr (.inl ⟨isExact, by rw [chunk, len]⟩)

theorem Consistent.close
    (consistent : Consistent chunkSize exact accepted writes generator)
    (fuel : Nat) :
    ∃ closed, ∃ written : List Buffer,
      generator.close (fuel + 2) = some (.ok (), closed) ∧
      closed.w.calls = written.map .write ++ [.close] ∧
      written.flatMap Buffer.bytes = accepted ∧
      (∀ bs ∈ written, bs ∈ writes ∨
        0 < bs.len ∧ bs.len = generator.buffer.len) ∧
      (∀ bs ∈ written.dropLast, bs ∈ writes) ∧
      ∀ bs ∈ writes, bs ∈ written := by
  obtain ⟨w, size, isExact, buffer⟩ := generator
  have called : w.calls = writes.map .write := consistent.written
  have answers : ∀ count, w.answers count = .ok () := consistent.infallible
  by_cases empty : buffer.isEmpty = true
  · refine ⟨_, writes, by
      simp only [WriteGenerator.close, empty, if_true, OioWriter.call, answers]
      rfl, by simp [called], ?_, fun _ member => .inl member, ?_,
      fun _ member => member⟩
    · simp [consistent.complete, (QueueBuf.isEmpty_iff buffer).mp empty]
    · intro bs member
      exact List.dropLast_subset _ member
  · have drained : QueueBuf.new.isEmpty = true := rfl
    refine ⟨_, writes ++ [buffer.collect], by
      simp only [WriteGenerator.close, empty, if_false, Bool.false_eq_true,
        WriteGenerator.writeQueued, QueueBuf.take, OioWriter.call, answers,
        drained, if_true]
      rfl, by simp [called], by simp [consistent.complete], ?_, ?_,
      fun _ member => List.mem_append_left _ member⟩
    · intro bs member
      rcases List.mem_append.mp member with earlier | last
      · exact .inl earlier
      · have queued : 0 < buffer.len := by
          rw [← QueueBuf.length_bytes]
          exact List.length_pos_iff.mpr
            fun none => empty ((QueueBuf.isEmpty_iff buffer).mpr none)
        rw [List.mem_singleton.mp last]
        exact .inr (by simpa using queued)
    · intro bs member
      rw [List.dropLast_concat] at member
      exact member

end WriteGenerator

namespace Writer

open WriteGenerator

variable {chunkSize : Option Nat} {exact : Bool} {accepted : Bytes}
  {writes : List Buffer} {inner : WriteGenerator}

/-- Every iteration accepts at least one byte, so as many iterations as there
are bytes are enough.  None of them hands over an empty buffer. -/
theorem write_spec (free : ¬ Stuck chunkSize exact)
    (consistent : Consistent chunkSize exact accepted writes inner)
    {bs : Buffer} {fuel : Nat} (enough : bs.len < fuel) :
    ∃ later written, write fuel inner bs = some (.ok (), later) ∧
      Consistent chunkSize exact (accepted ++ bs.bytes) written later ∧
      ∀ handed ∈ written, handed ∈ writes ∨ 0 < handed.len := by
  induction fuel generalizing inner accepted writes bs with
  | zero => omega
  | succ fuel induction =>
      by_cases empty : bs.isEmpty = true
      · refine ⟨inner, writes, by simp [write, empty], ?_,
          fun _ member => .inl member⟩
        rw [(Buffer.isEmpty_iff bs).mp empty, List.append_nil]
        exact consistent
      · have nonempty : 0 < bs.len := Buffer.len_pos (by simpa using empty)
        obtain ⟨n, later, written, result, bound, progress, hands, kept⟩ :=
          consistent.accepts bs
        have moves := (progress nonempty).mpr free
        obtain ⟨rest, advanced, restBytes⟩ := Buffer.advance_spec bound
        have shorter : rest.len < fuel := by
          rw [← Buffer.length_bytes, restBytes, List.length_drop,
            Buffer.length_bytes]
          omega
        obtain ⟨final, finalWrites, finished, finalKept, finalHands⟩ :=
          induction kept shorter
        refine ⟨final, finalWrites, ?_, ?_, ?_⟩
        · simp [write, empty, result, advanced, finished]
        · rw [restBytes, List.append_assoc, List.take_append_drop] at finalKept
          exact finalKept
        · intro handed member
          rcases finalHands handed member with earlier | filled
          · rcases hands handed earlier with earlier | chunk | whole
            · exact .inl earlier
            · -- A chunk of the exact size.
              obtain ⟨isExact, size⟩ := chunk
              obtain ⟨sameSize, sameExact⟩ := consistent.settings
              apply Or.inr
              apply Nat.pos_of_ne_zero
              intro none
              apply free
              rw [none, sameSize] at size
              exact ⟨size, sameExact ▸ isExact⟩
            · exact .inr (by omega)
          · exact .inr filled

theorem writeAll_spec (free : ¬ Stuck chunkSize exact)
    (consistent : Consistent chunkSize exact accepted writes inner)
    {inputs : List Buffer} {fuel : Nat}
    (enough : ∀ bs ∈ inputs, bs.len < fuel) :
    ∃ later written, writeAll fuel inner inputs = some (.ok (), later) ∧
      Consistent chunkSize exact
        (accepted ++ inputs.flatMap Buffer.bytes) written later ∧
      ∀ handed ∈ written, handed ∈ writes ∨ 0 < handed.len := by
  induction inputs generalizing inner accepted writes with
  | nil =>
      exact ⟨inner, writes, rfl, by simpa using consistent,
        fun _ member => .inl member⟩
  | cons bs inputs induction =>
      obtain ⟨next, nextWrites, result, kept, hands⟩ :=
        write_spec free consistent (enough bs (by simp))
      obtain ⟨later, written, rest, finished, laterHands⟩ :=
        induction kept fun bs member => enough bs (by simp [member])
      refine ⟨later, written, by simp [writeAll, result, rest],
        by simpa using finished, ?_⟩
      intro handed member
      rcases laterHands handed member with earlier | filled
      · exact hands handed earlier
      · exact .inr filled

/-- A sequence of writes followed by `close`, on a generator that can move
on. -/
theorem writeAllAndClose_spec (free : ¬ Stuck chunkSize exact)
    (inputs : List Buffer) :
    ∃ fuel later closed, ∃ writes written : List Buffer,
      writeAllAndClose fuel (.new .infallible chunkSize exact) inputs =
        some (.ok (), closed) ∧
      closed.w.calls = written.map .write ++ [.close] ∧
      written.flatMap Buffer.bytes = inputs.flatMap Buffer.bytes ∧
      Consistent chunkSize exact (inputs.flatMap Buffer.bytes) writes later ∧
      (∀ bs ∈ writes, 0 < bs.len) ∧
      (∀ bs ∈ written, bs ∈ writes ∨
        0 < bs.len ∧ bs.len = later.buffer.len) ∧
      ∀ bs ∈ written.dropLast, bs ∈ writes := by
  let total := (inputs.map Buffer.len).sum
  have enough : ∀ bs ∈ inputs, bs.len < total + 2 := by
    intro bs member
    have bound : bs.len ≤ total :=
      List.le_sum_of_mem (List.mem_map_of_mem member)
    omega
  obtain ⟨later, writes, wrote, kept, hands⟩ :=
    writeAll_spec free (consistent_new chunkSize exact) enough
  obtain ⟨closed, written, finished, calls, bytes, lasts, firsts, _⟩ :=
    kept.close total
  refine ⟨total + 2, later, closed, writes, written, ?_, calls,
    by simpa using bytes, by simpa using kept, ?_, lasts, firsts⟩
  · simp [writeAllAndClose, wrote, finished]
  · intro bs member
    rcases hands bs member with impossible | filled
    · cases impossible
    · exact filled

/-- Every sequence of writes followed by `close` ends, the service receives
the bytes in order and is closed once after them, and every chunk but the last
has the configured size. -/
theorem writeAllAndClose_chunks (chunkSize : Option Nat) (exact : Bool)
    (positive : ∀ size, chunkSize = some size → 1 ≤ size)
    (inputs : List Buffer) :
    ∃ fuel closed, ∃ written : List Buffer,
      writeAllAndClose fuel (.new .infallible chunkSize exact) inputs =
        some (.ok (), closed) ∧
      closed.w.calls = written.map .write ++ [.close] ∧
      written.flatMap Buffer.bytes = inputs.flatMap Buffer.bytes ∧
      ∀ size, chunkSize = some size → ∀ bs ∈ written.dropLast,
        if exact then bs.len = size else size ≤ bs.len := by
  obtain ⟨fuel, later, closed, writes, written, finished, calls, bytes, kept,
    _, _, firsts⟩ := writeAllAndClose_spec (not_stuck positive) inputs
  refine ⟨fuel, closed, written, finished, calls, bytes, ?_⟩
  intro size same bs member
  exact kept.full bs (firsts bs member) size same

/-- Seven bytes in exact chunks of three. -/
theorem writeAllAndClose_chunks_three :
    ∃ fuel closed, ∃ written : List Buffer,
      writeAllAndClose fuel (.new .infallible (some 3) true)
        [.fromVecBytes [[1, 2], [], [3, 4, 5]], .new, .fromBytes [6, 7]] =
          some (.ok (), closed) ∧
      closed.w.calls = written.map .write ++ [.close] ∧
      written.flatMap Buffer.bytes = [1, 2, 3, 4, 5, 6, 7] ∧
      ∀ size, some 3 = some size → ∀ bs ∈ written.dropLast,
        if true then bs.len = size else size ≤ bs.len :=
  writeAllAndClose_chunks (some 3) true (by simp)
    [.fromVecBytes [[1, 2], [], [3, 4, 5]], .new, .fromBytes [6, 7]]

end Writer

end OpenDal
