import OpenDal.Loop
import OpenDal.Types.ReaderCursor

/-!
# The calls of `std::io` on `StdReader`

`read_to_end` and `read_until` of the standard library go on after an error of
the kind `Interrupted`, and `format_std_io_error` gives this kind to every
error but two.  `read_until` looks at the chunks that `fill_buf` returns, also
through the adapter `Take`.

Each call is a loop over the rounds of the reader.  The invariant is that of a
cursor, with buffers that have no empty parts.
-/

namespace OpenDal

/-! ## Buffers without empty parts -/

namespace Buffer

namespace Inner

def Solid : Inner → Prop
  | .contiguous _ => True
  | .nonContiguous parts _ _ _ => [] ∉ parts

theorem Solid.advance {buffer advanced : Inner} {cnt : Nat}
    (solid : buffer.Solid) (success : buffer.advance cnt = some advanced) :
    advanced.Solid := by
  cases buffer with
  | contiguous bytes =>
      simp only [Inner.advance, Option.ite_none_right_eq_some,
        Option.some.injEq] at success
      obtain ⟨_, rfl⟩ := success
      exact trivial
  | nonContiguous parts size idx offset =>
      simp only [Inner.advance, Option.ite_none_right_eq_some,
        Option.bind_eq_bind, Option.bind_eq_some_iff,
        Option.some.injEq] at success
      obtain ⟨_, _, _, rfl⟩ := success
      exact solid

theorem Solid.copyLoop {buffer last : Inner} {fuel count : Nat}
    {output : Bytes} (solid : buffer.Solid)
    (ended : Inner.copyLoop fuel buffer count = some (output, last)) :
    last.Solid := by
  induction fuel generalizing buffer count output last with
  | zero => cases ended
  | succ fuel induction =>
      simp only [Inner.copyLoop] at ended
      split at ended
      · cases ended
        exact solid
      · simp only [Option.bind_eq_bind, Option.bind_eq_some_iff] at ended
        obtain ⟨_, _, advanced, success, ⟨rest, final⟩, looped, same⟩ := ended
        cases same
        exact induction (solid.advance success) looped

theorem mem_of_mem_partsWithin {part : Bytes} {parts : List Bytes}
    {count : Nat} (member : part ∈ partsWithin parts count) :
    part ∈ parts := by
  induction parts generalizing count with
  | nil => simp [partsWithin] at member
  | cons first rest induction =>
      simp only [partsWithin] at member
      split at member
      · cases member
      · rcases List.mem_cons.mp member with rfl | later
        · exact List.mem_cons_self
        · exact List.mem_cons_of_mem first (induction later)

end Inner

/-- None of the parts is empty. -/
def Solid (buffer : Buffer) : Prop :=
  buffer.inner.Solid

theorem Solid.dense {buffer : Buffer} (solid : buffer.Solid) (count : Nat) :
    buffer.Dense count := by
  obtain ⟨inner, wellFormed⟩ := buffer
  cases inner with
  | contiguous bytes =>
      simp [Dense, Inner.frontParts, Inner.truncate, Inner.coveredParts]
  | nonContiguous parts size idx offset =>
      intro member
      simp only [Inner.frontParts, Inner.truncate, Inner.coveredParts]
        at member
      exact solid (List.mem_of_mem_drop (Inner.mem_of_mem_partsWithin member))

theorem Solid.advance {buffer advanced : Buffer} {cnt : Nat}
    (solid : buffer.Solid) (success : buffer.advance cnt = some advanced) :
    advanced.Solid := by
  unfold Buffer.advance at success
  split at success
  · cases success
  · rename_i inner moved
    cases success
    exact Inner.Solid.advance solid moved

theorem Solid.copyToSlice {buffer last : Buffer} {fuel count : Nat}
    {output : Bytes} (solid : buffer.Solid)
    (ended : buffer.copyToSlice fuel count = some (output, last)) :
    last.Solid := by
  unfold Buffer.copyToSlice at ended
  split at ended
  · cases ended
  · rename_i copied final success
    cases ended
    simp only [Inner.copyToSlice, Option.ite_none_right_eq_some] at success
    exact Inner.Solid.copyLoop solid success.2

theorem solid_new : Buffer.new.Solid :=
  trivial

end Buffer

variable {R : Type} [Read R]

/-- No buffer that a reader returns has an empty part. -/
def Read.ReturnsSolid (R : Type) [Read R] : Prop :=
  ∀ {r later : R} {buf : Buffer}, Read.read r = (.ok buf, later) → buf.Solid

theorem IteratingReader.readFrom_solid (returns : Read.ReturnsSolid R)
    {self later : IteratingReader R} {r : R} {buf : Buffer}
    (polled : self.readFrom r = (later, .returned (.ok buf))) : buf.Solid := by
  simp only [readFrom] at polled
  split at polled
  · cases polled
  · rename_i answered
    split at polled
    · cases polled
    · cases polled
      exact returns answered

theorem IteratingReader.readRound_solid (returns : Read.ReturnsSolid R)
    {self later : IteratingReader R} {buf : Buffer}
    (polled : self.readRound = (later, .returned (.ok buf))) : buf.Solid := by
  simp only [readRound] at polled
  split at polled
  · exact readFrom_solid returns polled
  · split at polled
    · cases polled
    · cases polled
      exact Buffer.solid_new
    · exact readFrom_solid returns polled

theorem BufferIterator.nextRound_solid (returns : Read.ReturnsSolid R)
    {iter later : BufferIterator R} {buf : Buffer}
    (polled : iter.nextRound = (later, .returned (some (.ok buf)))) :
    buf.Solid := by
  simp only [nextRound] at polled
  split at polled
  · cases polled
  · rename_i answered
    split at polled
    · cases polled
    · cases polled
      exact IteratingReader.readRound_solid returns answered
  · cases polled
  · cases polled

/-! ## The calls -/

namespace StdReader

/-- What a call returns, with the reader that it leaves. -/
abbrev Answer (R T : Type) : Type :=
  Except IoError T × StdReader R

/-- `Read::read` into a buffer of `size` bytes. -/
def readRound (size : Nat) (reader : StdReader R) :
    Option (StdReader R ⊕ Answer R Bytes) :=
  -- a copy that ends takes a step for each byte at most
  match reader.read size (size + 1) with
  | some (reader, .suspended ()) => some (.inl reader)
  | some (reader, .returned result) => some (.inr (result, reader))
  | some (_, .panicked _) => none
  | none => none

structure ReadingToEnd (R : Type) where
  reader : StdReader R
  bytes : Bytes

/-- `Read::read_to_end`; `space` is how much room there is behind so many
bytes. -/
def readToEndRound (space : Nat → Nat) (self : ReadingToEnd R) :
    Option (ReadingToEnd R ⊕ Answer R Bytes) :=
  let size := space self.bytes.length
  match self.reader.read size (size + 1) with
  | some (reader, .suspended ()) => some (.inl { self with reader })
  | some (reader, .returned (.ok bytes)) =>
      if bytes.isEmpty then
        some (.inr (.ok self.bytes, reader))
      else
        some (.inl ⟨reader, self.bytes ++ bytes⟩)
  | some (reader, .returned (.error err)) =>
      if err.kind = .interrupted then
        some (.inl { self with reader })
      else
        some (.inr (.error err, reader))
  | some (_, .panicked _) => none
  | none => none

/-- `limit` is that of `Take`, if the reader is wrapped in one. -/
structure ReadingUntil (R : Type) where
  reader : StdReader R
  limit : Option Nat
  bytes : Bytes

/-- `Take::fill_buf` does not hand out more than the limit. -/
def capped (limit : Option Nat) (chunk : Bytes) : Bytes :=
  match limit with
  | none => chunk
  | some limit => chunk.take limit

/-- How much `read_until` uses of a chunk: up to the delimiter, if it is
there. -/
def usedOf (delim : UInt8) (available : Bytes) : Nat :=
  match available.idxOf? delim with
  | some i => i + 1
  | none => available.length

/-- `BufRead::read_until`. -/
def readUntilRound (delim : UInt8) (self : ReadingUntil R) :
    Option (ReadingUntil R ⊕ Answer R Bytes) :=
  if self.limit = some 0 then
    some (.inr (.ok self.bytes, self.reader))
  else
    match self.reader.fillBuf with
    | some (reader, .suspended ()) => some (.inl { self with reader })
    | some (reader, .returned (.ok chunk)) =>
        let available := capped self.limit chunk
        let used := usedOf delim available
        let bytes := self.bytes ++ available.take used
        (reader.consume used).map fun reader =>
          if available.contains delim || used = 0 then
            .inr (.ok bytes, reader)
          else
            .inl ⟨reader, self.limit.map (· - used), bytes⟩
    | some (reader, .returned (.error err)) =>
        if err.kind = .interrupted then
          some (.inl { self with reader })
        else
          some (.inr (.error err, reader))
    | some (_, .panicked _) => none
    | none => none

def readOnce (size fuel : Nat) (reader : StdReader R) :
    Option (Answer R Bytes) :=
  Loop.iterate (readRound size) fuel reader

def readToEnd (space : Nat → Nat) (fuel : Nat) (reader : StdReader R) :
    Option (Answer R Bytes) :=
  Loop.iterate (readToEndRound space) fuel ⟨reader, []⟩

def readUntil (delim : UInt8) (limit : Option Nat) (fuel : Nat)
    (reader : StdReader R) : Option (Answer R Bytes) :=
  Loop.iterate (readUntilRound delim) fuel ⟨reader, limit, []⟩

end StdReader

/-! ## Lines -/

/-- The bytes up to the first delimiter, with it. -/
def lineOf (delim : UInt8) : Bytes → Bytes
  | [] => []
  | byte :: rest => if byte = delim then [byte] else byte :: lineOf delim rest

section Lines

variable {delim : UInt8} {left right : Bytes}

theorem prefix_lineOf (bytes : Bytes) : lineOf delim bytes <+: bytes := by
  induction bytes with
  | nil => exact List.nil_prefix
  | cons byte rest induction =>
      simp only [lineOf]
      split
      · exact ⟨rest, rfl⟩
      · exact List.prefix_cons_inj byte |>.mpr induction

theorem lineOf_append_of_mem (member : delim ∈ left) :
    lineOf delim (left ++ right) = lineOf delim left := by
  induction left with
  | nil => cases member
  | cons byte rest induction =>
      simp only [List.cons_append, lineOf]
      split
      · rfl
      · rename_i other
        rcases List.mem_cons.mp member with same | later
        · exact absurd same.symm other
        · rw [induction later]

theorem lineOf_append_of_notMem (absent : delim ∉ left) :
    lineOf delim (left ++ right) = left ++ lineOf delim right := by
  induction left with
  | nil => rfl
  | cons byte rest induction =>
      simp only [List.mem_cons, not_or] at absent
      simp only [List.cons_append, lineOf, if_neg (Ne.symm absent.1),
        induction absent.2]

theorem take_usedOf (available : Bytes) :
    available.take (StdReader.usedOf delim available) =
      lineOf delim available := by
  induction available with
  | nil => simp [lineOf]
  | cons byte rest induction =>
      simp only [StdReader.usedOf, List.idxOf?_cons, lineOf] at induction ⊢
      by_cases same : byte = delim
      · simp [same]
      · simp only [beq_iff_eq, same, if_false]
        cases found : rest.idxOf? delim with
        | none => simpa [found] using induction
        | some i => simpa [found] using induction

end Lines

/-! ## What the calls return -/

namespace StdReader

open ReaderReply (selected)

variable {content : Bytes} {start stop : Nat} {reader : StdReader R}

/-- A cursor whose window has no empty part. -/
structure Ready (content : Bytes) (start stop : Nat) (reader : StdReader R) :
    Prop where
  window : reader.Window (BufferIterator.laws content) start stop
  solid : reader.buf.Solid

/-- What is in front of the reader. -/
def ahead (content : Bytes) (start stop : Nat) (reader : StdReader R) :
    Bytes :=
  (selected content start stop).drop reader.pos

/-- The bytes ahead, and what the reader still waits for. -/
def measure (content : Bytes) (stop : Nat) (reader : StdReader R) : Nat :=
  2 * (stop - reader.start - reader.pos) +
    ReaderSession.measure (BufferIterator.laws content) ⟨reader, []⟩

theorem Ready.length_ahead (ready : reader.Ready content start stop) :
    (reader.ahead content start stop).length = stop - start - reader.pos := by
  have bounded := ready.window.bounded
  simp only [ahead, selected, List.length_drop, List.length_take]
  omega

theorem Ready.ahead_eq_nil (ready : reader.Ready content start stop)
    (atEnd : reader.pos = stop - start) :
    reader.ahead content start stop = [] := by
  rw [← List.length_eq_zero_iff, ready.length_ahead]
  omega

/-- The reader has moved over the first `amt` bytes ahead. -/
structure Moves (content : Bytes) (start stop : Nat) (reader : StdReader R)
    (amt : Nat) (later : StdReader R) : Prop where
  ready : later.Ready content start stop
  pos : later.pos = reader.pos + amt

theorem Moves.ahead {amt : Nat} {later : StdReader R}
    (moves : reader.Moves content start stop amt later) :
    later.ahead content start stop =
      (reader.ahead content start stop).drop amt := by
  simp only [StdReader.ahead, moves.pos, List.drop_drop]

theorem Moves.trans {amt other : Nat} {later last : StdReader R}
    (moves : reader.Moves content start stop amt later)
    (others : later.Moves content start stop other last) :
    reader.Moves content start stop (amt + other) last where
  ready := others.ready
  pos := by
    rw [others.pos, moves.pos, Nat.add_assoc]

theorem Ready.refill (returns : Read.ReturnsSolid R)
    (ready : reader.Ready content start stop) (empty : ¬ 0 < reader.buf.len) :
    ∃ later progress, reader.refill = some (later, progress) ∧
      reader.Moves content start stop 0 later ∧
      (progress = .suspended () ∧
          measure content stop later < measure content stop reader ∨
        progress = .returned (.ok []) ∧
          reader.ahead content start stop = []) := by
  obtain ⟨⟨later, progress⟩, refilled⟩ : ∃ next,
      reader.refill = some next := by
    simp only [SeekingReader.refill, BufferSource.next, Option.bind_eq_bind,
      Option.bind_some]
    split <;> exact ⟨_, rfl⟩
  obtain ⟨window, still, outcome⟩ := ready.window.refill empty refilled
  have solid : later.buf.Solid := by
    simp only [SeekingReader.refill, BufferSource.next, Option.bind_eq_bind,
      Option.bind_some] at refilled
    split at refilled
    · cases refilled
      exact ready.solid
    · rename_i polled
      cases refilled
      exact BufferIterator.nextRound_solid returns polled
    · cases refilled
      exact ready.solid
    · cases refilled
      exact ready.solid
    · cases refilled
      exact ready.solid
  refine ⟨later, progress, refilled, ⟨⟨window, solid⟩, still⟩, ?_⟩
  rcases outcome with rfl | ⟨rfl, atEnd⟩
  · left
    have before : (⟨reader, []⟩ : ReaderSession R _).reader.Window
        (BufferIterator.laws content) start stop := ready.window
    have less := ReaderSession.refill_measure before empty refilled
    refine ⟨rfl, ?_⟩
    simp only [measure, still, window.starts, ready.window.starts]
    exact Nat.add_lt_add_left less _
  · exact .inr ⟨rfl, ready.ahead_eq_nil atEnd⟩

theorem Ready.advance {buf : Buffer} {amt : Nat}
    (ready : reader.Ready content start stop) (within : amt ≤ reader.buf.len)
    (dropped : buf.bytes = reader.buf.bytes.drop amt) (solid : buf.Solid) :
    reader.Moves content start stop amt
        { reader with buf, pos := reader.pos + amt } ∧
      (0 < amt → measure content stop
          { reader with buf, pos := reader.pos + amt } <
        measure content stop reader) := by
  refine ⟨⟨⟨ready.window.advance within dropped, solid⟩, rfl⟩, ?_⟩
  intro positive
  have inside := ready.window.inside
  have starts := ready.window.starts
  simp only [measure, ReaderSession.measure]
  split <;> split <;> omega

theorem Ready.read (returns : Read.ReturnsSolid R)
    (ready : reader.Ready content start stop) (size : Nat) :
    ∃ later progress, reader.read size (size + 1) = some (later, progress) ∧
      (progress = .suspended () ∧ reader.Moves content start stop 0 later ∧
          measure content stop later < measure content stop reader ∨
        ∃ bytes, progress = .returned (.ok bytes) ∧
          bytes <+: reader.ahead content start stop ∧ bytes.length ≤ size ∧
          (bytes = [] → size = 0 ∨ reader.ahead content start stop = []) ∧
          reader.Moves content start stop bytes.length later ∧
          (bytes ≠ [] →
            measure content stop later < measure content stop reader)) := by
  by_cases remains : 0 < reader.buf.len
  · have within : min reader.buf.len size ≤ reader.buf.len :=
      Nat.min_le_left _ _
    have enough : min reader.buf.len size < size + 1 := by omega
    obtain ⟨⟨bytes, buf⟩, copied⟩ := Option.isSome_iff_exists.mp
      (Buffer.copyToSlice_isSome within (ready.solid.dense _) enough)
    obtain ⟨_, front, dropped⟩ := Buffer.copyToSlice_eq_some copied
    have length : bytes.length = min reader.buf.len size := by
      rw [front, List.length_take, Buffer.length_bytes]
      omega
    obtain ⟨moves, less⟩ :=
      ready.advance within dropped (ready.solid.copyToSlice copied)
    refine ⟨{ reader with buf, pos := reader.pos + min reader.buf.len size },
      .returned (.ok bytes), by simp [SeekingReader.read, remains, copied],
      .inr ⟨bytes, rfl, ?_, by omega, ?_, ?_, ?_⟩⟩
    · rw [front]
      exact (List.take_prefix _ _).trans ready.window.holds
    · rintro rfl
      left
      rw [List.length_nil] at length
      omega
    · rw [length]
      exact moves
    · intro nonempty
      have positive := List.length_pos_iff.mpr nonempty
      exact less (by omega)
  · obtain ⟨later, progress, refilled, moves, outcome⟩ :=
      ready.refill returns remains
    refine ⟨later, progress, by simp [SeekingReader.read, remains, refilled],
      ?_⟩
    rcases outcome with ⟨rfl, less⟩ | ⟨rfl, none⟩
    · exact .inl ⟨rfl, moves, less⟩
    · exact .inr ⟨[], rfl, List.nil_prefix, by simp, fun _ => .inr none, moves,
        fun nonempty => absurd rfl nonempty⟩

theorem Ready.fillBuf (returns : Read.ReturnsSolid R)
    (ready : reader.Ready content start stop) :
    ∃ later progress, reader.fillBuf = some (later, progress) ∧
      reader.Moves content start stop 0 later ∧
      (progress = .suspended () ∧
          measure content stop later < measure content stop reader ∨
        ∃ chunk, progress = .returned (.ok chunk) ∧
          chunk <+: reader.ahead content start stop ∧
          chunk.length ≤ later.buf.len ∧
          (chunk = [] → reader.ahead content start stop = []) ∧
          (chunk ≠ [] → later = reader)) := by
  by_cases remains : 0 < reader.buf.len
  · obtain ⟨chunk, chunked, nonempty, begins⟩ :=
      (ready.solid.dense 1).chunk remains
    have bounded := begins.length_le
    rw [Buffer.length_bytes] at bounded
    exact ⟨reader, .returned (.ok chunk),
      by simp [SeekingReader.fillBuf, remains, chunked], ⟨ready, rfl⟩,
      .inr ⟨chunk, rfl, begins.trans ready.window.holds, bounded,
        fun none => absurd none nonempty, fun _ => rfl⟩⟩
  · obtain ⟨later, progress, refilled, moves, outcome⟩ :=
      ready.refill returns remains
    refine ⟨later, progress, by simp [SeekingReader.fillBuf, remains, refilled],
      moves, ?_⟩
    rcases outcome with ⟨rfl, less⟩ | ⟨rfl, none⟩
    · exact .inl ⟨rfl, less⟩
    · exact .inr ⟨[], rfl, List.nil_prefix, by simp, fun _ => none,
        fun nonempty => absurd rfl nonempty⟩

theorem Ready.consume {amt : Nat} (ready : reader.Ready content start stop)
    (within : amt ≤ reader.buf.len) :
    ∃ later, reader.consume amt = some later ∧
      reader.Moves content start stop amt later ∧
      (0 < amt →
        measure content stop later < measure content stop reader) := by
  obtain ⟨buf, success, dropped⟩ := Buffer.advance_spec within
  have released : (if buf.isEmpty then Buffer.new else buf).bytes =
      reader.buf.bytes.drop amt := by
    split
    · rename_i empty
      rw [← dropped, (Buffer.isEmpty_iff buf).mp empty]
      rfl
    · exact dropped
  have solid : (if buf.isEmpty then Buffer.new else buf).Solid := by
    split
    · exact Buffer.solid_new
    · exact ready.solid.advance success
  exact ⟨_, by simp [SeekingReader.consume, success],
    ready.advance within released solid⟩

theorem readOnce_returns (returns : Read.ReturnsSolid R)
    (ready : reader.Ready content start stop) (size : Nat) :
    Loop.Returns (readRound size) reader fun answer =>
      ∃ bytes, answer.1 = .ok bytes ∧
        bytes <+: reader.ahead content start stop ∧ bytes.length ≤ size ∧
        (bytes = [] → size = 0 ∨ reader.ahead content start stop = []) ∧
        reader.Moves content start stop bytes.length answer.2 := by
  have initially : reader.Moves content start stop 0 reader := ⟨ready, rfl⟩
  apply Loop.returns_of_measure (measure content stop) _ initially
  intro state moves
  have same : state.ahead content start stop =
      reader.ahead content start stop := by
    rw [moves.ahead, List.drop_zero]
  obtain ⟨later, progress, polled, outcome⟩ := moves.ready.read returns size
  rcases outcome with ⟨rfl, still, less⟩ |
    ⟨bytes, rfl, begins, within, atEnd, others, _⟩
  · exact .inl ⟨later, by simp [readRound, polled], moves.trans still, less⟩
  · refine .inr ⟨(.ok bytes, later), by simp [readRound, polled], bytes, rfl,
      ?_, within, ?_, ?_⟩
    · rw [← same]
      exact begins
    · rw [← same]
      exact atEnd
    · simpa using moves.trans others

/-- `read_to_end` returns everything that is ahead, however its buffer
grows. -/
theorem readToEnd_returns (returns : Read.ReturnsSolid R)
    (ready : reader.Ready content start stop) {space : Nat → Nat}
    (roomy : ∀ length, 0 < space length) :
    Loop.Returns (readToEndRound space) ⟨reader, []⟩ fun answer =>
      answer.1 = .ok (reader.ahead content start stop) ∧
        reader.Moves content start stop
          (reader.ahead content start stop).length answer.2 := by
  let invariant : ReadingToEnd R → Prop := fun state =>
    reader.Moves content start stop state.bytes.length state.reader ∧
      reader.ahead content start stop =
        state.bytes ++ state.reader.ahead content start stop
  have initially : invariant ⟨reader, []⟩ := ⟨⟨ready, rfl⟩, rfl⟩
  apply Loop.returns_of_measure
    (fun state => measure content stop state.reader) _ initially
  rintro ⟨state, read⟩ ⟨moves, split⟩
  obtain ⟨later, progress, polled, outcome⟩ :=
    moves.ready.read returns (space read.length)
  rcases outcome with ⟨rfl, still, less⟩ |
    ⟨bytes, rfl, begins, _, atEnd, others, less⟩
  · refine .inl ⟨⟨later, read⟩, by simp [readToEndRound, polled],
      ⟨moves.trans still, ?_⟩, less⟩
    rw [still.ahead, List.drop_zero]
    exact split
  · by_cases empty : bytes = []
    · subst empty
      have none : state.ahead content start stop = [] := by
        rcases atEnd rfl with tight | none
        · exact absurd tight (Nat.ne_of_gt (roomy _))
        · exact none
      have all : reader.ahead content start stop = read := by
        rw [split, none, List.append_nil]
      refine .inr ⟨(.ok read, later), by simp [readToEndRound, polled], ?_, ?_⟩
      · rw [all]
      · rw [all]
        exact moves.trans others
    · have filled : bytes.isEmpty = false := by simpa using empty
      refine .inl ⟨⟨later, read ++ bytes⟩,
        by simp [readToEndRound, polled, filled], ⟨?_, ?_⟩, less empty⟩
      · rw [List.length_append]
        exact moves.trans others
      · obtain ⟨tail, whole⟩ := begins
        rw [others.ahead, split, ← whole, List.drop_left, List.append_assoc]

theorem capped_prefix (limit : Option Nat) (bytes : Bytes) :
    capped limit bytes <+: bytes := by
  cases limit with
  | none => exact List.prefix_rfl
  | some bound => exact List.take_prefix _ _

theorem capped_nil (limit : Option Nat) : capped limit [] = [] := by
  cases limit <;> simp [capped]

theorem eq_nil_of_capped {limit : Option Nat} {bytes : Bytes}
    (remains : ¬ limit = some 0) (none : capped limit bytes = []) :
    bytes = [] := by
  cases limit with
  | none => exact none
  | some bound =>
      rcases List.take_eq_nil_iff.mp none with zero | empty
      · exact absurd (congrArg some zero) remains
      · exact empty

theorem capped_split {limit : Option Nat} {count : Nat} (bytes : Bytes)
    (within : ∀ bound, limit = some bound → count ≤ bound) :
    capped limit bytes =
      bytes.take count ++
        capped (limit.map (· - count)) (bytes.drop count) := by
  cases limit with
  | none => simp [capped]
  | some bound =>
      have total : count + (bound - count) = bound := by
        have le := within bound rfl
        omega
      simp only [capped, Option.map_some, ← List.take_add, total]

theorem usedOf_le (delim : UInt8) (available : Bytes) :
    usedOf delim available ≤ available.length := by
  simp only [usedOf]
  split
  · rename_i i found
    exact (List.idxOf?_eq_some_iff.mp found).1
  · exact Nat.le_refl _

theorem usedOf_of_notMem {delim : UInt8} {available : Bytes}
    (absent : delim ∉ available) :
    usedOf delim available = available.length := by
  simp [usedOf, List.idxOf?_eq_none_iff.mpr absent]

/-- `read_until` returns the line that is ahead, as far as the limit goes, with
its end. -/
theorem readUntil_returns (returns : Read.ReturnsSolid R)
    (ready : reader.Ready content start stop) (delim : UInt8)
    (limit : Option Nat) :
    let line := lineOf delim (capped limit (reader.ahead content start stop))
    Loop.Returns (readUntilRound delim) ⟨reader, limit, []⟩ fun answer =>
      answer.1 = .ok line ∧
        reader.Moves content start stop line.length answer.2 := by
  intro line
  let invariant : ReadingUntil R → Prop := fun state =>
    reader.Moves content start stop state.bytes.length state.reader ∧
      line = state.bytes ++
        lineOf delim (capped state.limit
          (state.reader.ahead content start stop))
  have initially : invariant ⟨reader, limit, []⟩ := ⟨⟨ready, rfl⟩, rfl⟩
  apply Loop.returns_of_measure
    (fun state => measure content stop state.reader) _ initially
  rintro ⟨state, limit, read⟩ ⟨moves, split⟩
  simp only at moves split
  by_cases exhausted : limit = some 0
  · have all : line = read := by
      simpa [exhausted, capped, lineOf] using split
    refine .inr ⟨(.ok read, state), by simp [readUntilRound, exhausted], ?_, ?_⟩
    · rw [all]
    · rw [all]
      exact moves
  obtain ⟨later, progress, polled, still, outcome⟩ :=
    moves.ready.fillBuf returns
  have same : ahead content start stop later =
      state.ahead content start stop := by
    rw [still.ahead, List.drop_zero]
  rcases outcome with ⟨rfl, less⟩ |
    ⟨chunk, rfl, begins, within, atEnd, unmoved⟩
  · refine .inl ⟨⟨later, limit, read⟩,
      by simp [readUntilRound, exhausted, polled], ⟨moves.trans still, ?_⟩,
      less⟩
    rw [same]
    exact split
  generalize handed : capped limit chunk = available
  have front : available <+: chunk := handed ▸ capped_prefix limit chunk
  have parts : capped limit (state.ahead content start stop) =
      available ++ capped (limit.map (· - available.length))
        ((state.ahead content start stop).drop available.length) := by
    have bounded : ∀ bound, limit = some bound →
        available.length ≤ bound := by
      rintro bound rfl
      rw [← handed]
      exact List.length_take_le _ _
    rw [capped_split _ bounded,
      ← List.prefix_iff_eq_take.mp (front.trans begins)]
  have used := usedOf_le delim available
  have short := front.length_le
  obtain ⟨last, consumed, others, less⟩ := still.ready.consume
    (show usedOf delim available ≤ later.buf.len by omega)
  have taken : (available.take (usedOf delim available)).length =
      usedOf delim available := by
    rw [List.length_take]
    omega
  have advanced : reader.Moves content start stop
      (read ++ available.take (usedOf delim available)).length last := by
    rw [List.length_append, taken]
    simpa using (moves.trans still).trans others
  rw [parts] at split
  by_cases member : delim ∈ available
  · have all : line = read ++ available.take (usedOf delim available) := by
      rw [split, lineOf_append_of_mem member, take_usedOf]
    refine .inr ⟨(.ok line, last), ?_, rfl, ?_⟩
    · simp [readUntilRound, exhausted, polled, handed, consumed, member, all]
    · rw [all]
      exact advanced
  · have whole := usedOf_of_notMem member
    rw [lineOf_append_of_notMem member] at split
    by_cases empty : available = []
    · subst empty
      have none : state.ahead content start stop = [] := by
        apply atEnd
        exact eq_nil_of_capped exhausted handed
      have all : line = read := by
        simpa [none, capped_nil, lineOf] using split
      have nothing : usedOf delim [] = 0 := rfl
      rw [nothing] at consumed
      refine .inr ⟨(.ok line, last), ?_, rfl, ?_⟩
      · simp [readUntilRound, exhausted, polled, handed, consumed, all, nothing]
      · rw [all]
        simpa using advanced
    · have positive := List.length_pos_iff.mpr empty
      have filled : chunk ≠ [] := by
        rintro rfl
        exact empty (List.prefix_nil.mp front)
      have stays : later = state := unmoved filled
      refine .inl ⟨⟨last, limit.map (· - usedOf delim available),
          read ++ available.take (usedOf delim available)⟩, ?_, ⟨advanced, ?_⟩,
        ?_⟩
      · have some : usedOf delim available ≠ 0 := by omega
        simp [readUntilRound, exhausted, polled, handed, consumed, member,
          some]
      · rw [others.ahead, same, whole, List.take_length, List.append_assoc]
        exact split
      · rw [← stays]
        exact less (by omega)

end StdReader

end OpenDal
