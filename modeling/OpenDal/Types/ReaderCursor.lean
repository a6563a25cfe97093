import Mathlib.Data.List.Infix
import OpenDal.Types.ContentRead
import OpenDal.Types.SeekingReader

/-!
# The adapters are cursors

A caller reads, fills, consumes and seeks in any order.  What it gets at a
position is the content there, and the position moves by what was delivered or
to where a seek goes.

`Consistent` ties the position, the window and the source together: the window
holds the bytes at the position and the source stands behind the window.  The
source enters through `SourceLaws` only, so both adapters share the proof.
-/

namespace OpenDal

variable {R S : Type}

/-! ## Sessions -/

/-- A call of the reader, or progress in the background `B`.  A call that does
not return is made again. -/
inductive ReaderEvent (R B : Type) where
  | read (size fuel : Nat)
  | fillBuf
  | consume (amt : Nat)
  | seek (pos : SeekFrom) (acc : Accessor R)
  | background (event : B)

/-- What a call returned.  A consumed chunk is delivered up to `amt`. -/
inductive ReaderAnswer where
  | read (size : Nat) (result : Except IoError Bytes)
  | filled (result : Except IoError Bytes)
  | consumed (amt : Nat) (bytes : Bytes)
  | sought (pos : SeekFrom) (result : Except IoError Nat)
  | panicked

/-- An answer with the positions before and after the call. -/
structure ReaderReply where
  before : Nat
  answer : ReaderAnswer
  after : Nat

structure ReaderSession (R S : Type) where
  reader : SeekingReader R S
  replies : List ReaderReply

namespace ReaderSession

variable [BufferSource R S]

def new (ctx : ReadContext R) (start stop : Nat) :
    Option (ReaderSession R S) := do
  let reader ← SeekingReader.new ctx start stop
  some { reader, replies := [] }

def reply (session : ReaderSession R S) (reader : SeekingReader R S)
    (answer : ReaderAnswer) : ReaderSession R S :=
  { reader
    replies := session.replies ++ [⟨session.reader.pos, answer, reader.pos⟩] }

/-- A round of a call that reads. -/
def round (session : ReaderSession R S)
    (answer : Except IoError Bytes → ReaderAnswer) :
    SeekingReader R S × Progress Unit (Except IoError Bytes) →
      ReaderSession R S
  | (reader, .suspended ()) => { session with reader }
  | (reader, .returned result) => session.reply reader (answer result)
  | (reader, .panicked _) => session.reply reader .panicked

def step (session : ReaderSession R S) :
    ReaderEvent R (BufferSource.Background S) → Option (ReaderSession R S)
  | .read size fuel =>
      (session.reader.read size fuel).map (session.round (.read size))
  | .fillBuf => session.reader.fillBuf.map (session.round .filled)
  | .consume amt => do
      let front ← session.reader.buf.inner.chunk
      let reader ← session.reader.consume amt
      some (session.reply reader (.consumed amt (front.take amt)))
  | .seek pos acc => do
      let (reader, result) ← session.reader.seek pos acc
      some (session.reply reader (.sought pos result))
  | .background event => do
      let source ← BufferSource.background session.reader.source event
      some { session with reader := { session.reader with source } }

/-- A step in which no call returns. -/
def waitStep (session : ReaderSession R S)
    (event : ReaderEvent R (BufferSource.Background S)) :
    Option (ReaderSession R S) := do
  let later ← session.step event
  if later.replies.length = session.replies.length then some later else none

end ReaderSession

namespace ReaderReply

/-- The bytes from `start` to `stop`. -/
def selected (content : Bytes) (start stop : Nat) : Bytes :=
  (content.drop start).take (stop - start)

/-- What a cursor over the selected bytes answers. -/
def Faithful (content : Bytes) (start stop : Nat) (reply : ReaderReply) :
    Prop :=
  match reply.answer with
  | .read size (.ok bytes) =>
      reply.after = reply.before + bytes.length ∧ bytes.length ≤ size ∧
        bytes <+: (selected content start stop).drop reply.before ∧
        (bytes = [] → size = 0 ∨ reply.before = stop - start)
  | .filled (.ok bytes) =>
      reply.after = reply.before ∧
        bytes <+: (selected content start stop).drop reply.before ∧
        (bytes = [] → reply.before = stop - start)
  | .consumed amt bytes =>
      reply.after = reply.before + amt ∧ bytes.length = amt ∧
        bytes <+: (selected content start stop).drop reply.before
  | .sought pos (.ok newPos) =>
      reply.after = newPos ∧
        (newPos : Int) = pos.target start stop reply.before
  | _ => False

/-- The replies lead from one position to another. -/
def Linked : Nat → List ReaderReply → Nat → Prop
  | first, [], last => first = last
  | first, reply :: replies, last =>
      reply.before = first ∧ Linked reply.after replies last

theorem Linked.concat {first last : Nat} {replies : List ReaderReply}
    (linked : Linked first replies last) (answer : ReaderAnswer)
    (after : Nat) : Linked first (replies ++ [⟨last, answer, after⟩]) after := by
  induction replies generalizing first with
  | nil => exact ⟨linked.symm, rfl⟩
  | cons reply replies induction =>
      obtain ⟨starts, linked⟩ := linked
      exact ⟨starts, induction linked⟩

end ReaderReply

/-! ## What is assumed of a source -/

/-- What asking a source at `position` for its next buffer can come to. -/
inductive NextRound (content : Bytes) (stands : Nat → S → Prop)
    (stop position : Nat) (later : S) :
    Progress Unit (Option (Except Error Buffer)) → Prop where
  | suspended (kept : stands position later) :
      NextRound content stands stop position later (.suspended ())
  | piece {buf : Buffer} (nonempty : 0 < buf.len)
      (right : buf.bytes <+: content.drop position)
      (inside : position + buf.len ≤ stop)
      (moved : stands (position + buf.len) later) :
      NextRound content stands stop position later
        (.returned (some (.ok buf)))
  | ended (finished : position = stop) (kept : stands position later) :
      NextRound content stands stop position later (.returned none)

/-- A source over a service that serves `content`. -/
structure SourceLaws (S : Type) [Read R] [BufferSource R S]
    (content : Bytes) where
  /-- The source is at `position` of a range that ends at `stop`. -/
  stands : (stop position : Nat) → S → Prop
  weight : S → Nat
  rebuild : ∀ {ctx : ReadContext R} {start stop newPos : Nat},
    ctx.Serves Read.Yields content → start + newPos ≤ stop →
    stop ≤ content.length →
    ∃ source, BufferSource.rebuild ctx start stop newPos = some source ∧
      stands stop (start + newPos) source
  next : ∀ {stop position source later progress},
    stands stop position source →
    BufferSource.next source = some (later, progress) →
    NextRound content (stands stop) stop position later progress
  background : ∀ {stop position source later event},
    stands stop position source →
    BufferSource.background source event = some later →
    stands stop position later
  next_weight : ∀ {stop position source later progress},
    stands stop position source →
    BufferSource.next source = some (later, progress) →
    (progress = .suspended () → weight later < weight source) ∧
      ∀ buf, progress = .returned (some (.ok buf)) →
        weight later ≤ weight source
  background_weight : ∀ {stop position source later event},
    stands stop position source →
    BufferSource.background source event = some later →
    weight later < weight source
  progress : ∀ {stop position source}, stands stop position source →
    (BufferSource.next source).isSome = true ∨
      ∃ event, (BufferSource.background source event).isSome = true

/-! ## The window -/

open ReaderReply (selected)

theorem prefix_selected {content bytes : Bytes} {start stop pos : Nat}
    (right : bytes <+: content.drop (start + pos))
    (inside : start + pos + bytes.length ≤ stop) :
    bytes <+: (selected content start stop).drop pos := by
  rw [selected, List.drop_take, List.drop_drop, List.prefix_take_iff]
  exact ⟨right, by omega⟩

theorem prefix_drop_of_prefix {bytes rest : Bytes} {cnt pos : Nat}
    (begins : bytes <+: rest.drop pos) :
    bytes.drop cnt <+: rest.drop (pos + cnt) := by
  rw [← List.drop_drop]
  exact List.IsPrefix.drop begins cnt

namespace SeekingReader

variable [Read R] [BufferSource R S] {content : Bytes}

/-- The window holds the selected bytes at the position, and the source stands
behind the window. -/
structure Window (laws : SourceLaws S content) (start stop : Nat)
    (reader : SeekingReader R S) : Prop where
  starts : reader.start = start
  stops : reader.stop = stop
  bounded : stop ≤ content.length
  inside : start + reader.pos + reader.buf.len ≤ stop
  holds : reader.buf.bytes <+:
    (selected content start stop).drop reader.pos
  stands : laws.stands stop (start + reader.pos + reader.buf.len)
    reader.source

variable {laws : SourceLaws S content} {start stop : Nat}
  {reader later : SeekingReader R S}

theorem window_new (laws : SourceLaws S content) {ctx : ReadContext R}
    (serves : ctx.Serves Read.Yields content) (ordered : start ≤ stop)
    (bounded : stop ≤ content.length) :
    ∃ reader : SeekingReader R S, new ctx start stop = some reader ∧
      reader.Window laws start stop ∧ reader.pos = 0 := by
  obtain ⟨source, built, stands⟩ : ∃ source,
      BufferSource.rebuild ctx start stop 0 = some source ∧
        laws.stands stop (start + 0) source :=
    laws.rebuild serves ordered bounded
  refine ⟨{ ctx, source, buf := Buffer.new, start, stop, pos := 0 },
    by simp [new, built],
    { starts := rfl
      stops := rfl
      bounded
      inside := ordered
      holds := List.nil_prefix
      stands := stands }, rfl⟩

theorem Window.refill {progress : Progress Unit (Except IoError Bytes)}
    (window : reader.Window laws start stop) (empty : ¬ 0 < reader.buf.len)
    (refilled : reader.refill = some (later, progress)) :
    later.Window laws start stop ∧ later.pos = reader.pos ∧
      (progress = .suspended () ∨
        progress = .returned (.ok []) ∧ reader.pos = stop - start) := by
  have none : reader.buf.len = 0 := by omega
  have here : start + reader.pos + reader.buf.len = start + reader.pos := by
    omega
  have stands := window.stands
  have inside := window.inside
  rw [here] at stands inside
  simp only [SeekingReader.refill, Option.bind_eq_bind,
    Option.bind_eq_some_iff] at refilled
  obtain ⟨⟨source, asked⟩, polled, same⟩ := refilled
  cases laws.next stands polled with
  | suspended kept =>
      cases same
      exact ⟨{ window with stands := here.symm ▸ kept }, rfl, .inl rfl⟩
  | @piece buf nonempty right within moved =>
      cases same
      refine ⟨?_, rfl, .inl rfl⟩
      have size : buf.bytes.length = buf.len := buf.length_bytes
      exact
        { window with
          inside := within
          holds := prefix_selected right (by rw [size]; exact within)
          stands := moved }
  | ended finished kept =>
      cases same
      exact ⟨{ window with stands := here.symm ▸ kept }, rfl,
        .inr ⟨rfl, by omega⟩⟩

theorem Window.advance {buf : Buffer} {cnt : Nat}
    (window : reader.Window laws start stop) (within : cnt ≤ reader.buf.len)
    (dropped : buf.bytes = reader.buf.bytes.drop cnt) :
    Window laws start stop { reader with buf, pos := reader.pos + cnt } := by
  have size : buf.len = reader.buf.len - cnt := by
    rw [← Buffer.length_bytes, dropped, List.length_drop, Buffer.length_bytes]
  have inside := window.inside
  have behind : start + (reader.pos + cnt) + buf.len =
      start + reader.pos + reader.buf.len := by omega
  exact
    { window with
      inside := by simp only; omega
      holds := by
        simp only [dropped]
        exact prefix_drop_of_prefix window.holds
      stands := by
        simp only [behind]
        exact window.stands }

/-- What a round of `read` or `fill_buf` can come to. -/
def Rounds (laws : SourceLaws S content) (start stop : Nat)
    (reader later : SeekingReader R S)
    (answer : Except IoError Bytes → ReaderAnswer)
    (progress : Progress Unit (Except IoError Bytes)) : Prop :=
  later.Window laws start stop ∧
    (progress = .suspended () ∧ later.pos = reader.pos ∨
      ∃ result, progress = .returned result ∧
        ReaderReply.Faithful content start stop
          ⟨reader.pos, answer result, later.pos⟩)

theorem Window.read {size fuel : Nat}
    {progress : Progress Unit (Except IoError Bytes)}
    (window : reader.Window laws start stop)
    (polled : reader.read size fuel = some (later, progress)) :
    Rounds laws start stop reader later (.read size) progress := by
  unfold SeekingReader.read at polled
  split at polled
  · rename_i remains
    simp only [Option.bind_eq_bind, Option.bind_eq_some_iff] at polled
    obtain ⟨⟨bytes, buf⟩, copied, same⟩ := polled
    cases same
    obtain ⟨_, rfl, dropped⟩ := Buffer.copyToSlice_eq_some copied
    have length : (reader.buf.bytes.take (min reader.buf.len size)).length =
        min reader.buf.len size := by
      rw [List.length_take, Buffer.length_bytes]
      omega
    refine ⟨window.advance (Nat.min_le_left _ _) dropped,
      .inr ⟨_, rfl, ?_, ?_, ?_, ?_⟩⟩
    · rw [length]
    · simp only [length]
      exact Nat.min_le_right _ _
    · exact (List.take_prefix _ _).trans window.holds
    · intro none
      left
      have zero := congrArg List.length none
      rw [length, List.length_nil] at zero
      omega
  · rename_i empty
    obtain ⟨kept, still, waits | ⟨ended, atEnd⟩⟩ := window.refill empty polled
    · exact ⟨kept, .inl ⟨waits, still⟩⟩
    · refine ⟨kept, .inr ⟨_, ended, ?_⟩⟩
      exact ⟨by simp [still], by simp, List.nil_prefix, fun _ => .inr atEnd⟩

omit [Read R] in
/-- A `read` that finds bytes returns only if no empty part is in the way. -/
theorem dense_of_read {size fuel : Nat}
    {progress : Progress Unit (Except IoError Bytes)}
    (remains : 0 < reader.buf.len)
    (polled : reader.read size fuel = some (later, progress)) :
    reader.buf.Dense (min reader.buf.len size) := by
  simp only [SeekingReader.read, remains, if_true, Option.bind_eq_bind,
    Option.bind_eq_some_iff] at polled
  obtain ⟨⟨bytes, buf⟩, copied, _⟩ := polled
  exact (Buffer.copyToSlice_eq_some copied).1

theorem Window.fillBuf {progress : Progress Unit (Except IoError Bytes)}
    (window : reader.Window laws start stop) (dense : reader.buf.Dense 1)
    (polled : reader.fillBuf = some (later, progress)) :
    Rounds laws start stop reader later .filled progress := by
  unfold SeekingReader.fillBuf at polled
  split at polled
  · rename_i remains
    simp only [Option.bind_eq_bind, Option.bind_eq_some_iff] at polled
    obtain ⟨front, chunked, same⟩ := polled
    cases same
    obtain ⟨other, found, nonempty, begins⟩ := dense.chunk remains
    cases chunked.symm.trans found
    exact ⟨window, .inr ⟨_, rfl, rfl, begins.trans window.holds,
      fun none => absurd none nonempty⟩⟩
  · rename_i empty
    obtain ⟨kept, still, waits | ⟨ended, atEnd⟩⟩ := window.refill empty polled
    · exact ⟨kept, .inl ⟨waits, still⟩⟩
    · exact ⟨kept, .inr ⟨_, ended, still, List.nil_prefix, fun _ => atEnd⟩⟩

theorem Window.consume {amt : Nat} {front : Bytes}
    (window : reader.Window laws start stop)
    (chunked : reader.buf.inner.chunk = some front)
    (within : amt ≤ front.length)
    (consumed : reader.consume amt = some later) :
    later.Window laws start stop ∧
      ReaderReply.Faithful content start stop
        ⟨reader.pos, .consumed amt (front.take amt), later.pos⟩ := by
  simp only [SeekingReader.consume, Option.bind_eq_bind,
    Option.bind_eq_some_iff] at consumed
  obtain ⟨buf, success, same⟩ := consumed
  cases same
  obtain ⟨enough, dropped⟩ := Buffer.advance_eq_some success
  have released : (if buf.isEmpty then Buffer.new else buf).bytes =
      reader.buf.bytes.drop amt := by
    split
    · rename_i empty
      rw [← dropped, (Buffer.isEmpty_iff buf).mp empty]
      rfl
    · exact dropped
  refine ⟨window.advance enough released, rfl, ?_, ?_⟩
  · rw [List.length_take, Nat.min_eq_left within]
  · exact (List.take_prefix _ _).trans
      ((Buffer.chunk_prefix chunked).trans window.holds)

theorem Window.seek {pos : SeekFrom} {acc : Accessor R}
    {result : Except IoError Nat}
    (window : reader.Window laws start stop)
    (nonnegative : 0 ≤ pos.target start stop reader.pos)
    (inside : pos.target start stop reader.pos ≤ stop - start)
    (serves : { reader.ctx with acc }.Serves Read.Yields content)
    (sought : reader.seek pos acc = some (later, result)) :
    later.Window laws start stop ∧
      ReaderReply.Faithful content start stop
        ⟨reader.pos, .sought pos result, later.pos⟩ := by
  obtain rfl := window.starts
  obtain rfl := window.stops
  have cast : ((pos.target reader.start reader.stop reader.pos).toNat : Int) =
      pos.target reader.start reader.stop reader.pos :=
    Int.toNat_of_nonneg nonnegative
  have within := window.inside
  unfold SeekingReader.seek at sought
  simp only [Int.not_lt.mpr nonnegative, if_false] at sought
  split at sought
  · rename_i inWindow
    simp only [Option.bind_eq_bind, Option.bind_eq_some_iff] at sought
    obtain ⟨buf, success, same⟩ := sought
    cases same
    obtain ⟨enough, dropped⟩ := Buffer.advance_eq_some success
    have moved := window.advance enough dropped
    rw [Nat.add_sub_cancel' inWindow.1] at moved
    exact ⟨moved, rfl, cast⟩
  · simp only [Option.bind_eq_bind, Option.bind_eq_some_iff] at sought
    obtain ⟨source, built, same⟩ := sought
    cases same
    have reached : reader.start +
        (pos.target reader.start reader.stop reader.pos).toNat ≤
          reader.stop := by omega
    obtain ⟨other, otherBuilt, stands⟩ :=
      laws.rebuild serves reached window.bounded
    cases built.symm.trans otherBuilt
    refine ⟨?_, rfl, cast⟩
    exact
      { window with
        inside := by
          have none : Buffer.new.len = 0 := rfl
          simp only [none]
          omega
        holds := List.nil_prefix
        stands := stands }

theorem Window.seek_isSome {pos : SeekFrom} {acc : Accessor R}
    (window : reader.Window laws start stop)
    (nonnegative : 0 ≤ pos.target start stop reader.pos)
    (inside : pos.target start stop reader.pos ≤ stop - start)
    (serves : { reader.ctx with acc }.Serves Read.Yields content) :
    (reader.seek pos acc).isSome = true := by
  obtain rfl := window.starts
  obtain rfl := window.stops
  have within := window.inside
  unfold SeekingReader.seek
  simp only [Int.not_lt.mpr nonnegative, if_false]
  split
  · rename_i inWindow
    have enough : (pos.target reader.start reader.stop reader.pos).toNat -
        reader.pos ≤ reader.buf.len := by omega
    obtain ⟨buf, success, _⟩ := Buffer.advance_spec enough
    simp [success]
  · have reached : reader.start +
        (pos.target reader.start reader.stop reader.pos).toNat ≤
          reader.stop := by omega
    obtain ⟨source, built, _⟩ := laws.rebuild serves reached window.bounded
    simp [built]

end SeekingReader

/-! ## Whole sessions -/

namespace ReaderEvent

variable [Read R] [BufferSource R S]

/-- The calls that a caller may make: a chunk is consumed at most up to its
end, and a seek stays inside of the range.  The service goes on serving the
content. -/
def Admissible (content : Bytes) (reader : SeekingReader R S) :
    ReaderEvent R (BufferSource.Background S) → Prop
  | .consume amt =>
      ∃ front, reader.buf.inner.chunk = some front ∧ amt ≤ front.length
  | .seek pos acc =>
      0 ≤ pos.target reader.start reader.stop reader.pos ∧
        pos.target reader.start reader.stop reader.pos ≤
          reader.stop - reader.start ∧
        { reader.ctx with acc }.Serves Read.Yields content
  | _ => True

/-- No empty part is in the way of the bytes that a call hands out. -/
def Unobstructed (reader : SeekingReader R S) :
    ReaderEvent R (BufferSource.Background S) → Prop
  | .read size _ => reader.buf.Dense (min reader.buf.len size)
  | .fillBuf => reader.buf.Dense 1
  | _ => True

/-- A round of a call that reads, or progress in the background. -/
def Waits : ReaderEvent R (BufferSource.Background S) → Prop
  | .read _ _ => True
  | .fillBuf => True
  | .background _ => True
  | _ => False

end ReaderEvent

namespace ReaderSession

variable [Read R] [BufferSource R S] {content : Bytes}
  {laws : SourceLaws S content} {start stop : Nat}
  {session later : ReaderSession R S}
  {event : ReaderEvent R (BufferSource.Background S)}

structure Consistent (laws : SourceLaws S content) (start stop : Nat)
    (session : ReaderSession R S) : Prop where
  window : session.reader.Window laws start stop
  linked : ReaderReply.Linked 0 session.replies session.reader.pos
  faithful : ∀ reply ∈ session.replies, reply.Faithful content start stop

theorem Consistent.reply {reader : SeekingReader R S} {answer : ReaderAnswer}
    (consistent : session.Consistent laws start stop)
    (window : reader.Window laws start stop)
    (faithful : ReaderReply.Faithful content start stop
      ⟨session.reader.pos, answer, reader.pos⟩) :
    (session.reply reader answer).Consistent laws start stop where
  window := window
  linked := consistent.linked.concat answer reader.pos
  faithful := by
    intro reply member
    rcases List.mem_append.mp member with earlier | last
    · exact consistent.faithful reply earlier
    · cases List.mem_singleton.mp last
      exact faithful

theorem Consistent.round {reader : SeekingReader R S}
    {answer : Except IoError Bytes → ReaderAnswer}
    {progress : Progress Unit (Except IoError Bytes)}
    (consistent : session.Consistent laws start stop)
    (rounds : SeekingReader.Rounds laws start stop session.reader reader
      answer progress) :
    (session.round answer (reader, progress)).Consistent laws start stop := by
  obtain ⟨window, ⟨rfl, still⟩ | ⟨result, rfl, faithful⟩⟩ := rounds
  · exact { consistent with window, linked := still ▸ consistent.linked }
  · exact consistent.reply window faithful

theorem Consistent.step (consistent : session.Consistent laws start stop)
    (admissible : event.Admissible content session.reader)
    (unobstructed : event.Unobstructed session.reader)
    (stepped : session.step event = some later) :
    later.Consistent laws start stop := by
  have window := consistent.window
  cases event with
  | read size fuel =>
      simp only [ReaderSession.step, Option.map_eq_some_iff] at stepped
      obtain ⟨⟨reader, progress⟩, polled, rfl⟩ := stepped
      exact consistent.round (window.read polled)
  | fillBuf =>
      simp only [ReaderSession.step, Option.map_eq_some_iff] at stepped
      obtain ⟨⟨reader, progress⟩, polled, rfl⟩ := stepped
      exact consistent.round (window.fillBuf unobstructed polled)
  | consume amt =>
      simp only [ReaderSession.step, Option.bind_eq_bind,
        Option.bind_eq_some_iff] at stepped
      obtain ⟨front, chunked, reader, consumed, same⟩ := stepped
      cases same
      obtain ⟨other, found, within⟩ := admissible
      cases chunked.symm.trans found
      obtain ⟨kept, faithful⟩ := window.consume chunked within consumed
      exact consistent.reply kept faithful
  | seek pos acc =>
      simp only [ReaderSession.step, Option.bind_eq_bind,
        Option.bind_eq_some_iff] at stepped
      obtain ⟨⟨reader, result⟩, sought, same⟩ := stepped
      cases same
      obtain ⟨nonnegative, inside, serves⟩ := admissible
      rw [window.starts, window.stops] at nonnegative inside
      obtain ⟨kept, faithful⟩ :=
        window.seek nonnegative inside serves sought
      exact consistent.reply kept faithful
  | background event =>
      simp only [ReaderSession.step, Option.bind_eq_bind,
        Option.bind_eq_some_iff] at stepped
      obtain ⟨source, moved, same⟩ := stepped
      cases same
      exact { consistent with
        window := { window with stands := laws.background window.stands moved } }

/-! ## Calls that read come to their end -/

/-- What a call that reads still has to wait for. -/
def measure (laws : SourceLaws S content) (session : ReaderSession R S) :
    Nat :=
  laws.weight session.reader.source +
    if session.reader.buf.len = 0 then 1 else 0

theorem refill_measure {reader : SeekingReader R S}
    (window : session.reader.Window laws start stop)
    (empty : ¬ 0 < session.reader.buf.len)
    (refilled : session.reader.refill = some (reader, .suspended ())) :
    measure laws { session with reader } < measure laws session := by
  have none : session.reader.buf.len = 0 := by omega
  have stands := window.stands
  simp only [SeekingReader.refill, Option.bind_eq_bind,
    Option.bind_eq_some_iff] at refilled
  obtain ⟨⟨source, asked⟩, polled, same⟩ := refilled
  obtain ⟨lowered, bounded⟩ := laws.next_weight stands polled
  cases laws.next stands polled with
  | suspended _ =>
      cases same
      have lighter := lowered rfl
      simp only [measure, none]
      omega
  | @piece buf nonempty _ _ _ =>
      cases same
      have lighter := bounded buf rfl
      have filled : buf.len ≠ 0 := by omega
      simp only [measure, none, filled, if_true, if_false]
      omega
  | ended _ _ => cases same

omit [Read R] [BufferSource R S] in
/-- A round that does not return is one that asks the source. -/
private theorem wait_round {reader : SeekingReader R S}
    {answer : Except IoError Bytes → ReaderAnswer}
    {progress : Progress Unit (Except IoError Bytes)}
    (silent : (session.round answer (reader, progress)).replies.length =
      session.replies.length) : progress = .suspended () := by
  cases progress with
  | suspended _ => rfl
  | returned result => simp [round, ReaderSession.reply] at silent
  | panicked message => simp [round, ReaderSession.reply] at silent

theorem waitStep_spec (window : session.reader.Window laws start stop)
    (waits : event.Waits) (stepped : session.waitStep event = some later) :
    later.reader.Window laws start stop ∧
      measure laws later < measure laws session := by
  simp only [waitStep, Option.bind_eq_bind, Option.bind_eq_some_iff,
    Option.ite_none_right_eq_some] at stepped
  obtain ⟨next, stepped, silent, same⟩ := stepped
  cases same
  cases event with
  | read size fuel =>
      simp only [ReaderSession.step, Option.map_eq_some_iff] at stepped
      obtain ⟨⟨reader, progress⟩, polled, rfl⟩ := stepped
      obtain rfl := wait_round silent
      unfold SeekingReader.read at polled
      split at polled
      · simp [Option.bind_eq_some_iff] at polled
      · rename_i empty
        exact ⟨(window.refill empty polled).1,
          refill_measure window empty polled⟩
  | fillBuf =>
      simp only [ReaderSession.step, Option.map_eq_some_iff] at stepped
      obtain ⟨⟨reader, progress⟩, polled, rfl⟩ := stepped
      obtain rfl := wait_round silent
      unfold SeekingReader.fillBuf at polled
      split at polled
      · simp [Option.bind_eq_some_iff] at polled
      · rename_i empty
        exact ⟨(window.refill empty polled).1,
          refill_measure window empty polled⟩
  | consume amt => exact waits.elim
  | seek pos acc => exact waits.elim
  | background event =>
      simp only [ReaderSession.step, Option.bind_eq_bind,
        Option.bind_eq_some_iff] at stepped
      obtain ⟨source, moved, same⟩ := stepped
      cases same
      have lighter := laws.background_weight window.stands moved
      refine ⟨{ window with stands := laws.background window.stands moved },
        ?_⟩
      simp only [measure]
      omega

theorem refill_progress (window : session.reader.Window laws start stop) :
    session.reader.refill.isSome = true ∨
      ∃ event, (session.step (.background event)).isSome = true := by
  rcases laws.progress window.stands with resumes | ⟨event, moves⟩
  · left
    obtain ⟨⟨source, progress⟩, polled⟩ := Option.isSome_iff_exists.mp resumes
    simp only [SeekingReader.refill, polled, Option.bind_eq_bind,
      Option.bind_some]
    cases progress with
    | suspended _ => rfl
    | panicked message => rfl
    | returned result =>
        cases result with
        | none => rfl
        | some result => cases result <;> rfl
  · right
    obtain ⟨source, moved⟩ := Option.isSome_iff_exists.mp moves
    exact ⟨event, by simp [ReaderSession.step, moved]⟩

/-- The call can go on, by itself or with progress in the background. -/
def Continues (session : ReaderSession R S) :
    ReaderEvent R (BufferSource.Background S) → Prop
  | .read size _ => (∃ fuel, (session.step (.read size fuel)).isSome = true) ∨
      ∃ event, (session.step (.background event)).isSome = true
  | .fillBuf => (session.step .fillBuf).isSome = true ∨
      ∃ event, (session.step (.background event)).isSome = true
  | .background _ => True
  | event => (session.step event).isSome = true

/-- What a session answers is what a cursor over the selected bytes answers,
and every admissible call that meets `condition` returns. -/
structure IsCursor (content : Bytes) (start stop : Nat)
    (condition : SeekingReader R S →
      ReaderEvent R (BufferSource.Background S) → Prop)
    (session : ReaderSession R S) : Prop where
  position : session.reader.pos ≤ stop - start
  linked : ReaderReply.Linked 0 session.replies session.reader.pos
  faithful : ∀ reply ∈ session.replies, reply.Faithful content start stop
  /-- No schedule lets a call wait for ever. -/
  bounded : ∃ bound, ∀ events later, (∀ event ∈ events, event.Waits) →
    Automaton.run waitStep session events = some later →
    events.length ≤ bound
  continues : ∀ event, event.Admissible content session.reader →
    condition session.reader event → session.Continues event

theorem Consistent.continues (consistent : session.Consistent laws start stop)
    (admissible : event.Admissible content session.reader)
    (unobstructed : event.Unobstructed session.reader) :
    session.Continues event := by
  have window := consistent.window
  cases event with
  | read size fuel =>
      by_cases remains : 0 < session.reader.buf.len
      · left
        refine ⟨min session.reader.buf.len size + 1, ?_⟩
        obtain ⟨⟨bytes, buf⟩, copied⟩ := Option.isSome_iff_exists.mp
          (Buffer.copyToSlice_isSome (Nat.min_le_left _ _) unobstructed
            (Nat.lt_succ_self _))
        simp [ReaderSession.step, SeekingReader.read, remains, copied]
      · rcases refill_progress window with resumes | moves
        · left
          exact ⟨0, by
            simpa [ReaderSession.step, SeekingReader.read, remains]
              using resumes⟩
        · exact .inr moves
  | fillBuf =>
      by_cases remains : 0 < session.reader.buf.len
      · left
        obtain ⟨front, chunked, _⟩ :=
          Buffer.Dense.chunk unobstructed remains
        simp [ReaderSession.step, SeekingReader.fillBuf, remains, chunked]
      · rcases refill_progress window with resumes | moves
        · left
          simpa [ReaderSession.step, SeekingReader.fillBuf, remains]
            using resumes
        · exact .inr moves
  | consume amt =>
      obtain ⟨front, chunked, within⟩ := admissible
      have enough : amt ≤ session.reader.buf.len := by
        have bounded := (Buffer.chunk_prefix chunked).length_le
        rw [Buffer.length_bytes] at bounded
        omega
      obtain ⟨buf, success, _⟩ := Buffer.advance_spec enough
      simp [Continues, ReaderSession.step, SeekingReader.consume, chunked,
        success]
  | seek pos acc =>
      obtain ⟨nonnegative, inside, serves⟩ := admissible
      rw [window.starts, window.stops] at nonnegative inside
      obtain ⟨⟨reader, result⟩, sought⟩ := Option.isSome_iff_exists.mp
        (window.seek_isSome nonnegative inside serves)
      simp [Continues, ReaderSession.step, sought]
  | background event => trivial

theorem Consistent.isCursor (consistent : session.Consistent laws start stop) :
    session.IsCursor content start stop
      (fun reader event => event.Unobstructed reader) where
  position := by
    have inside := consistent.window.inside
    omega
  linked := consistent.linked
  faithful := consistent.faithful
  bounded := by
    refine ⟨measure laws session, ?_⟩
    intro events later waits ran
    exact Automaton.run_length_le (measure laws)
      (fun window waits stepped => (waitStep_spec window waits stepped).1)
      (fun window waits stepped => (waitStep_spec window waits stepped).2)
      consistent.window waits ran
  continues := fun _ admissible unobstructed =>
    consistent.continues admissible unobstructed

/-- A new reader over the range from `start` to `stop` is a cursor as long as
its calls are admissible and meet `condition`. -/
def CursorFrom (S : Type) [BufferSource R S] (ctx : ReadContext R)
    (content : Bytes) (start stop : Nat)
    (condition : SeekingReader R S →
      ReaderEvent R (BufferSource.Background S) → Prop) : Prop :=
  ∃ first : ReaderSession R S, new ctx start stop = some first ∧
    ∀ events session,
      Automaton.Along step (fun session event =>
        event.Admissible content session.reader ∧
          condition session.reader event) first events →
      Automaton.run step first events = some session →
      session.IsCursor content start stop condition

theorem cursorFrom_new (laws : SourceLaws S content) {ctx : ReadContext R}
    (ordered : start ≤ stop) (bounded : stop ≤ content.length)
    (serves : ctx.Serves Read.Yields content) :
    CursorFrom S ctx content start stop
      (fun reader event => event.Unobstructed reader) := by
  obtain ⟨reader, created, window, atStart⟩ :=
    SeekingReader.window_new laws serves ordered bounded
  refine ⟨{ reader, replies := [] }, by simp [new, created], ?_⟩
  intro events session along ran
  have initially : Consistent laws start stop { reader, replies := [] } :=
    { window
      linked := atStart.symm
      faithful := by simp }
  have reached : session.Consistent laws start stop :=
    Automaton.run_invariant_along
      (fun consistent permitted stepped =>
        consistent.step permitted.1 permitted.2 stepped)
      initially along ran
  exact reached.isCursor

end ReaderSession

/-! ## The sources of the two adapters -/

variable [Read R] {content : Bytes}

namespace BufferStream

def laws (content : Bytes) : SourceLaws (BufferStream R) content where
  stands := fun stop position stream => stop ≤ content.length ∧
    ∃ ctx, ctx.Serves Read.Yields content ∧
      stream.Fits (Cursor.ofContent R content) neverFails ctx stop position
  weight := weight
  rebuild := by
    intro ctx start stop newPos serves inside bounded
    have first : start ≤ stop := by omega
    have second : newPos ≤ stop - start := by omega
    refine ⟨.new ctx (newPos + start) (some (stop - start - newPos)), ?_,
      bounded, ctx, serves, ?_⟩
    · simp [BufferSource.rebuild, first, second]
    · have fits := fits_new (Cursor.ofContent R content) neverFails ctx
        (newPos + start) (stop - start - newPos)
      have ends : newPos + start + (stop - start - newPos) = stop := by omega
      rw [ends, Nat.add_comm newPos] at fits
      rw [Nat.add_comm newPos]
      exact fits
  next := by
    intro stop position stream later progress given polled
    obtain ⟨bounded, ctx, serves, fits⟩ := given
    cases fits.pollNext (serves.opens bounded) polled with
    | suspended kept => exact .suspended ⟨bounded, ctx, serves, kept⟩
    | piece nonempty right moved =>
        exact .piece (Buffer.len_pos nonempty) right
          (moved.position_le (Cursor.finite_ofContent content))
          ⟨bounded, ctx, serves, moved⟩
    | ended finished =>
        exact .ended finished ⟨bounded, ctx, serves, fits.pollNext_ended polled⟩
    | failed blamed => exact absurd blamed (serves.not_blamed bounded)
  background := by
    intro stop position stream later event given moved
    obtain ⟨bounded, ctx, serves, fits⟩ := given
    cases event with
    | finish place fuel =>
        exact ⟨bounded, ctx, serves, fits.finish (tasksFail_never fuel) moved⟩
    | finishAwaited fuel =>
        exact ⟨bounded, ctx, serves,
          fits.finishAwaited (tasksFail_never fuel) moved⟩
  next_weight := by
    intro stop position stream later progress given polled
    obtain ⟨_, ctx, _, fits⟩ := given
    exact fits.pollNext_weight polled
  background_weight := by
    intro stop position stream later event given moved
    cases event with
    | finish place fuel => exact finish_weight moved
    | finishAwaited fuel => exact finishAwaited_weight moved
  progress := by
    intro stop position stream given
    obtain ⟨_, ctx, _, fits⟩ := given
    rcases fits.progress (Cursor.finite_ofContent content) with
      resumes | ⟨place, fuel, ends⟩ | ⟨fuel, ends⟩
    · exact .inl resumes
    · exact .inr ⟨.finish place fuel, ends⟩
    · exact .inr ⟨.finishAwaited fuel, ends⟩

end BufferStream

theorem IteratingReader.toStreaming_readRound (self : IteratingReader R) :
    self.toStreaming.pollRead =
      (self.readRound.1.toStreaming, self.readRound.2) := by
  have same : ∀ (self : IteratingReader R) (r : R),
      self.toStreaming.readFrom r =
        ((self.readFrom r).1.toStreaming, (self.readFrom r).2) := by
    intro self r
    unfold readFrom StreamingReader.readFrom
    generalize Read.read r = answer
    obtain ⟨result, r⟩ := answer
    cases result with
    | error err => rfl
    | ok buf =>
        simp only
        split <;> rfl
  unfold readRound StreamingReader.pollRead ReadGenerator.nextBlockingReader
  simp only [toStreaming]
  cases self.reader with
  | some r => exact same self r
  | none =>
      simp only
      generalize self.generator.nextReader = answer
      obtain ⟨result, generator⟩ := answer
      cases result with
      | error err => rfl
      | ok next =>
          cases next with
          | none => rfl
          | some r => exact same { self with generator } r

namespace BufferIterator

/-- What one round of the iterator can come to. -/
inductive NextOutcome (cursor : Cursor R) (ctx : ReadContext R)
    (stop position : Nat) (later : BufferIterator R) :
    Progress Unit (Option (Except Error Buffer)) → Prop where
  | suspended
      (kept : later.inner.toStreaming.Stands cursor ctx stop position) :
      NextOutcome cursor ctx stop position later (.suspended ())
  | piece {buf : Buffer} (nonempty : buf.isEmpty = false)
      (right : cursor.piece position buf.bytes)
      (moved : later.inner.toStreaming.Stands cursor ctx stop
        (position + buf.len)) :
      NextOutcome cursor ctx stop position later (.returned (some (.ok buf)))
  | ended (finished : position = stop)
      (kept : later.inner.toStreaming.Stands cursor ctx stop position) :
      NextOutcome cursor ctx stop position later (.returned none)
  | failed {err : Error} (blamed : Blamed cursor neverFails ctx stop err) :
      NextOutcome cursor ctx stop position later
        (.returned (some (.error err)))

theorem nextRound_outcome {cursor : Cursor R} {ctx : ReadContext R}
    {stop position : Nat} {iter later : BufferIterator R}
    {progress : Progress Unit (Option (Except Error Buffer))}
    (opens : cursor.Opens ctx stop)
    (stands : iter.inner.toStreaming.Stands cursor ctx stop position)
    (polled : iter.nextRound = (later, progress)) :
    NextOutcome cursor ctx stop position later progress := by
  have outcome : StreamingReader.ReadOutcome cursor neverFails ctx stop
      position iter.inner.toStreaming.pollRead.1
      iter.inner.toStreaming.pollRead.2 := stands.pollRead opens
  have ended : ∀ {later buf}, buf.isEmpty = true →
      iter.inner.toStreaming.pollRead = (later, .returned (.ok buf)) →
      later = iter.inner.toStreaming := stands.pollRead_ended
  rw [IteratingReader.toStreaming_readRound] at outcome ended
  unfold nextRound at polled
  generalize iter.inner.readRound = round at outcome ended polled
  obtain ⟨inner, reading⟩ := round
  cases outcome with
  | suspended kept =>
      cases polled
      exact .suspended kept
  | piece nonempty right moved =>
      simp only [nonempty] at polled
      cases polled
      exact .piece nonempty right moved
  | ended finished =>
      have same := ended rfl rfl
      cases polled
      refine .ended finished ?_
      rw [same]
      exact stands
  | failed blamed =>
      cases polled
      exact .failed blamed

theorem next_weight {stop : Nat} {iter later : BufferIterator R}
    {progress : Progress Unit (Option (Except Error Buffer))}
    (ends : iter.inner.toStreaming.generator.Ends stop)
    (polled : BufferSource.next iter = some (later, progress)) :
    (progress = .suspended () →
        later.inner.toStreaming.weight < iter.inner.toStreaming.weight) ∧
      ∀ buf, progress = .returned (some (.ok buf)) →
        later.inner.toStreaming.weight ≤ iter.inner.toStreaming.weight := by
  obtain ⟨lowered, light⟩ := StreamingReader.pollRead_weight ends
  rw [IteratingReader.toStreaming_readRound] at lowered light
  simp only [BufferSource.next, nextRound, Option.some.injEq] at polled
  generalize iter.inner.readRound = answer at lowered light polled
  obtain ⟨inner, reading⟩ := answer
  cases reading with
  | suspended waiting =>
      cases polled
      exact ⟨fun _ => lowered rfl, fun _ _ => light⟩
  | panicked message =>
      cases polled
      refine ⟨?_, fun _ _ => light⟩
      intro impossible
      cases impossible
  | returned result =>
      have silent : ∃ item, (BufferIterator.mk inner, .returned item) =
          (later, progress) := by
        cases result with
        | error err => exact ⟨_, polled⟩
        | ok buf => exact ⟨_, polled⟩
      obtain ⟨item, same⟩ := silent
      cases same
      refine ⟨?_, fun _ _ => light⟩
      intro impossible
      cases impossible

def laws (content : Bytes) : SourceLaws (BufferIterator R) content where
  stands := fun stop position iter => stop ≤ content.length ∧
    ∃ ctx, ctx.Serves Read.Yields content ∧
      iter.inner.toStreaming.Stands (Cursor.ofContent R content) ctx stop
        position
  weight := fun iter => iter.inner.toStreaming.weight
  rebuild := by
    intro ctx start stop newPos serves inside bounded
    have ends : newPos + start + (stop - (newPos + start)) = stop := by omega
    have range := BytesRange.fromBounds_exclusive (newPos + start)
      (stop - (newPos + start))
    have stands := StreamingReader.stands_new (Cursor.ofContent R content) ctx
      (newPos + start) (stop - (newPos + start))
    rw [ends] at range stands
    refine ⟨⟨.new ctx ⟨newPos + start, some (stop - (newPos + start))⟩⟩, ?_,
      bounded, ctx, serves, ?_⟩
    · simp [BufferSource.rebuild, BufferIterator.new, range]
    · rw [Nat.add_comm start]
      exact stands
  next := by
    intro stop position iter later progress given polled
    obtain ⟨bounded, ctx, serves, stands⟩ := given
    simp only [BufferSource.next, Option.some.injEq] at polled
    cases nextRound_outcome (serves.opens bounded) stands polled with
    | suspended kept => exact .suspended ⟨bounded, ctx, serves, kept⟩
    | piece nonempty right moved =>
        exact .piece (Buffer.len_pos nonempty) right
          (moved.position_le (Cursor.finite_ofContent content))
          ⟨bounded, ctx, serves, moved⟩
    | ended finished kept =>
        exact .ended finished ⟨bounded, ctx, serves, kept⟩
    | failed blamed => exact absurd blamed (serves.not_blamed bounded)
  background := by
    intro stop position iter later event
    cases event
  next_weight := by
    intro stop position iter later progress given polled
    obtain ⟨_, ctx, _, stands⟩ := given
    exact next_weight stands.ends polled
  background_weight := by
    intro stop position iter later event
    cases event
  progress := by
    intro stop position iter given
    exact .inl rfl

end BufferIterator

/-- `FuturesAsyncReader` and `StdReader` are cursors over the selected range.
In every session whose calls are not obstructed by an empty part of a buffer,
they deliver the content at their position, move by what they have delivered
or to where a seek goes, and return. -/
theorem readers_are_cursors (content : Bytes) {start stop : Nat}
    (ordered : start ≤ stop) (within : stop ≤ content.length)
    (ctx blocking : ReadContext R)
    (serves : ctx.Serves Read.Yields content)
    (blockingServes : blocking.Serves Read.Yields content) :
    ReaderSession.CursorFrom (BufferStream R) ctx content start stop
        (fun reader event => event.Unobstructed reader) ∧
      ReaderSession.CursorFrom (BufferIterator R) blocking content start stop
        (fun reader event => event.Unobstructed reader) :=
  ⟨ReaderSession.cursorFrom_new (BufferStream.laws content) ordered within
      serves,
    ReaderSession.cursorFrom_new (BufferIterator.laws content) ordered within
      blockingServes⟩

theorem readers_are_cursors_bytewise :
    ReaderSession.CursorFrom (BufferStream ScriptedReader)
        (bytewiseContext ((OpReader.new.withChunk 2).withConcurrent 3))
        [1, 2, 3, 4, 5] 1 4 (fun reader event => event.Unobstructed reader) ∧
      ReaderSession.CursorFrom (BufferIterator ScriptedReader)
        (bytewiseContext OpReader.new) [1, 2, 3, 4, 5] 1 4
        (fun reader event => event.Unobstructed reader) := by
  have serves : ∀ options,
      (bytewiseContext options).Serves Read.Yields [1, 2, 3, 4, 5] := by
    intro options offset size _
    exact ⟨_, rfl, Read.yields_bytewise _⟩
  exact readers_are_cursors [1, 2, 3, 4, 5] (show 1 ≤ 4 by decide) (by decide)
    _ _ (serves _) (serves _)

/-- A service that answers every request at once, with an empty part in front
of the bytes. -/
def hollowAccessor (content : Bytes) : Accessor ScriptedReader where
  read := fun _ args =>
    let bytes := (content.drop args.range.offset).take
      (args.range.size.getD content.length)
    .ok ⟨if bytes.isEmpty then [] else [.ok (.fromVecBytes [[], bytes])]⟩
  stat := fun _ _ => .ok content.length

theorem yields_hollow (bytes : Bytes) :
    Read.Yields (⟨if bytes.isEmpty then []
      else [.ok (.fromVecBytes [[], bytes])]⟩ : ScriptedReader) bytes := by
  have ended : Read.Yields (⟨[]⟩ : ScriptedReader) [] := .done rfl rfl
  cases bytes with
  | nil => exact ended
  | cons byte bytes =>
      have whole : (Buffer.fromVecBytes [[], byte :: bytes]).bytes =
          byte :: bytes := by
        simp [Buffer.fromVecBytes, Buffer.bytes, Buffer.Inner.fromVecBytes]
      have nonempty : (Buffer.fromVecBytes [[], byte :: bytes]).bytes ≠ [] := by
        simp [whole]
      have yields : Read.Yields
          (⟨[.ok (.fromVecBytes [[], byte :: bytes])]⟩ : ScriptedReader)
          ((Buffer.fromVecBytes [[], byte :: bytes]).bytes ++ []) :=
        .more rfl nonempty ended
      rw [whole, List.append_nil] at yields
      exact yields

def hollowContext : ReadContext ScriptedReader :=
  .new (hollowAccessor [104]) "file" ⟨⟨0, none⟩, none⟩ OpReader.new

/-- The bytes are there after one round, and then no `read` ever returns. -/
theorem readers_are_cursors_fails_emptyPart :
    hollowContext.Serves Read.Yields [104] ∧
      ¬ ReaderSession.CursorFrom (BufferStream ScriptedReader) hollowContext
        [104] 0 1 (fun _ _ => True) := by
  refine ⟨fun offset size _ => ⟨_, rfl, yields_hollow _⟩, ?_⟩
  intro holds
  obtain ⟨first, created, cursor⟩ := holds
  cases created
  have cursor := cursor [.read 1 0] _ ⟨⟨trivial, trivial⟩, trivial⟩ rfl
  rcases cursor.continues (.read 1 0) trivial trivial with
    ⟨fuel, reads⟩ | ⟨event, moves⟩
  · obtain ⟨session, stepped⟩ := Option.isSome_iff_exists.mp reads
    simp only [ReaderSession.step, Option.map_eq_some_iff] at stepped
    obtain ⟨_, polled, _⟩ := stepped
    exact absurd (SeekingReader.dense_of_read (by decide) polled) (by decide)
  · cases event with
    | finish place fuel => cases moves
    | finishAwaited fuel => cases moves

end OpenDal
