import Mathlib.Algebra.Group.Int.Defs
import OpenDal.Types.ReaderCursor

/-!
# The arithmetic of seeking

`seek` computes its target in `i64`: the positions are cast, and sums and
differences are checked; `none` is an overflow.  The unsigned sums and
differences behind it are checked as well.  A cast is not: a position from
`2^63` on becomes negative.

As long as nothing overflows this is the function of
`OpenDal.Types.SeekingReader`, which computes with integers.
-/

namespace OpenDal

/-- `as i64` of a `u64`. -/
def asI64 (value : Nat) : Int :=
  if value < 2 ^ 63 then value else value - 2 ^ 64

def checkedI64 (value : Int) : Option Int :=
  if -2 ^ 63 ≤ value ∧ value < 2 ^ 63 then some value else none

theorem asI64_of_lt {value : Nat} (small : value < 2 ^ 63) :
    asI64 value = value := by
  rw [asI64, if_pos small]

theorem checkedI64_of_ge {value : Int} (large : -2 ^ 63 ≤ value) :
    checkedI64 value = if value < 2 ^ 63 then some value else none := by
  unfold checkedI64
  by_cases small : value < 2 ^ 63
  · rw [if_pos ⟨large, small⟩, if_pos small]
  · rw [if_neg (fun both => small both.2), if_neg small]

namespace SeekFrom

/-- `Start` takes a `u64`, the others take an `i64`. -/
def Fits : SeekFrom → Prop
  | .start target => target < 2 ^ 64
  | .fromEnd offset => -2 ^ 63 ≤ offset ∧ offset < 2 ^ 63
  | .current offset => -2 ^ 63 ≤ offset ∧ offset < 2 ^ 63

/-- What is cast keeps its value. -/
def Casts (start stop pos : Nat) : SeekFrom → Prop
  | .start target => target < 2 ^ 63
  | .fromEnd _ => start < 2 ^ 63 ∧ stop < 2 ^ 63
  | .current _ => pos < 2 ^ 63

def newPos (start stop pos : Nat) : SeekFrom → Option Int
  | .start target => some (asI64 target)
  | .fromEnd offset => do
      let size ← checkedI64 (asI64 stop - asI64 start)
      checkedI64 (size + offset)
  | .current offset => checkedI64 (asI64 pos + offset)

theorem newPos_of_casts {start stop pos : Nat} {seek : SeekFrom}
    (ordered : start ≤ stop) (fits : seek.Fits)
    (casts : seek.Casts start stop pos) :
    seek.newPos start stop pos =
      if seek.target start stop pos < 2 ^ 63 then
        some (seek.target start stop pos)
      else none := by
  cases seek with
  | start target =>
      have small : (target : Int) < 2 ^ 63 := by
        have below : target < 2 ^ 63 := casts
        omega
      rw [newPos, asI64_of_lt casts, SeekFrom.target, if_pos small]
  | fromEnd offset =>
      have low : -2 ^ 63 ≤ offset := fits.1
      have below : stop < 2 ^ 63 := casts.2
      have size : checkedI64 ((stop : Int) - start) =
          some ((stop : Int) - start) := by
        have small : (stop : Int) - start < 2 ^ 63 := by omega
        rw [checkedI64_of_ge (by omega), if_pos small]
      simp only [newPos, asI64_of_lt casts.1, asI64_of_lt casts.2, size,
        SeekFrom.target, Option.bind_eq_bind, Option.bind_some]
      exact checkedI64_of_ge (by omega)
  | current offset =>
      have low : -2 ^ 63 ≤ offset := fits.1
      simp only [newPos, asI64_of_lt casts, SeekFrom.target]
      exact checkedI64_of_ge (by omega)

end SeekFrom

namespace SeekingReader

variable {R S : Type} [BufferSource R S]

/-- `seek` with the numbers of the machine. -/
def seekChecked (self : SeekingReader R S) (pos : SeekFrom)
    (acc : Accessor R) :
    Option (SeekingReader R S × Except IoError Nat) := do
  let newPos ← pos.newPos self.start self.stop self.pos
  if newPos < 0 then
    some (self, .error negativePosition)
  else
    let newPos := newPos.toNat
    let behind ← checkedAdd self.pos self.buf.len
    if self.pos ≤ newPos ∧ newPos < behind then do
      let cnt := newPos - self.pos
      let buf ← self.buf.advance cnt
      some ({ self with buf, pos := newPos }, .ok newPos)
    else do
      -- the sum is the start of the new range
      let _ ← checkedAdd newPos self.start
      let ctx := { self.ctx with acc }
      let source ← BufferSource.rebuild ctx self.start self.stop newPos
      some ({ self with ctx, source, buf := Buffer.new, pos := newPos },
        .ok newPos)

theorem seek_of_seekChecked {self later : SeekingReader R S}
    {pos : SeekFrom} {acc : Accessor R} {result : Except IoError Nat}
    (reached : pos.newPos self.start self.stop self.pos =
      some (pos.target self.start self.stop self.pos))
    (sought : self.seekChecked pos acc = some (later, result)) :
    self.seek pos acc = some (later, result) := by
  simp only [seekChecked, reached, Option.bind_eq_bind,
    Option.bind_some] at sought
  unfold seek
  split at sought
  · rename_i negative
    simpa [negative] using sought
  · rename_i nonnegative
    obtain ⟨behind, added, sought⟩ := Option.bind_eq_some_iff.mp sought
    cases eq_of_checkedAdd added
    simp only [nonnegative, if_false]
    split at sought
    · rename_i inWindow
      simpa [inWindow] using sought
    · rename_i outside
      obtain ⟨_, _, rebuilt⟩ := Option.bind_eq_some_iff.mp sought
      simpa [outside] using rebuilt

/-! ## Reading behind the end -/

/-- Rounds of `read` into a buffer of `size` bytes, until it returns. -/
inductive Reads (size : Nat) : SeekingReader R S → Bytes → Prop where
  | returned {self later : SeekingReader R S} {fuel : Nat} {bytes : Bytes}
      (polled : self.read size fuel = some (later, .returned (.ok bytes))) :
      Reads size self bytes
  | waits {self later : SeekingReader R S} {fuel : Nat} {bytes : Bytes}
      (polled : self.read size fuel = some (later, .suspended ()))
      (rest : Reads size later bytes) : Reads size self bytes
  | background {self : SeekingReader R S} {source : S} {bytes : Bytes}
      {event : BufferSource.Background S}
      (happened : BufferSource.background self.source event = some source)
      (rest : Reads size { self with source } bytes) : Reads size self bytes

/-- Every `read` returns 0 bytes. -/
def AtEnd (self : SeekingReader R S) : Prop :=
  ∀ size, Reads size self []

theorem Reads.ne_nil {self : SeekingReader R S} {bytes : Bytes}
    (reads : Reads 1 self bytes) (remains : 0 < self.buf.len) :
    bytes ≠ [] := by
  induction reads with
  | @returned self later fuel bytes polled =>
      simp only [SeekingReader.read, remains, if_true] at polled
      obtain ⟨⟨copied, buf⟩, success, same⟩ :=
        Option.bind_eq_some_iff.mp polled
      cases same
      obtain ⟨-, rfl, -⟩ := Buffer.copyToSlice_eq_some success
      intro nothing
      have length := congrArg List.length nothing
      rw [List.length_take, Buffer.length_bytes, List.length_nil] at length
      omega
  | @waits self later fuel bytes polled rest induction =>
      simp only [SeekingReader.read, remains, if_true] at polled
      obtain ⟨_, _, same⟩ := Option.bind_eq_some_iff.mp polled
      cases same
  | background happened rest induction => exact induction remains

/-! ## Exact seeks -/

/-- The seek does what it should: a target below zero or outside of `u64` is
refused, any other is reached without an overflow, and behind the end nothing
is read. -/
structure SeeksExactly (reader : SeekingReader R S) (pos : SeekFrom)
    (acc : Accessor R) : Prop where
  casts : pos.Casts reader.start reader.stop reader.pos
  refused : pos.target reader.start reader.stop reader.pos < 0 ∨
      2 ^ 64 ≤ pos.target reader.start reader.stop reader.pos →
    reader.seekChecked pos acc = some (reader, .error negativePosition)
  accepted : 0 ≤ pos.target reader.start reader.stop reader.pos →
    pos.target reader.start reader.stop reader.pos < 2 ^ 64 →
    ∃ later, reader.seekChecked pos acc = some (later,
        .ok (pos.target reader.start reader.stop reader.pos).toNat) ∧
      ((reader.stop : Int) - reader.start <
        pos.target reader.start reader.stop reader.pos → later.AtEnd)

/-- What is cast is below `2^63`, as is the target, which is not behind the
end of the range; and the end of the window is below `2^64`. -/
structure Safe (reader : SeekingReader R S) (pos : SeekFrom) : Prop where
  casts : pos.Casts reader.start reader.stop reader.pos
  small : pos.target reader.start reader.stop reader.pos < 2 ^ 63
  inside : pos.target reader.start reader.stop reader.pos ≤
    reader.stop - reader.start
  window : 0 ≤ pos.target reader.start reader.stop reader.pos →
    reader.pos + reader.buf.len < 2 ^ 64

/-- A new source is made exactly for a rest of the range. -/
def Rebuilds (S : Type) [BufferSource R S] : Prop :=
  ∀ {ctx : ReadContext R} {start stop newPos : Nat}, start ≤ stop →
    ((BufferSource.rebuild ctx start stop newPos : Option S).isSome = true ↔
      start + newPos ≤ stop)

variable {reader : SeekingReader R S} {pos : SeekFrom} {acc : Accessor R}

theorem seekChecked_negative
    (reached : pos.newPos reader.start reader.stop reader.pos =
      some (pos.target reader.start reader.stop reader.pos))
    (negative : pos.target reader.start reader.stop reader.pos < 0) :
    reader.seekChecked pos acc = some (reader, .error negativePosition) := by
  simp [seekChecked, reached, negative]

theorem seekChecked_inside (rebuilds : Rebuilds S)
    (ordered : reader.start ≤ reader.stop) (u64 : reader.stop < 2 ^ 64)
    (reached : pos.newPos reader.start reader.stop reader.pos =
      some (pos.target reader.start reader.stop reader.pos))
    (nonnegative : 0 ≤ pos.target reader.start reader.stop reader.pos)
    (inside : pos.target reader.start reader.stop reader.pos ≤
      reader.stop - reader.start)
    (window : reader.pos + reader.buf.len < 2 ^ 64) :
    ∃ later, reader.seekChecked pos acc = some (later,
      .ok (pos.target reader.start reader.stop reader.pos).toNat) := by
  have positive : ¬ pos.target reader.start reader.stop reader.pos < 0 := by
    omega
  obtain ⟨behind, added⟩ :=
    Option.isSome_iff_exists.mp (isSome_checkedAdd.mpr window)
  cases eq_of_checkedAdd added
  simp only [seekChecked, reached, Option.bind_eq_bind, Option.bind_some,
    positive, if_false, added]
  generalize pos.target reader.start reader.stop reader.pos = target
    at nonnegative inside
  split
  · rename_i inWindow
    have enough : target.toNat - reader.pos ≤ reader.buf.len := by omega
    obtain ⟨buf, success, _⟩ := Buffer.advance_spec enough
    exact ⟨_, by rw [success]; rfl⟩
  · have within : reader.start + target.toNat ≤ reader.stop := by omega
    obtain ⟨sum, added⟩ : ∃ sum,
        checkedAdd target.toNat reader.start = some sum :=
      Option.isSome_iff_exists.mp (isSome_checkedAdd.mpr (by omega))
    obtain ⟨source, built⟩ : ∃ source,
        BufferSource.rebuild { reader.ctx with acc } reader.start reader.stop
          target.toNat = some source :=
      Option.isSome_iff_exists.mp ((rebuilds ordered).mpr within)
    simp only [added, built, Option.bind_some]
    exact ⟨_, rfl⟩

theorem seekChecked_behind (rebuilds : Rebuilds S)
    (ordered : reader.start ≤ reader.stop) {later : SeekingReader R S}
    {result : Except IoError Nat}
    (reached : pos.newPos reader.start reader.stop reader.pos =
      some (pos.target reader.start reader.stop reader.pos))
    (behind : (reader.stop : Int) - reader.start <
      pos.target reader.start reader.stop reader.pos)
    (sought : reader.seekChecked pos acc = some (later, result)) :
    0 < later.buf.len := by
  have positive : ¬ pos.target reader.start reader.stop reader.pos < 0 := by
    omega
  have same := seek_of_seekChecked reached sought
  simp only [seek, positive, if_false] at same
  generalize pos.target reader.start reader.stop reader.pos = target
    at behind same
  split at same
  · rename_i inWindow
    obtain ⟨buf, success, pair⟩ := Option.bind_eq_some_iff.mp same
    cases pair
    obtain ⟨-, dropped⟩ := Buffer.advance_eq_some success
    have length := congrArg List.length dropped
    rw [List.length_drop, Buffer.length_bytes, Buffer.length_bytes] at length
    simp only
    omega
  · obtain ⟨source, built, pair⟩ := Option.bind_eq_some_iff.mp same
    have within := (rebuilds ordered).mp (Option.isSome_of_eq_some built)
    omega

theorem seeksExactly_iff_safe (rebuilds : Rebuilds S)
    (ordered : reader.start ≤ reader.stop) (u64 : reader.stop < 2 ^ 64)
    (fits : pos.Fits) : reader.SeeksExactly pos acc ↔ reader.Safe pos := by
  constructor
  · intro exact'
    have arithmetic := SeekFrom.newPos_of_casts ordered fits exact'.casts
    by_cases negative : pos.target reader.start reader.stop reader.pos < 0
    · exact ⟨exact'.casts, by omega, by omega, by omega⟩
    · have small : pos.target reader.start reader.stop reader.pos <
          2 ^ 63 := by
        by_contra large
        rw [if_neg large] at arithmetic
        have stuck : reader.seekChecked pos acc = none := by
          simp [seekChecked, arithmetic]
        by_cases huge :
            2 ^ 64 ≤ pos.target reader.start reader.stop reader.pos
        · have refused := exact'.refused (.inr huge)
          rw [stuck] at refused
          cases refused
        · obtain ⟨later, sought, -⟩ := exact'.accepted (by omega) (by omega)
          rw [stuck] at sought
          cases sought
      rw [if_pos small] at arithmetic
      obtain ⟨later, sought, nothing⟩ :=
        exact'.accepted (by omega) (by omega)
      refine ⟨exact'.casts, small, ?_, ?_⟩
      · by_contra outside
        have behind : (reader.stop : Int) - reader.start <
            pos.target reader.start reader.stop reader.pos := by omega
        have remains :=
          seekChecked_behind rebuilds ordered arithmetic behind sought
        exact (nothing behind 1).ne_nil remains rfl
      · intro _
        by_contra overflow
        have stuck : checkedAdd reader.pos reader.buf.len = none := by
          rw [← Option.not_isSome_iff_eq_none, isSome_checkedAdd]
          exact overflow
        simp [seekChecked, arithmetic, negative, stuck] at sought
  · intro safe
    have arithmetic := SeekFrom.newPos_of_casts ordered fits safe.casts
    rw [if_pos safe.small] at arithmetic
    refine ⟨safe.casts, ?_, ?_⟩
    · intro outside
      have small := safe.small
      exact seekChecked_negative arithmetic (by omega)
    · intro nonnegative _
      obtain ⟨later, sought⟩ : ∃ later, reader.seekChecked pos acc =
          some (later,
            .ok (pos.target reader.start reader.stop reader.pos).toNat) :=
        seekChecked_inside rebuilds ordered u64 arithmetic nonnegative
          safe.inside (safe.window nonnegative)
      refine ⟨later, sought, ?_⟩
      intro behind
      have inside := safe.inside
      omega

end SeekingReader

/-! ## Sessions -/

namespace ReaderSession

variable {R S : Type} [BufferSource R S]

/-- `step` with the numbers of the machine: what is added to the position does
not overflow. -/
def checkedStep (session : ReaderSession R S) :
    ReaderEvent R (BufferSource.Background S) → Option (ReaderSession R S)
  | .seek pos acc => do
      let (reader, result) ← session.reader.seekChecked pos acc
      some (session.reply reader (.sought pos result))
  | event => do
      let later ← session.step event
      if later.reader.pos < 2 ^ 64 then some later else none

end ReaderSession

namespace SeekingReader

variable {R S : Type} [BufferSource R S]

/-- The readers have the same range. -/
def SameRange (self later : SeekingReader R S) : Prop :=
  later.start = self.start ∧ later.stop = self.stop

variable {self later : SeekingReader R S}

theorem sameRange_refill
    {progress : Progress Unit (Except IoError Bytes)}
    (polled : self.refill = some (later, progress)) :
    self.SameRange later := by
  unfold refill at polled
  obtain ⟨⟨source, round⟩, _, same⟩ := Option.bind_eq_some_iff.mp polled
  split at same <;> cases same <;> exact ⟨rfl, rfl⟩

theorem sameRange_read {size fuel : Nat}
    {progress : Progress Unit (Except IoError Bytes)}
    (polled : self.read size fuel = some (later, progress)) :
    self.SameRange later := by
  unfold SeekingReader.read at polled
  split at polled
  · obtain ⟨copied, _, same⟩ := Option.bind_eq_some_iff.mp polled
    cases same
    exact ⟨rfl, rfl⟩
  · exact sameRange_refill polled

theorem sameRange_fillBuf
    {progress : Progress Unit (Except IoError Bytes)}
    (polled : self.fillBuf = some (later, progress)) :
    self.SameRange later := by
  unfold SeekingReader.fillBuf at polled
  split at polled
  · obtain ⟨front, _, same⟩ := Option.bind_eq_some_iff.mp polled
    cases same
    exact ⟨rfl, rfl⟩
  · exact sameRange_refill polled

omit [BufferSource R S] in
theorem sameRange_consume {amt : Nat}
    (consumed : self.consume amt = some later) : self.SameRange later := by
  obtain ⟨buf, _, same⟩ := Option.bind_eq_some_iff.mp consumed
  cases same
  exact ⟨rfl, rfl⟩

theorem sameRange_seekChecked {pos : SeekFrom} {acc : Accessor R}
    {result : Except IoError Nat}
    (sought : self.seekChecked pos acc = some (later, result)) :
    self.SameRange later := by
  unfold seekChecked at sought
  obtain ⟨newPos, _, sought⟩ := Option.bind_eq_some_iff.mp sought
  split at sought
  · cases sought
    exact ⟨rfl, rfl⟩
  · obtain ⟨behind, _, sought⟩ := Option.bind_eq_some_iff.mp sought
    split at sought
    · obtain ⟨buf, _, same⟩ := Option.bind_eq_some_iff.mp sought
      cases same
      exact ⟨rfl, rfl⟩
    · obtain ⟨_, _, rebuilt⟩ := Option.bind_eq_some_iff.mp sought
      obtain ⟨source, _, same⟩ := Option.bind_eq_some_iff.mp rebuilt
      cases same
      exact ⟨rfl, rfl⟩

end SeekingReader

namespace ReaderSession

variable {R S : Type} [BufferSource R S]
  {session later : ReaderSession R S}

omit [BufferSource R S] in
theorem sameRange_round {reader : SeekingReader R S}
    (answer : Except IoError Bytes → ReaderAnswer)
    {progress : Progress Unit (Except IoError Bytes)}
    (kept : session.reader.SameRange reader) :
    session.reader.SameRange
      (session.round answer (reader, progress)).reader := by
  cases progress <;> exact kept

theorem sameRange_step {event : ReaderEvent R (BufferSource.Background S)}
    (stepped : session.step event = some later) :
    (∃ pos acc, event = .seek pos acc) ∨
      session.reader.SameRange later.reader := by
  cases event with
  | seek pos acc => exact .inl ⟨pos, acc, rfl⟩
  | read size fuel =>
      obtain ⟨⟨reader, progress⟩, polled, rfl⟩ :=
        Option.map_eq_some_iff.mp stepped
      exact .inr (sameRange_round _ (SeekingReader.sameRange_read polled))
  | fillBuf =>
      obtain ⟨⟨reader, progress⟩, polled, rfl⟩ :=
        Option.map_eq_some_iff.mp stepped
      exact .inr (sameRange_round _ (SeekingReader.sameRange_fillBuf polled))
  | consume amt =>
      obtain ⟨front, _, rest⟩ := Option.bind_eq_some_iff.mp stepped
      obtain ⟨reader, consumed, same⟩ := Option.bind_eq_some_iff.mp rest
      cases same
      exact .inr (SeekingReader.sameRange_consume consumed)
  | background event =>
      obtain ⟨source, _, same⟩ := Option.bind_eq_some_iff.mp stepped
      cases same
      exact .inr ⟨rfl, rfl⟩

theorem sameRange_checkedStep
    {event : ReaderEvent R (BufferSource.Background S)}
    (stepped : session.checkedStep event = some later) :
    session.reader.SameRange later.reader := by
  unfold checkedStep at stepped
  split at stepped
  · obtain ⟨⟨reader, result⟩, sought, same⟩ :=
      Option.bind_eq_some_iff.mp stepped
    cases same
    exact SeekingReader.sameRange_seekChecked sought
  · rename_i notSeek
    obtain ⟨next, stepped, same⟩ := Option.bind_eq_some_iff.mp stepped
    split at same
    · cases same
      rcases sameRange_step stepped with ⟨pos, acc, rfl⟩ | kept
      · exact absurd rfl (notSeek pos acc)
      · exact kept
    · cases same

/-- In every state that a reader over a range can reach, with any service and
whatever is read, consumed and sought before, these are the exact seeks. -/
def SeeksExactlyWhenSafe (S : Type) [BufferSource R S] : Prop :=
  ∀ (ctx : ReadContext R) (start stop : Nat), start ≤ stop →
    stop < 2 ^ 64 → ∀ first session : ReaderSession R S,
    ReaderSession.new ctx start stop = some first →
    ∀ events, Automaton.run checkedStep first events = some session →
    ∀ pos acc, pos.Fits →
      (session.reader.SeeksExactly pos acc ↔ session.reader.Safe pos)

theorem seeksExactlyWhenSafe (rebuilds : SeekingReader.Rebuilds S) :
    SeeksExactlyWhenSafe S := by
  intro ctx start stop ordered u64 first session created events ran pos acc
    fits
  obtain ⟨reader, opened, same⟩ := Option.bind_eq_some_iff.mp created
  cases same
  obtain ⟨source, _, same⟩ := Option.bind_eq_some_iff.mp opened
  cases same
  have range : session.reader.start = start ∧
      session.reader.stop = stop := by
    have kept : ∀ {state : ReaderSession R S}
        {event : ReaderEvent R (BufferSource.Background S)}
        {next : ReaderSession R S},
        (state.reader.start = start ∧ state.reader.stop = stop) →
        checkedStep state event = some next →
        next.reader.start = start ∧ next.reader.stop = stop := by
      intro state event next range stepped
      obtain ⟨starts, stops⟩ := sameRange_checkedStep stepped
      exact ⟨starts.trans range.1, stops.trans range.2⟩
    apply Automaton.run_invariant_of_forall kept _ ran
    exact ⟨rfl, rfl⟩
  apply SeekingReader.seeksExactly_iff_safe rebuilds
  · rw [range.1, range.2]
    exact ordered
  · rw [range.2]
    exact u64
  · exact fits

end ReaderSession

/-! ## The two adapters -/

theorem isSome_checkedSub {left right : Nat} :
    (checkedSub left right).isSome = true ↔ right ≤ left := by
  unfold checkedSub
  by_cases enough : right ≤ left <;> simp [enough]

variable (R : Type) [Read R]

theorem BufferStream.rebuilds :
    SeekingReader.Rebuilds (BufferStream R) := by
  intro ctx start stop newPos ordered
  have size : checkedSub stop start = some (stop - start) := by
    simp [checkedSub, ordered]
  have built : (BufferSource.rebuild ctx start stop newPos :
      Option (BufferStream R)) =
      (checkedSub (stop - start) newPos).map fun size =>
        .new ctx (newPos + start) (some size) := by
    simp only [BufferSource.rebuild, size, Option.bind_eq_bind,
      Option.bind_some]
    cases checkedSub (stop - start) newPos <;> rfl
  rw [built, Option.isSome_map, isSome_checkedSub]
  omega

theorem BufferIterator.rebuilds :
    SeekingReader.Rebuilds (BufferIterator R) := by
  intro ctx start stop newPos ordered
  have built : (BufferSource.rebuild ctx start stop newPos :
      Option (BufferIterator R)) =
      (checkedSub stop (newPos + start)).map fun size =>
        ⟨.new ctx ⟨newPos + start, some size⟩⟩ := by
    simp only [BufferSource.rebuild, BufferIterator.new,
      BytesRange.fromBounds, BytesRange.startOf]
    cases checkedSub stop (newPos + start) <;> rfl
  rw [built, Option.isSome_map, isSome_checkedSub]
  omega

/-- When seeking is exact, for both readers. -/
theorem seeks_exactly_iff :
    ReaderSession.SeeksExactlyWhenSafe (BufferStream R) ∧
      ReaderSession.SeeksExactlyWhenSafe (BufferIterator R) :=
  ⟨ReaderSession.seeksExactlyWhenSafe (BufferStream.rebuilds R),
    ReaderSession.seeksExactlyWhenSafe (BufferIterator.rebuilds R)⟩

/-- As long as the service serves the content, the window ends inside of the
range and its end does not overflow. -/
theorem SeekingReader.Window.safe {S : Type} [BufferSource R S]
    {content : Bytes} {laws : SourceLaws S content} {start stop : Nat}
    {reader : SeekingReader R S} {pos : SeekFrom}
    (window : reader.Window laws start stop) (u64 : stop < 2 ^ 64)
    (casts : pos.Casts reader.start reader.stop reader.pos)
    (small : pos.target reader.start reader.stop reader.pos < 2 ^ 63)
    (inside : pos.target reader.start reader.stop reader.pos ≤
      reader.stop - reader.start) : reader.Safe pos := by
  refine ⟨casts, small, inside, ?_⟩
  intro _
  have ends := window.inside
  omega

/-- One byte behind the end of five bytes. -/
theorem seeks_exactly_fails_behind :
    ∃ reader : FuturesAsyncReader ScriptedReader,
      SeekingReader.new (bytewiseContext .new) 0 5 = some reader ∧
      ¬ reader.SeeksExactly (.start 6) (bytewiseContext .new).acc ∧
      (reader.seekChecked (.start 6) (bytewiseContext .new).acc).isSome =
        false := by
  refine ⟨_, rfl, ?_, rfl⟩
  intro exact'
  obtain ⟨later, sought, -⟩ := exact'.accepted (by decide) (by decide)
  cases sought

end OpenDal
