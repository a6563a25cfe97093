import OpenDal.Types.RangeParsing
import OpenDal.Types.SeekArithmetic
import OpenDal.Types.SkippedReads
import OpenDal.Types.StdWriter

/-!
# The file object of the Python binding

A file in the mode `rb` is a `StdReader` over the whole content.  It is
compared with a position in the content: `FileStep` says what each call returns
and where it leaves the position.

`readline` with a size is the one call that does not return what it reads:
`read_until` appends the line behind the zeros that the vector has been filled
with, and `truncate` keeps as many of these as the line has bytes.
-/

namespace OpenDal

namespace StdReader

variable {R : Type} {content : Bytes} {r : StdReader R}

theorem ahead_whole (content : Bytes) (r : StdReader R) :
    r.ahead content 0 content.length = content.drop r.pos := by
  simp [ahead, ReaderReply.selected]

variable [Read R]

theorem Ready.pos_le (ready : r.Ready content 0 content.length) :
    r.pos ≤ content.length := by
  have inside := ready.window.inside
  omega

theorem Ready.seekChecked (ready : r.Ready content 0 content.length)
    (small : content.length < 2 ^ 63) {seek : SeekFrom} {target : Nat}
    {acc : Accessor R}
    (goes : seek.newPos 0 content.length r.pos = some (target : Int))
    (inside : target ≤ content.length)
    (serves : { r.ctx with acc }.Serves Read.Yields content) :
    ∃ later, r.seekChecked seek acc = some (later, .ok target) ∧
      StdReader.Ready content 0 content.length later ∧
      later.pos = target := by
  have starts := ready.window.starts
  have stops := ready.window.stops
  have window := ready.window.inside
  -- the target decides, however it has been given
  have computed : SeekFrom.newPos r.start r.stop r.pos (.start target) =
      some (target : Int) := by
    rw [SeekFrom.newPos, asI64_of_lt (by omega)]
  have same : r.seekChecked seek acc = r.seekChecked (.start target) acc := by
    rw [← starts, ← stops] at goes
    simp only [SeekingReader.seekChecked, goes, computed]
  have rebuilds : SeekingReader.Rebuilds (BufferIterator R) :=
    BufferIterator.rebuilds R
  have nonnegative :
      0 ≤ (SeekFrom.start target).target r.start r.stop r.pos :=
    Int.natCast_nonneg target
  have bounded : (SeekFrom.start target).target r.start r.stop r.pos ≤
      (r.stop : Int) - r.start := by
    simp only [SeekFrom.target]
    omega
  obtain ⟨later, sought⟩ := SeekingReader.seekChecked_inside rebuilds
    (by omega) (by omega) computed nonnegative bounded (by omega)
  have plain := SeekingReader.seek_of_seekChecked computed sought
  rw [starts, stops] at nonnegative bounded
  obtain ⟨kept, faithful⟩ :=
    ready.window.seek nonnegative bounded serves plain
  have reached : r.seekChecked seek acc = some (later, .ok target) := by
    rw [same, sought]
    rfl
  have here : later.pos = target := faithful.1
  refine ⟨later, reached, ⟨kept, ?_⟩, here⟩
  simp only [SeekingReader.seek] at plain
  split at plain
  · cases plain
  · split at plain
    · obtain ⟨buf, success, pair⟩ := Option.bind_eq_some_iff.mp plain
      cases pair
      exact ready.solid.advance success
    · obtain ⟨source, _, pair⟩ := Option.bind_eq_some_iff.mp plain
      cases pair
      exact Buffer.solid_new

end StdReader

namespace Python

inductive FileState (R : Type) where
  | reader (reader : StdReader R)
  | writer (writer : StdWriter)
  | closed

/-- The exceptions with their texts; an error of `std::io` stands for its
own. -/
inductive PyErr where
  | ioError (message : String)
  | io (err : IoError)
  | valueError (message : String)

inductive FileCall (R : Type) where
  | read (size : Option Nat)
  | readline (size : Option Nat)
  /-- A buffer of `size` bytes. -/
  | readinto (size : Nat) (readonly contiguous : Bool)
  | write (bs : Bytes)
  /-- `acc` is how the service answers from then on. -/
  | seek (pos : Int) (whence : Nat) (acc : Accessor R)
  | tell (acc : Accessor R)
  | flush
  | close

inductive FileAnswer where
  | bytes (bytes : Bytes)
  /-- The front of the buffer after `readinto`. -/
  | filled (front : Bytes)
  | position (pos : Nat)
  | written (count : Nat)
  | none
deriving DecidableEq

def closedFile : PyErr :=
  .ioError "I/O operation failed for reading on closed file."

def notSeekable : PyErr :=
  .ioError "Seek operation is not supported by the backing service."

/-- `b'\n'`. -/
def newline : UInt8 := 10

/-- `as u64` of an `i64`. -/
def asU64 (value : Int) : Nat :=
  (value % 2 ^ 64).toNat

/-- `write_all` of `std::io::Write`. -/
def writeAllRound (fuel : Nat) : StdWriter × Bytes →
    Option (StdWriter × Bytes ⊕ Except PyErr Unit × StdWriter)
  | (w, []) => some (.inr (.ok (), w))
  | (w, bs) => do
      match ← w.write fuel bs with
      | (.ok 0, w) =>
          some (.inr (.error (.ioError "failed to write whole buffer"), w))
      | (.ok n, w) => some (.inl (w, bs.drop n))
      | (.error err, w) =>
          if err.kind = .interrupted then
            some (.inl (w, bs))
          else
            some (.inr (.error (.io err), w))

namespace FileState

variable {R : Type} [Read R]

/-- What a call that reads makes of a file that is not open for it. -/
def notReadable : FileState R → PyErr
  | .closed => closedFile
  | _ => .ioError "I/O operation failed for reading on write only file."

/-- A call on the reader, with its answer and its error for Python. -/
def onReader {T : Type} (answer : T → FileAnswer)
    (outcome : Option (Except IoError T × StdReader R)) :
    Option (Except PyErr FileAnswer × FileState R) :=
  outcome.map fun (result, r) =>
    ((result.map answer).mapError .io, .reader r)

def read (space : Nat → Nat) (fuel : Nat) (size : Option Nat)
    (r : StdReader R) : Option (Except PyErr FileAnswer × FileState R) :=
  match size with
  | some size => onReader .bytes (r.readOnce size fuel)
  | none => onReader .bytes (r.readToEnd space fuel)

def readline (fuel : Nat) (size : Option Nat) (r : StdReader R) :
    Option (Except PyErr FileAnswer × FileState R) :=
  match size with
  | none => onReader .bytes (r.readUntil newline none fuel)
  | some size =>
      -- the line is behind the zeros when the vector is cut off
      onReader (fun line =>
          .bytes ((List.replicate size 0 ++ line).take line.length))
        (r.readUntil newline (some size) fuel)

def readinto (fuel size : Nat) (readonly contiguous : Bool)
    (r : StdReader R) : Option (Except PyErr FileAnswer × FileState R) :=
  if readonly then
    some (.error (.ioError "Buffer is not writable."), .reader r)
  else if !contiguous then
    some (.error (.ioError "Buffer is not C contiguous."), .reader r)
  else
    onReader .filled (r.readOnce size fuel)

def seekFrom (pos : Int) : Nat → Option SeekFrom
  | 0 => some (.start (asU64 pos))
  | 1 => some (.current pos)
  | 2 => some (.fromEnd pos)
  | _ => none

def seek (pos : Int) (whence : Nat) (acc : Accessor R) (r : StdReader R) :
    Option (Except PyErr FileAnswer × FileState R) :=
  match seekFrom pos whence with
  | some target =>
      onReader .position ((r.seekChecked target acc).map Prod.swap)
  | none => some (.error (.valueError "invalid whence"), .reader r)

/-- A call of the file; `none` is a panic, or too little fuel. -/
def perform (space : Nat → Nat) (fuel : Nat) (file : FileState R) :
    FileCall R → Option (Except PyErr FileAnswer × FileState R)
  | .read size =>
      match file with
      | .reader r => read space fuel size r
      | _ => some (.error file.notReadable, file)
  | .readline size =>
      match file with
      | .reader r => readline fuel size r
      | _ => some (.error file.notReadable, file)
  | .readinto size readonly contiguous =>
      match file with
      | .reader r => readinto fuel size readonly contiguous r
      | _ => some (.error file.notReadable, file)
  | .seek pos whence acc =>
      match file with
      | .reader r => seek pos whence acc r
      | _ => some (.error notSeekable, file)
  | .tell acc =>
      match file with
      -- `stream_position` is a seek to where the reader is
      | .reader r =>
          onReader .position
            ((r.seekChecked (.current 0) acc).map Prod.swap)
      | _ => some (.error file.notReadable, file)
  | .write bs =>
      match file with
      | .reader _ =>
          some (.error (.ioError
            "I/O operation failed for reading on read only file."), file)
      | .closed => some (.error closedFile, file)
      | .writer w => do
          let (result, w) ← Loop.iterate (writeAllRound fuel) fuel (w, bs)
          some (result.map fun _ => .written bs.length, .writer w)
  | .flush =>
      match file with
      | .writer w => do
          let (result, w) ← w.flush fuel
          some ((result.map fun _ => .none).mapError .io, .writer w)
      | _ => some (.ok .none, file)
  | .close =>
      match file with
      | .writer w => do
          match ← w.close fuel with
          | (.error err, w) => some (.error (.io err), .writer w)
          | (.ok (), _) => some (.ok .none, .closed)
      | _ => some (.ok .none, .closed)

/-- `Operator::open` in the mode `rb`; `none` is an overflow. -/
def openReader (ctx : ReadContext R) : Option (Except Error (FileState R)) :=
  ((BlockingReader.new ctx).intoStdRead ⟨.unbounded, .unbounded⟩).map
    fun (result, _) => result.map .reader

end FileState

/-! ## A position in the content -/

variable {R : Type}

/-- Where a seek goes from `pos`. -/
def seekTarget (length pos : Nat) (offset : Int) : Nat → Option Int
  | 0 => some offset
  | 1 => some (pos + offset)
  | 2 => some (length + offset)
  | _ => none

/-- The calls that a closed file refuses. -/
def FileCall.NeedsOpen : FileCall R → Prop
  | .flush => False
  | .close => False
  | _ => True

def FileCall.closedError : FileCall R → PyErr
  | .seek .. => notSeekable
  | _ => closedFile

/-- What a call returns at a position, and where it leaves it; a file that is
closed has none. -/
inductive FileStep (content : Bytes) : Option Nat → FileCall R →
    Except PyErr FileAnswer → Option Nat → Prop where
  | readAll (pos : Nat) :
      FileStep content (some pos) (.read none)
        (.ok (.bytes (content.drop pos))) (some content.length)
  | read {pos size : Nat} {bytes : Bytes} (begins : bytes <+: content.drop pos)
      (within : bytes.length ≤ size)
      (atEnd : bytes = [] → size = 0 ∨ pos = content.length) :
      FileStep content (some pos) (.read (some size)) (.ok (.bytes bytes))
        (some (pos + bytes.length))
  | readline {pos : Nat} {line : Bytes}
      (same : line = lineOf newline (content.drop pos)) :
      FileStep content (some pos) (.readline none) (.ok (.bytes line))
        (some (pos + line.length))
  /-- Zeros are returned in the place of the line. -/
  | readlineSize {pos size : Nat} {line : Bytes}
      (same : line = lineOf newline ((content.drop pos).take size)) :
      FileStep content (some pos) (.readline (some size))
        (.ok (.bytes (List.replicate line.length 0)))
        (some (pos + line.length))
  | readinto {pos size : Nat} {bytes : Bytes}
      (begins : bytes <+: content.drop pos) (within : bytes.length ≤ size)
      (atEnd : bytes = [] → size = 0 ∨ pos = content.length) :
      FileStep content (some pos) (.readinto size false true)
        (.ok (.filled bytes)) (some (pos + bytes.length))
  | readonly (pos size : Nat) (contiguous : Bool) :
      FileStep content (some pos) (.readinto size true contiguous)
        (.error (.ioError "Buffer is not writable.")) (some pos)
  | scattered (pos size : Nat) :
      FileStep content (some pos) (.readinto size false false)
        (.error (.ioError "Buffer is not C contiguous.")) (some pos)
  | seek {pos whence target : Nat} {offset : Int} {acc : Accessor R}
      (goes : seekTarget content.length pos offset whence = some target) :
      FileStep content (some pos) (.seek offset whence acc)
        (.ok (.position target)) (some target)
  | negative {pos whence : Nat} {offset target : Int} {acc : Accessor R}
      (goes : seekTarget content.length pos offset whence = some target)
      (below : target < 0) :
      FileStep content (some pos) (.seek offset whence acc)
        (.error (.io SeekingReader.negativePosition)) (some pos)
  | invalid {pos whence : Nat} {offset : Int} {acc : Accessor R}
      (goes : seekTarget content.length pos offset whence = none) :
      FileStep content (some pos) (.seek offset whence acc)
        (.error (.valueError "invalid whence")) (some pos)
  | tell (pos : Nat) (acc : Accessor R) :
      FileStep content (some pos) (.tell acc) (.ok (.position pos)) (some pos)
  | write (pos : Nat) (bs : Bytes) :
      FileStep content (some pos) (.write bs)
        (.error (.ioError
          "I/O operation failed for reading on read only file.")) (some pos)
  | flush (place : Option Nat) :
      FileStep content place .flush (.ok .none) place
  | close (place : Option Nat) :
      FileStep content place .close (.ok .none) none
  | closed {call : FileCall R} (needs : call.NeedsOpen) :
      FileStep content none call (.error call.closedError) none

/-- Calls with their results lead from one position to another. -/
def Follows (content : Bytes) :
    Option Nat → List (FileCall R × Except PyErr FileAnswer) →
      Option Nat → Prop
  | first, [], last => first = last
  | first, (call, result) :: replies, last =>
      ∃ next, FileStep content first call result next ∧
        Follows content next replies last

theorem Follows.concat {content : Bytes} {first middle last : Option Nat}
    {replies : List (FileCall R × Except PyErr FileAnswer)}
    {call : FileCall R} {result : Except PyErr FileAnswer}
    (follows : Follows content first replies middle)
    (stepped : FileStep content middle call result last) :
    Follows content first (replies ++ [(call, result)]) last := by
  induction replies generalizing first with
  | nil =>
      cases follows
      exact ⟨last, stepped, rfl⟩
  | cons reply replies induction =>
      obtain ⟨next, begun, others⟩ := follows
      exact ⟨next, begun, induction others⟩

variable [Read R] {content : Bytes}

/-- The file stands at the position. -/
def Stands (content : Bytes) : Option Nat → FileState R → Prop
  | some pos, .reader r =>
      r.Ready content 0 content.length ∧ r.pos = pos
  | none, .closed => True
  | _, _ => False

theorem stands_reader {r : StdReader R}
    (ready : r.Ready content 0 content.length) :
    Stands content (some r.pos) (.reader r) :=
  ⟨ready, rfl⟩

/-- A seek is into the content or before it, with an offset of 64 bits, and
the service goes on serving the content. -/
def FileCall.Admissible (content : Bytes) (file : FileState R) :
    FileCall R → Prop
  | .seek offset whence acc => ∀ r, file = .reader r →
      (-2 ^ 63 ≤ offset ∧ offset < 2 ^ 63) ∧
        (∀ target, seekTarget content.length r.pos offset whence =
          some target → target ≤ content.length) ∧
        { r.ctx with acc }.Serves Read.Yields content
  | .tell acc => ∀ r, file = .reader r →
      { r.ctx with acc }.Serves Read.Yields content
  | _ => True

theorem asI64_asU64 {value : Int} (low : -2 ^ 63 ≤ value)
    (high : value < 2 ^ 63) : asI64 (asU64 value) = value := by
  unfold asI64 asU64
  split <;> omega

theorem seekFrom_none {length pos whence : Nat} {offset : Int}
    (goes : seekTarget length pos offset whence = none) :
    FileState.seekFrom offset whence = none := by
  match whence, goes with
  | _ + 3, _ => rfl

theorem newPos_seekFrom {length pos whence : Nat} {offset target : Int}
    (low : -2 ^ 63 ≤ offset) (high : offset < 2 ^ 63)
    (small : length < 2 ^ 63) (inside : pos ≤ length)
    (bounded : target ≤ length)
    (goes : seekTarget length pos offset whence = some target) :
    ∃ seek, FileState.seekFrom offset whence = some seek ∧
      seek.newPos 0 length pos = some target := by
  match whence, goes with
  | 0, goes =>
      cases goes
      exact ⟨_, rfl, by simp [SeekFrom.newPos, asI64_asU64 low high]⟩
  | 1, goes =>
      cases goes
      refine ⟨_, rfl, ?_⟩
      have position : asI64 pos = pos := asI64_of_lt (by omega)
      rw [SeekFrom.newPos, position, checkedI64, if_pos (by omega)]
  | 2, goes =>
      cases goes
      refine ⟨_, rfl, ?_⟩
      have zero : asI64 0 = 0 := rfl
      have size : checkedI64 ((length : Int) - 0) = some (length : Int) := by
        rw [checkedI64, if_pos (by omega), Int.sub_zero]
      simp only [SeekFrom.newPos, asI64_of_lt small, zero, size,
        Option.bind_eq_bind, Option.bind_some]
      rw [checkedI64, if_pos (by omega)]

/-! ## One call -/

/-- A call returns if there is enough fuel, and it returns what it does at this
place. -/
structure Performs (content : Bytes) (space : Nat → Nat) (place : Option Nat)
    (file : FileState R) (call : FileCall R) : Prop where
  returns : ∃ fuel result later,
    file.perform space fuel call = some (result, later)
  sound : ∀ {fuel result later},
    file.perform space fuel call = some (result, later) →
      ∃ next, FileStep content place call result next ∧
        Stands content next later

variable {space : Nat → Nat} {place : Option Nat} {file : FileState R}
  {call : FileCall R}

theorem Performs.always {result : Except PyErr FileAnswer}
    {later : FileState R} {next : Option Nat}
    (performed : ∀ fuel, file.perform space fuel call = some (result, later))
    (stepped : FileStep content place call result next)
    (stands : Stands content next later) :
    Performs content space place file call where
  returns := ⟨0, result, later, performed 0⟩
  sound := by
    intro fuel other last answered
    cases (performed fuel).symm.trans answered
    exact ⟨next, stepped, stands⟩

theorem Performs.loop {r : StdReader R} {pos : Nat} {σ T : Type}
    {round : σ → Option (σ ⊕ StdReader.Answer R T)} {state : σ}
    {finished : StdReader.Answer R T → Prop} (answer : T → FileAnswer)
    (performed : ∀ fuel, (FileState.reader r).perform space fuel call =
      FileState.onReader answer (Loop.iterate round fuel state))
    (loops : Loop.Returns round state finished)
    (stepped : ∀ {outcome : StdReader.Answer R T}, finished outcome →
      ∃ value count, outcome.1 = .ok value ∧
        FileStep content (some pos) call (.ok (answer value))
          (some (pos + count)) ∧
        r.Moves content 0 content.length count outcome.2)
    (here : r.pos = pos) :
    Performs content space (some pos) (.reader r) call where
  returns := by
    obtain ⟨⟨fuel, outcome, iterated⟩, _⟩ := loops
    exact ⟨fuel, _, _, by rw [performed, iterated]; rfl⟩
  sound := by
    intro fuel result later answered
    rw [performed] at answered
    obtain ⟨outcome, iterated, same⟩ := Option.map_eq_some_iff.mp answered
    obtain ⟨value, count, returned, step, moves⟩ :=
      stepped (loops.2 fuel outcome iterated)
    obtain ⟨result, last⟩ := outcome
    cases returned
    cases same
    have position : last.pos = pos + count := by rw [moves.pos, here]
    exact ⟨_, step, moves.ready, position⟩

theorem performs_reader (small : content.length < 2 ^ 63)
    (returns : Read.ReturnsSolid R) (roomy : ∀ length, 0 < space length)
    {r : StdReader R} (ready : r.Ready content 0 content.length)
    (admissible : call.Admissible content (.reader r)) :
    Performs content space (some r.pos) (.reader r) call := by
  have front := StdReader.ahead_whole content r
  have bounded := ready.pos_le
  have ended : content.drop r.pos = [] → r.pos = content.length := by
    intro none
    have short := List.drop_eq_nil_iff.mp none
    omega
  cases call with
  | read size =>
      cases size with
      | none =>
          apply Performs.loop .bytes (fun _ => rfl)
            (StdReader.readToEnd_returns returns ready roomy) _ rfl
          rintro outcome ⟨returned, moves⟩
          rw [front] at returned moves
          refine ⟨_, _, returned, ?_, moves⟩
          have last : r.pos + (content.drop r.pos).length = content.length := by
            rw [List.length_drop]
            omega
          rw [last]
          exact .readAll r.pos
      | some size =>
          apply Performs.loop .bytes (fun _ => rfl)
            (StdReader.readOnce_returns returns ready size) _ rfl
          rintro outcome ⟨bytes, returned, begins, within, atEnd, moves⟩
          rw [front] at begins atEnd
          exact ⟨bytes, _, returned,
            .read begins within fun none => (atEnd none).imp_right ended,
            moves⟩
  | readline size =>
      cases size with
      | none =>
          apply Performs.loop .bytes (fun _ => rfl)
            (StdReader.readUntil_returns returns ready newline none) _ rfl
          rintro outcome ⟨returned, moves⟩
          rw [front] at returned moves
          exact ⟨_, _, returned, .readline rfl, moves⟩
      | some size =>
          apply Performs.loop _ (fun _ => rfl)
            (StdReader.readUntil_returns returns ready newline (some size)) _
            rfl
          rintro outcome ⟨returned, moves⟩
          rw [front] at returned moves
          refine ⟨_, _, returned, ?_, moves⟩
          simp only [StdReader.capped]
          generalize same :
            lineOf newline ((content.drop r.pos).take size) = line
          have short : line.length ≤ size := by
            rw [← same]
            exact (prefix_lineOf _).length_le.trans (List.length_take_le _ _)
          have zeros : (List.replicate size 0 ++ line).take line.length =
              List.replicate line.length 0 := by
            rw [List.take_append_of_le_length (by simpa using short),
              List.take_replicate, Nat.min_eq_left short]
          rw [zeros]
          exact .readlineSize same.symm
  | readinto size readonly contiguous =>
      cases readonly with
      | true =>
          exact .always (fun _ => rfl) (.readonly r.pos size contiguous)
            (stands_reader ready)
      | false =>
          cases contiguous with
          | false =>
              exact .always (fun _ => rfl) (.scattered r.pos size)
                (stands_reader ready)
          | true =>
              apply Performs.loop .filled (fun _ => rfl)
                (StdReader.readOnce_returns returns ready size) _ rfl
              rintro outcome ⟨bytes, returned, begins, within, atEnd, moves⟩
              rw [front] at begins atEnd
              exact ⟨bytes, _, returned, .readinto begins within
                fun none => (atEnd none).imp_right ended, moves⟩
  | write bs =>
      exact .always (fun _ => rfl) (.write r.pos bs) (stands_reader ready)
  | seek offset whence acc =>
      obtain ⟨⟨low, high⟩, inside, serves⟩ := admissible r rfl
      cases goes : seekTarget content.length r.pos offset whence with
      | none =>
          refine .always (fun _ => ?_) (.invalid goes) (stands_reader ready)
          simp [FileState.perform, FileState.seek, seekFrom_none goes]
      | some target =>
          obtain ⟨seek, same, computed⟩ :=
            newPos_seekFrom low high small bounded (inside target goes) goes
          by_cases negative : target < 0
          · refine .always (fun _ => ?_) (.negative goes negative)
              (stands_reader ready)
            have window := ready.window
            rw [← window.starts, ← window.stops] at computed
            simp [FileState.perform, FileState.seek, FileState.onReader, same,
              SeekingReader.seekChecked, computed, negative, Except.map,
              Except.mapError]
          · obtain ⟨target, rfl⟩ :=
              Int.eq_ofNat_of_zero_le (Int.not_lt.mp negative)
            obtain ⟨later, sought, kept, rfl⟩ := ready.seekChecked small
              computed (Int.ofNat_le.mp (inside _ goes)) serves
            refine .always (fun _ => ?_) (.seek goes) (stands_reader kept)
            simp [FileState.perform, FileState.seek, FileState.onReader, same,
              sought, Except.map, Except.mapError]
  | tell acc =>
      have position : SeekFrom.newPos 0 content.length r.pos (.current 0) =
          some (r.pos : Int) := by
        rw [SeekFrom.newPos, asI64_of_lt (by omega), Int.add_zero, checkedI64,
          if_pos (by omega)]
      obtain ⟨later, sought, kept, here⟩ :=
        ready.seekChecked small position bounded (admissible r rfl)
      rw [← here] at sought ⊢
      refine .always (fun _ => ?_) (.tell later.pos acc) (stands_reader kept)
      simp [FileState.perform, FileState.onReader, sought, Except.map,
        Except.mapError]
  | flush =>
      exact .always (fun _ => rfl) (.flush _) (stands_reader ready)
  | close =>
      exact .always (fun _ => rfl) (.close _) trivial

theorem performs_closed (call : FileCall R) :
    Performs content space none .closed call := by
  cases call with
  | flush => exact .always (fun _ => rfl) (.flush none) trivial
  | close => exact .always (fun _ => rfl) (.close none) trivial
  | seek => exact .always (fun _ => rfl) (.closed trivial) trivial
  | read => exact .always (fun _ => rfl) (.closed trivial) trivial
  | readline => exact .always (fun _ => rfl) (.closed trivial) trivial
  | readinto => exact .always (fun _ => rfl) (.closed trivial) trivial
  | write => exact .always (fun _ => rfl) (.closed trivial) trivial
  | tell => exact .always (fun _ => rfl) (.closed trivial) trivial

theorem performs (small : content.length < 2 ^ 63)
    (returns : Read.ReturnsSolid R) (roomy : ∀ length, 0 < space length)
    (stands : Stands content place file)
    (admissible : call.Admissible content file) :
    Performs content space place file call := by
  cases file with
  | reader r =>
      cases place with
      | none => exact stands.elim
      | some pos =>
          obtain ⟨ready, rfl⟩ := stands
          exact performs_reader small returns roomy ready admissible
  | writer w => cases place <;> exact stands.elim
  | closed =>
      cases place with
      | none => exact performs_closed call
      | some pos => exact stands.elim

/-! ## Sessions -/

/-- A file and what its calls have returned. -/
structure FileSession (R : Type) where
  file : FileState R
  replies : List (FileCall R × Except PyErr FileAnswer)

/-- The events are calls with their fuel. -/
def FileSession.step (space : Nat → Nat) (session : FileSession R)
    (event : Nat × FileCall R) : Option (FileSession R) := do
  let (result, file) ← session.file.perform space event.1 event.2
  some ⟨file, session.replies ++ [(event.2, result)]⟩

theorem openReader_stands {ctx : ReadContext R}
    (known : ctx.acc.stat ctx.path { version := none } =
      .ok content.length)
    (serves : ctx.Serves Read.Yields content) :
    ∃ file, FileState.openReader ctx = some (.ok file) ∧
      Stands content (some 0) file := by
  obtain ⟨r, created, window, here⟩ := SeekingReader.window_new
    (BufferIterator.laws content) serves (Nat.zero_le _) (Nat.le_refl _)
  have solid : r.buf.Solid := by
    have built := created
    simp only [SeekingReader.new, Option.bind_eq_bind,
      Option.bind_eq_some_iff] at built
    obtain ⟨source, _, same⟩ := built
    cases same
    exact Buffer.solid_new
  refine ⟨.reader r, ?_, ⟨window, solid⟩, here⟩
  simp [FileState.openReader, BlockingReader.new, BlockingReader.intoStdRead,
    BlockingReader.parseRange, Bound.first, Bound.behind,
    BlockingReader.contentLength, AtomicContentLength.load,
    AtomicContentLength.new, known, Except.map, created]

/-- Two lines, the second without its end. -/
def linesContext : ReadContext BytesReader :=
  .new (decliningAccessor [97, 98, 10, 99, 100] []) "file"
    ⟨⟨0, none⟩, none⟩ (OpReader.new.withChunk 2)

def linesReader : StdReader BytesReader :=
  { ctx := linesContext
    source := ⟨.new linesContext ⟨0, some 5⟩⟩
    buf := Buffer.new
    start := 0
    stop := 5
    pos := 0 }

/-- A line of at most four bytes, the rest behind it, and a closed file. -/
def linesCalls : List (Nat × FileCall BytesReader) :=
  [(9, .readline (some 4)), (9, .read none), (0, .close), (0, .read none)]

end Python

end OpenDal
