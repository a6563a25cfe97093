import OpenDal.Layers.Retry
import OpenDal.Layers.VersionedRead
import OpenDal.Types.ReadToEnd

/-!
# Reading a file through the complete layer

A service holds a file when what it answers is true: it may refuse every
request and its readers may fail, but a reader that ends has returned the bytes
of the requested range that are there.  The complete layer makes a reader of a
range of known size fail when the range is not inside of the file.  What is
read from a position to another one is therefore right, or reading fails.
-/

namespace OpenDal

variable {R B : Type} [Read R] [Read B]

/-- What the service says about the file at `path` is true. -/
structure HoldsFile (inner : Accessor R) (path : String) (content : Bytes) :
    Prop where
  stat : ∀ {version length}, inner.stat path ⟨version⟩ = .ok length →
    length = content.length
  read : ∀ {range version r}, inner.read path ⟨range, version⟩ = .ok r →
    Read.Ends True r (range.select content)

/-- Nothing else than the bytes is returned. -/
def Delivered (bytes : Bytes) : Except Error Buffer → Prop
  | .ok buf => buf.bytes = bytes
  | .error _ => True

/-! ## Readers -/

namespace Read

variable {may : Prop} {r later : R} {bytes : Bytes}

theorem Ends.of_nonempty {buf : Buffer} (ends : Ends may r bytes)
    (answered : read r = (.ok buf, later)) (nonempty : buf.bytes ≠ []) :
    ∃ rest, bytes = buf.bytes ++ rest ∧ Ends may later rest := by
  cases ends with
  | done other empty =>
      cases answered.symm.trans other
      exact absurd empty nonempty
  | more other _ ends =>
      cases answered.symm.trans other
      exact ⟨_, rfl, ends⟩
  | fails _ other => cases answered.symm.trans other

theorem Ends.readAllLoop (ends : Ends may r bytes) (bufs : List Buffer) :
    ∃ fuel later result,
      Read.readAllLoop fuel bufs r = some (later, result) := by
  induction ends generalizing bufs with
  | @done r later buf answered empty =>
      have isEmpty := (Buffer.isEmpty_iff buf).mpr empty
      refine ⟨1, later, .ok (Buffer.flatten bufs), ?_⟩
      simp [Read.readAllLoop, answered, isEmpty]
  | @more r later buf rest answered nonempty _ induction =>
      have notEmpty := Buffer.isEmpty_eq_false nonempty
      obtain ⟨fuel, last, result, finished⟩ := induction (bufs ++ [buf])
      refine ⟨fuel + 1, last, result, ?_⟩
      simp [Read.readAllLoop, answered, notEmpty, finished]
  | @fails r later err bytes allowed answered =>
      refine ⟨1, later, .error err, ?_⟩
      simp [Read.readAllLoop, answered]

end Read

namespace CompleteReader

theorem ends {r : R} {bytes : Bytes} (ends : Read.Ends True r bytes)
    (size : Option Nat) (read : Nat) :
    Read.Ends True (CompleteReader.mk r size read) bytes := by
  induction ends generalizing read with
  | @done r later buf answered empty =>
      have step := read_end answered empty size read
      cases checked : (CompleteReader.mk r size read).check with
      | error err =>
          rw [checked] at step
          exact .fails trivial step
      | ok passed =>
          rw [checked] at step
          exact .done step empty
  | @more r later buf rest answered nonempty _ induction =>
      exact .more (read_piece answered nonempty size read) nonempty
        (induction _)
  | @fails r later err bytes allowed answered =>
      have step : Read.read (CompleteReader.mk r size read) =
          (.error err, CompleteReader.mk later size read) := by
        simp only [Read.read, answered]
      exact .fails trivial step

theorem read_ok {r later : CompleteReader R} {buf : Buffer}
    (answered : Read.read r = (.ok buf, later)) :
    Read.read r.inner = (.ok buf, later.inner) := by
  simp only [Read.read] at answered
  split at answered
  · cases answered
  · rename_i other inner given
    split at answered
    · split at answered
      · cases answered
      · cases answered
        exact given
    · cases answered
      exact given

/-- The reader stands at `position` of a range that ends at `stop`, and what it
is still going to return is in the file. -/
def InFile (content : Bytes) (stop position : Nat) (r : CompleteReader R) :
    Prop :=
  (CompleteReader.cursor R).stands stop position r ∧
    ∃ rest, Read.Ends True r.inner rest ∧ rest <+: content.drop position ∧
      position + rest.length ≤ stop

theorem InFile.more {content : Bytes} {stop position : Nat}
    {r later : CompleteReader R} {buf : Buffer}
    (given : r.InFile content stop position)
    (answered : Read.read r = (.ok buf, later)) (nonempty : buf.bytes ≠ []) :
    buf.bytes <+: content.drop position ∧
      later.InFile content stop (position + buf.len) := by
  obtain ⟨counted, rest, ends, right, inside⟩ := given
  obtain ⟨-, moved⟩ := (CompleteReader.cursor R).more counted answered
    nonempty
  obtain ⟨others, split, further⟩ :=
    ends.of_nonempty (read_ok answered) nonempty
  rw [split] at right inside
  rw [List.length_append, Buffer.length_bytes] at inside
  have begins : (buf.bytes ++ others).drop buf.len <+:
      content.drop (position + buf.len) := prefix_drop_of_prefix right
  rw [← Buffer.length_bytes, List.drop_left, Buffer.length_bytes] at begins
  refine ⟨(List.prefix_append _ _).trans right, moved, others, further,
    begins, ?_⟩
  omega

/-- Readers of parts of a file, which may fail. -/
def fileCursor (R : Type) [Read R] (content : Bytes) :
    Cursor (CompleteReader R) where
  piece := fun position bytes => bytes <+: content.drop position
  stands := InFile content
  piece_nil := (Cursor.ofContent R content).piece_nil
  piece_append := (Cursor.ofContent R content).piece_append
  more := InFile.more
  last := fun given => (CompleteReader.cursor R).last given.1

theorem finite_fileCursor (content : Bytes) :
    (fileCursor R content).Finite where
  inside := by
    intro stop position r given
    obtain ⟨-, rest, -, -, inside⟩ := given
    omega
  ends := by
    intro stop position r given
    obtain ⟨-, rest, ends, -⟩ := given
    exact (CompleteReader.ends ends r.size r.read).readAllLoop []

end CompleteReader

omit [Read R] in
theorem CompleteAccessor.read_ok {inner : Accessor R} {path : String}
    {args : OpRead} {r : CompleteReader R}
    (opened : CompleteAccessor.read inner path args = .ok r) :
    ∃ raw, inner.read path args = .ok raw ∧
      r = .new raw args.range.size := by
  unfold CompleteAccessor.read at opened
  cases answer : inner.read path args with
  | error err =>
      rw [answer] at opened
      cases opened
  | ok raw =>
      rw [answer] at opened
      cases opened
      exact ⟨raw, rfl, rfl⟩

/-! ## Reading from one position to another -/

namespace HoldsFile

variable {inner : Accessor R} {path : String} {content : Bytes}

theorem opens (file : HoldsFile inner path content) (args : OpRead)
    (options : OpReader) (stop : Nat) :
    (CompleteReader.fileCursor R content).Opens
      (versionContext inner path args options) stop := by
  intro offset size r positive within opened
  have counted : (CompleteReader.cursor R).stands (offset + size) offset r :=
    CompleteReader.opens rfl stop offset size r positive within opened
  obtain ⟨raw, answered, same⟩ := CompleteAccessor.read_ok opened
  subst same
  refine ⟨counted, _, file.read answered, List.take_prefix _ _, ?_⟩
  have length := List.length_take_le size (content.drop offset)
  exact Nat.add_le_add_left length offset

theorem piece_whole {start stop : Nat} {bytes : Bytes}
    (right : (CompleteReader.fileCursor R content).piece start bytes)
    (reaches : start + bytes.length = stop) :
    bytes = (content.take stop).drop start := by
  have begins : bytes <+: content.drop start := right
  have size : stop - start = bytes.length := by omega
  rw [List.drop_take, size]
  exact List.prefix_iff_eq_take.mp begins

theorem tasksFail_always (fuel : Nat)
    (task : Option (Task (CompleteReader R) Buffer)) :
    ChunkedReader.TasksFail (CompleteReader.fileCursor R content)
      (fun _ _ _ => True) fuel task := by
  intro chunk r handedBack err _ _ _
  trivial

theorem settles (file : HoldsFile inner path content) (args : OpRead)
    (options : OpReader) (start size : Nat) :
    (BufferStream.new (versionContext inner path args options) start
      (some size)).Settles
        (Delivered ((content.take (start + size)).drop start)) := by
  apply BufferStream.settles_new (CompleteReader.finite_fileCursor content)
    (file.opens args options (start + size)) tasksFail_always
  · intro err _
    trivial
  · intro buf right length
    apply piece_whole right
    rw [Buffer.length_bytes, length]

theorem settles_open (file : HoldsFile inner path content) (args : OpRead)
    (options : OpReader) (start : Nat) :
    (BufferStream.idle (.one (.new (versionContext inner path args options)
      ⟨start, none⟩))).Settles (Delivered (content.drop start)) := by
  have settles : (BufferStream.idle (.one
      (StreamingReader.new (versionContext inner path args options)
        ⟨start, none⟩))).Settles fun result =>
      (∃ buf, result = .ok buf ∧ buf.bytes = content.drop start) ∨
        True ∧ ∃ err, result = .error err := by
    apply BufferStream.settles_open
    · intro r opened
      obtain ⟨raw, answered, same⟩ := CompleteAccessor.read_ok opened
      subst same
      exact CompleteReader.ends (file.read answered) none 0
    · intro err _
      trivial
  apply settles.imp
  intro result given
  rcases given with ⟨buf, rfl, right⟩ | ⟨-, err, rfl⟩
  · exact right
  · trivial

theorem collects (file : HoldsFile inner path content) (args : OpRead)
    (options : OpReader) (start size : Nat) :
    ∃ fuel result,
      BlockingReader.collect fuel []
        ⟨.new (versionContext inner path args options) ⟨start, some size⟩⟩ =
          some result ∧
      Delivered ((content.take (start + size)).drop start) result := by
  have stands : (BufferIterator.mk (.new
      (versionContext inner path args options)
      ⟨start, some size⟩)).inner.toStreaming.Stands
        (CompleteReader.fileCursor R content)
        (versionContext inner path args options) (start + size) start :=
    StreamingReader.stands_new _ _ start size
  obtain ⟨fuel, result, collected, -, right⟩ :=
    BlockingReader.collect_settles []
      (CompleteReader.finite_fileCursor content)
      (file.opens args options (start + size)) stands
  refine ⟨fuel, result, collected, ?_⟩
  cases result with
  | error err => trivial
  | ok buf =>
      obtain ⟨bytes, piece, reaches, same⟩ := right buf rfl
      rw [List.flatMap_nil, List.nil_append] at same
      show buf.bytes = _
      rw [same]
      exact piece_whole piece reaches

theorem delivers_stream (file : HoldsFile inner path content) (args : OpRead)
    (options : OpReader) {start stop : Nat} (ordered : start ≤ stop) :
    ∃ reader : FuturesAsyncReader (CompleteReader R),
      SeekingReader.new (versionContext inner path args options) start stop =
        some reader ∧
      reader.Delivers ((content.take stop).drop start) := by
  have reaches : start + (stop - start) = stop := Nat.add_sub_cancel' ordered
  have fits := BufferStream.fits_new (CompleteReader.fileCursor R content)
    (fun _ _ _ => True) (versionContext inner path args options) start
    (stop - start)
  rw [reaches] at fits
  refine ⟨⟨versionContext inner path args options,
    .new (versionContext inner path args options) start (some (stop - start)),
    Buffer.new, start, stop, 0⟩, ?_, ?_⟩
  · simp [SeekingReader.new, BufferSource.rebuild, ordered]
  · apply SeekingReader.delivers (BufferStream.fallibleLaws
      (CompleteReader.finite_fileCursor content)
      (file.opens args options stop) tasksFail_always)
    · rfl
    · rfl
    · exact fits
    · exact fun right length => piece_whole right length

theorem delivers_iterator (file : HoldsFile inner path content)
    (args : OpRead) (options : OpReader) {start stop : Nat}
    (ordered : start ≤ stop) :
    ∃ reader : StdReader (CompleteReader R),
      SeekingReader.new (versionContext inner path args options) start stop =
        some reader ∧
      reader.Delivers ((content.take stop).drop start) := by
  have reaches : start + (stop - start) = stop := Nat.add_sub_cancel' ordered
  have range := BytesRange.fromBounds_exclusive start (stop - start)
  have stands := StreamingReader.stands_new
    (CompleteReader.fileCursor R content)
    (versionContext inner path args options) start (stop - start)
  rw [reaches] at range stands
  refine ⟨⟨versionContext inner path args options,
    ⟨.new (versionContext inner path args options)
      ⟨start, some (stop - start)⟩⟩,
    Buffer.new, start, stop, 0⟩, ?_, ?_⟩
  · simp [SeekingReader.new, BufferSource.rebuild, BufferIterator.new, range]
  · apply SeekingReader.delivers (BufferIterator.fallibleLaws
      (CompleteReader.finite_fileCursor content)
      (file.opens args options stop))
    · rfl
    · rfl
    · exact stands
    · exact fun right length => piece_whole right length

end HoldsFile

end OpenDal
