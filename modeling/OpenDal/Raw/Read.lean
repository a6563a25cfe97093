import OpenDal.Types.BufferSequence
import OpenDal.Types.Error

/-!
# `oio::Read`

A reader returns one buffer after the other; the empty buffer is the end.
`Cursor` says what a group of results assumes about the readers of a service:
a reader knows its position, what it returns belongs to that position, and it
ends only at the end of what was asked for.
-/

namespace OpenDal

/-- `oio::Read`. -/
class Read (R : Type) where
  read : R → Except Error Buffer × R

namespace Read

variable {R : Type} [Read R]

/-- The loop of `read_all` with the buffers collected so far, at most `fuel`
times.  They are lost when `read` fails. -/
def readAllLoop : Nat → List Buffer → R → Option (R × Except Error Buffer)
  | 0, _, _ => none
  | fuel + 1, bufs, r =>
      match read r with
      | (.ok buf, r) =>
          if buf.isEmpty then
            some (r, .ok (Buffer.flatten bufs))
          else
            readAllLoop fuel (bufs ++ [buf]) r
      | (.error err, r) => some (r, .error err)

def readAll (fuel : Nat) (r : R) : Option (R × Except Error Buffer) :=
  readAllLoop fuel [] r

end Read

/-- A reader that gives fixed answers and then ends. -/
structure ScriptedReader where
  replies : List (Except Error Buffer)

instance : Read ScriptedReader where
  read := fun r =>
    match r.replies with
    | [] => (.ok Buffer.new, r)
    | reply :: rest => (reply, ⟨rest⟩)

/-- A reader that returns the bytes one by one. -/
def ScriptedReader.bytewise (bytes : Bytes) : ScriptedReader :=
  ⟨bytes.map fun byte => .ok (Buffer.fromBytes [byte])⟩

/-! ## Assumptions about readers -/

structure Cursor (R : Type) [Read R] where
  /-- These bytes are right at this position. -/
  piece : Nat → Bytes → Prop
  /-- The reader is at position `position` of a range that ends at `stop`. -/
  stands : (stop position : Nat) → R → Prop
  piece_nil : ∀ position, piece position []
  piece_append : ∀ {position left right}, piece position left →
    piece (position + left.length) right → piece position (left ++ right)
  more : ∀ {stop position r buf later}, stands stop position r →
    Read.read r = (.ok buf, later) → buf.bytes ≠ [] →
    piece position buf.bytes ∧ stands stop (position + buf.len) later
  last : ∀ {stop position r buf later}, stands stop position r →
    Read.read r = (.ok buf, later) → buf.bytes = [] → position = stop

namespace Cursor

variable {R : Type} [Read R] (cursor : Cursor R)

private theorem readAllLoop_spec {fuel stop position : Nat}
    {bufs : List Buffer} {r later : R} {buf : Buffer}
    (stands : cursor.stands stop
      (position + (bufs.flatMap Buffer.bytes).length) r)
    (collected : cursor.piece position (bufs.flatMap Buffer.bytes))
    (finished : Read.readAllLoop fuel bufs r = some (later, .ok buf)) :
    cursor.piece position buf.bytes ∧ position + buf.len = stop := by
  induction fuel generalizing bufs r with
  | zero => cases finished
  | succ fuel induction =>
      simp only [Read.readAllLoop] at finished
      split at finished
      · rename_i chunk next answered
        split at finished
        · rename_i empty
          cases finished
          have ended := cursor.last stands answered
            ((Buffer.isEmpty_iff chunk).mp empty)
          rw [← Buffer.length_bytes, Buffer.bytes_flatten]
          exact ⟨collected, ended⟩
        · rename_i nonempty
          rw [Buffer.isEmpty_iff] at nonempty
          obtain ⟨piece, moved⟩ := cursor.more stands answered nonempty
          have grown : (bufs ++ [chunk]).flatMap Buffer.bytes =
              bufs.flatMap Buffer.bytes ++ chunk.bytes := by simp
          apply induction _ _ finished
          · rw [grown, List.length_append, Buffer.length_bytes,
              ← Nat.add_assoc]
            exact moved
          · rw [grown]
            exact cursor.piece_append collected piece
      · cases finished

/-- What `read_all` returns reaches to the end of the range. -/
theorem readAll_spec {fuel stop position : Nat} {r later : R} {buf : Buffer}
    (stands : cursor.stands stop position r)
    (finished : Read.readAll fuel r = some (later, .ok buf)) :
    cursor.piece position buf.bytes ∧ position + buf.len = stop := by
  have start : cursor.stands stop
      (position + (List.flatMap Buffer.bytes []).length) r := stands
  exact readAllLoop_spec cursor start (cursor.piece_nil position) finished

end Cursor

/-! ## Readers of a fixed content -/

namespace Read

variable {R : Type} [Read R] {r later : R} {bytes : Bytes}

/-- The reader returns exactly `bytes`, split into non-empty buffers, and then
the empty buffer. -/
inductive Yields : R → Bytes → Prop where
  | done {r later : R} {buf : Buffer} (answered : read r = (.ok buf, later))
      (empty : buf.bytes = []) : Yields r []
  | more {r later : R} {buf : Buffer} {rest : Bytes}
      (answered : read r = (.ok buf, later)) (nonempty : buf.bytes ≠ [])
      (yields : Yields later rest) : Yields r (buf.bytes ++ rest)

theorem Yields.of_nonempty {buf : Buffer} (yields : Yields r bytes)
    (answered : read r = (.ok buf, later)) (nonempty : buf.bytes ≠ []) :
    ∃ rest, bytes = buf.bytes ++ rest ∧ Yields later rest := by
  cases yields with
  | done other empty =>
      cases answered.symm.trans other
      exact absurd empty nonempty
  | more other _ yields =>
      cases answered.symm.trans other
      exact ⟨_, rfl, yields⟩

theorem Yields.of_empty {buf : Buffer} (yields : Yields r bytes)
    (answered : read r = (.ok buf, later)) (empty : buf.bytes = []) :
    bytes = [] := by
  cases yields with
  | done _ _ => rfl
  | more other nonempty _ =>
      cases answered.symm.trans other
      exact absurd empty nonempty

theorem Yields.exists_read (yields : Yields r bytes) :
    ∃ buf later, read r = (.ok buf, later) := by
  cases yields with
  | done answered _ => exact ⟨_, _, answered⟩
  | more answered _ _ => exact ⟨_, _, answered⟩

private theorem Yields.readAllLoop (yields : Yields r bytes)
    (bufs : List Buffer) :
    ∃ fuel later buf, Read.readAllLoop fuel bufs r = some (later, .ok buf) := by
  induction yields generalizing bufs with
  | @done r later buf answered empty =>
      have isEmpty : buf.isEmpty = true := (Buffer.isEmpty_iff buf).mpr empty
      exact ⟨1, later, Buffer.flatten bufs, by
        simp [Read.readAllLoop, answered, isEmpty]⟩
  | @more r later buf rest answered nonempty yields induction =>
      have notEmpty := Buffer.isEmpty_eq_false nonempty
      obtain ⟨fuel, last, all, finished⟩ := induction (bufs ++ [buf])
      exact ⟨fuel + 1, last, all, by
        simp [Read.readAllLoop, answered, notEmpty, finished]⟩

theorem Yields.readAll (yields : Yields r bytes) :
    ∃ fuel later buf, Read.readAll fuel r = some (later, .ok buf) :=
  yields.readAllLoop []

private theorem readAllLoop_ne_error {fuel : Nat} {bufs : List Buffer}
    {err : Error} (yields : Yields r bytes) :
    Read.readAllLoop fuel bufs r ≠ some (later, .error err) := by
  induction yields generalizing bufs fuel with
  | done answered empty =>
      cases fuel with
      | zero => simp [Read.readAllLoop]
      | succ fuel =>
          have isEmpty := (Buffer.isEmpty_iff _).mpr empty
          simp [Read.readAllLoop, answered, isEmpty]
  | @more r later buf rest answered nonempty yields induction =>
      cases fuel with
      | zero => simp [Read.readAllLoop]
      | succ fuel =>
          have notEmpty := Buffer.isEmpty_eq_false nonempty
          simp only [Read.readAllLoop, answered, notEmpty]
          exact induction

theorem Yields.readAll_ne_error {fuel : Nat} {err : Error}
    (yields : Yields r bytes) :
    Read.readAll fuel r ≠ some (later, .error err) :=
  readAllLoop_ne_error yields

theorem yields_bytewise (bytes : Bytes) :
    Yields (ScriptedReader.bytewise bytes) bytes := by
  induction bytes with
  | nil => exact .done rfl rfl
  | cons byte bytes induction =>
      have nonempty : (Buffer.fromBytes [byte]).bytes ≠ [] := by simp
      exact .more rfl nonempty induction

end Read

/-- Readers of parts of `content`, where `reads r bytes` says that `bytes` is
what `r` is going to return: a reader at `position` of a range that ends at
`stop` returns what lies between the two. -/
def Cursor.ofReaders {R : Type} [Read R] (content : Bytes)
    (reads : R → Bytes → Prop)
    (more : ∀ {r later : R} {buf : Buffer} {bytes : Bytes}, reads r bytes →
      Read.read r = (.ok buf, later) → buf.bytes ≠ [] →
      ∃ rest, bytes = buf.bytes ++ rest ∧ reads later rest)
    (last : ∀ {r later : R} {buf : Buffer} {bytes : Bytes}, reads r bytes →
      Read.read r = (.ok buf, later) → buf.bytes = [] → bytes = []) :
    Cursor R where
  piece := fun position bytes => bytes <+: content.drop position
  stands := fun stop position r => position ≤ stop ∧ stop ≤ content.length ∧
    reads r ((content.drop position).take (stop - position))
  piece_nil := fun position => List.nil_prefix
  piece_append := by
    intro position left right given assumed
    obtain ⟨afterLeft, leftSplit⟩ := given
    obtain ⟨afterRight, rightSplit⟩ := assumed
    refine ⟨afterRight, ?_⟩
    rw [List.append_assoc, rightSplit, ← List.drop_drop, ← leftSplit,
      List.drop_left]
  more := by
    intro stop position r buf later given answered nonempty
    obtain ⟨within, bounded, returns⟩ := given
    obtain ⟨rest, split, returnsRest⟩ := more returns answered nonempty
    have fits : buf.bytes.length ≤ stop - position := by
      have total := congrArg List.length split
      simp only [List.length_take, List.length_drop, List.length_append]
        at total
      omega
    have remaining : rest = (content.drop (position + buf.len)).take
        (stop - (position + buf.len)) := by
      have dropped := congrArg (List.drop buf.bytes.length) split
      rw [List.drop_left, List.drop_take, List.drop_drop,
        Buffer.length_bytes, Nat.sub_sub] at dropped
      exact dropped.symm
    rw [Buffer.length_bytes] at fits
    refine ⟨?_, by omega, bounded, remaining ▸ returnsRest⟩
    exact (split ▸ List.prefix_append buf.bytes rest).trans
      (List.take_prefix _ _)
  last := by
    intro stop position r buf later given answered empty
    obtain ⟨within, bounded, returns⟩ := given
    have none := congrArg List.length (last returns answered empty)
    simp only [List.length_take, List.length_drop, List.length_nil] at none
    omega

def Cursor.ofContent (R : Type) [Read R] (content : Bytes) : Cursor R :=
  .ofReaders content Read.Yields Read.Yields.of_nonempty Read.Yields.of_empty

end OpenDal
