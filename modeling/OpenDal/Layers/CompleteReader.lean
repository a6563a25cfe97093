import OpenDal.Types.ReaderRead

/-!
# `CompleteReader`

The complete layer counts the bytes of every reader and compares their number
with the requested size when the reader ends.  A read of a range with a known
size is therefore never short, whatever the service does.
-/

namespace OpenDal

structure CompleteReader (R : Type) where
  inner : R
  size : Option Nat
  /-- The number of bytes that have been returned. -/
  read : Nat

namespace CompleteReader

variable {R : Type}

def new (inner : R) (size : Option Nat) : CompleteReader R :=
  { inner
    size
    read := 0 }

/-- The error that compares `expect` with `actual`. -/
def sizeError (message : String) (expect actual : Nat) : Error :=
  ((Error.new .unexpected message).withContext
    "expect" (toString expect)).withContext
    "actual" (toString actual)

def check (self : CompleteReader R) : Except Error Unit :=
  match self.size with
  | none => .ok ()
  | some size =>
      if self.read = size then
        .ok ()
      else if self.read < size then
        .error (sizeError "reader got too little data" size self.read)
      else
        .error (sizeError "reader got too much data" size self.read)

instance [Read R] : Read (CompleteReader R) where
  read := fun self =>
    match Read.read self.inner with
    | (.error err, inner) => (.error err, { self with inner })
    | (.ok buf, inner) =>
        if buf.isEmpty then
          match self.check with
          | .error err => (.error err, { self with inner })
          | .ok () => (.ok buf, { self with inner })
        else
          (.ok buf, { self with inner, read := self.read + buf.len })

theorem read_piece [Read R] {r later : R} {buf : Buffer}
    (answered : Read.read r = (.ok buf, later)) (nonempty : buf.bytes ≠ [])
    (size : Option Nat) (read : Nat) :
    Read.read (CompleteReader.mk r size read) =
      (.ok buf, CompleteReader.mk later size (read + buf.len)) := by
  have isEmpty := Buffer.isEmpty_eq_false nonempty
  simp only [Read.read, answered, isEmpty, Bool.false_eq_true, if_false]

theorem read_end [Read R] {r later : R} {buf : Buffer}
    (answered : Read.read r = (.ok buf, later)) (empty : buf.bytes = [])
    (size : Option Nat) (read : Nat) :
    Read.read (CompleteReader.mk r size read) =
      ((CompleteReader.mk r size read).check.map fun _ => buf,
        CompleteReader.mk later size read) := by
  have isEmpty := (Buffer.isEmpty_iff buf).mpr empty
  simp only [Read.read, answered, isEmpty, if_true]
  cases (CompleteReader.mk r size read).check with
  | error err => rfl
  | ok passed => rfl

theorem check_eq_ok {self : CompleteReader R} {size : Nat}
    (known : self.size = some size) (passed : self.check = .ok ()) :
    self.read = size := by
  rw [check, known] at passed
  simp only at passed
  split at passed
  · assumption
  · split at passed <;> cases passed

/-- Nothing is known about the bytes, but the count is right: a reader that
has returned `read` of its `size` bytes stands that far from its end. -/
def cursor (R : Type) [Read R] : Cursor (CompleteReader R) where
  piece := fun _ _ => True
  stands := fun stop position r =>
    ∃ size, r.size = some size ∧ position + size = stop + r.read
  piece_nil := fun _ => trivial
  piece_append := fun _ _ => trivial
  more := by
    intro stop position r buf later given answered nonempty
    obtain ⟨size, known, count⟩ := given
    rw [ne_eq, ← Buffer.isEmpty_iff] at nonempty
    simp only [Read.read] at answered
    split at answered
    · cases answered
    · split at answered
      · rename_i empty
        split at answered
        · cases answered
        · cases answered
          exact absurd empty nonempty
      · cases answered
        exact ⟨trivial, size, known, by simp only; omega⟩
  last := by
    intro stop position r buf later given answered empty
    obtain ⟨size, known, count⟩ := given
    rw [← Buffer.isEmpty_iff] at empty
    simp only [Read.read] at answered
    split at answered
    · cases answered
    · split at answered
      · split at answered
        · cases answered
        · rename_i passed
          have complete := check_eq_ok known passed
          omega
      · rename_i nonempty
        cases answered
        exact absurd empty nonempty

end CompleteReader

variable {R : Type} [Read R]

/-- `CompleteAccessor::read`. -/
def CompleteAccessor.read (inner : Accessor R) (path : String)
    (args : OpRead) : Except Error (CompleteReader R) :=
  (inner.read path args).map fun r => .new r args.range.size

theorem CompleteReader.opens {inner : Accessor R}
    {ctx : ReadContext (CompleteReader R)}
    (complete : ctx.acc.read = CompleteAccessor.read inner) (stop : Nat) :
    (CompleteReader.cursor R).Opens ctx stop := by
  intro offset size r _ _ opened
  rw [complete, CompleteAccessor.read] at opened
  cases answered : inner.read ctx.path
      (ctx.args.withRange ⟨offset, some size⟩) with
  | error err =>
      rw [answered] at opened
      cases opened
  | ok raw =>
      rw [answered] at opened
      cases opened
      exact ⟨size, rfl, rfl⟩

/-- Three bytes in chunks of two, with two tasks at a time. -/
def completeContext : ReadContext (CompleteReader ScriptedReader) :=
  .new
    { read := CompleteAccessor.read (bytewiseAccessor [1, 2, 3, 4, 5])
      stat := (bytewiseAccessor [1, 2, 3, 4, 5]).stat }
    "file" ⟨⟨0, none⟩, none⟩ ((OpReader.new.withChunk 2).withConcurrent 2)

end OpenDal
