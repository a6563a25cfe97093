import OpenDal.Automaton
import OpenDal.Raw.Delete

/-!
# `Deleter`

`Deleter` counts the operations it has queued and flushes when the count
reaches the limit of the service.  Closing flushes until the count is zero.

The count is taken down by what `flush` reports, so it is right only as long
as the deleter below has queued each operation it was given.  `BatchDeleter`
keeps a set: an operation that is already in it is counted again and stored
once, and from then on the count stays above the size of the set.
-/

namespace OpenDal

structure DeleteInput where
  path : Path
  version : Option String
deriving DecidableEq, Repr

namespace DeleteInput

/-- `IntoDeleteInput for &str`. -/
def ofPath (path : Path) : DeleteInput :=
  ⟨path, none⟩

/-- `IntoDeleteInput for Entry`. -/
def ofEntry (entry : Entry) : DeleteInput :=
  ⟨entry.path, entry.metadata.version⟩

def op (input : DeleteInput) : OpDelete :=
  match input.version with
  | some version => OpDelete.new.withVersion version
  | none => OpDelete.new

/-- The pair that is handed to the deleter of the service. -/
def key (input : DeleteInput) : Path × OpDelete :=
  (input.path, input.op)

@[simp] theorem version_op (input : DeleteInput) :
    input.op.version = input.version := by
  unfold op
  split
  · rename_i version known
    exact known.symm
  · rename_i unknown
    exact unknown.symm

end DeleteInput

structure Deleter (D : Type) where
  deleter : D
  maxSize : Nat
  curSize : Nat

namespace Deleter

/-- What a user does with a deleter before closing it. -/
inductive Call where
  | delete (input : DeleteInput)
  | flush

/-- The operations that were queued by these calls. -/
def queued : List Call → List (Path × OpDelete)
  | [] => []
  | .delete input :: calls => input.key :: queued calls
  | .flush :: calls => queued calls

variable {D : Type}

def create (deleter : D) (deleteMaxSize : Option Nat) : Deleter D :=
  ⟨deleter, deleteMaxSize.getD 1, 0⟩

variable [Delete D]

/-- `none` is the overflow of `cur_size -= deleted`. -/
def flush (d : Deleter D) : Option (Except Error Nat × Deleter D) :=
  match Delete.flush d.deleter with
  | (.error err, deleter) => some (.error err, { d with deleter })
  | (.ok deleted, deleter) =>
      if deleted ≤ d.curSize then
        some (.ok deleted,
          { d with deleter, curSize := d.curSize - deleted })
      else
        none

/-- The second half of `delete`, after the flush of a full queue. -/
def push (d : Deleter D) (input : DeleteInput) :
    Except Error Unit × Deleter D :=
  match Delete.delete d.deleter input.path input.op with
  | (.error err, deleter) => (.error err, { d with deleter })
  | (.ok (), deleter) =>
      (.ok (), { d with deleter, curSize := d.curSize + 1 })

def delete (d : Deleter D) (input : DeleteInput) :
    Option (Except Error Unit × Deleter D) :=
  if d.maxSize ≤ d.curSize then
    match d.flush with
    | none => none
    | some (.error err, d) => some (.error err, d)
    | some (.ok _, d) => some (d.push input)
  else
    some (d.push input)

/-- `delete_try_stream` and `delete_try_iter` over the items of a lister. -/
def deleteTryStream (d : Deleter D) :
    List (Except Error Entry) → Option (Except Error Unit × Deleter D)
  | [] => some (.ok (), d)
  | .error err :: _ => some (.error err, d)
  | .ok entry :: items =>
      match d.delete (.ofEntry entry) with
      | none => none
      | some (.error err, d) => some (.error err, d)
      | some (.ok (), d) => deleteTryStream d items

/-- Flush until nothing is counted, at most `fuel` times. -/
def close : Nat → Deleter D → Option (Except Error Unit × Deleter D)
  | 0, _ => none
  | fuel + 1, d =>
      match d.flush with
      | none => none
      | some (.error err, d) => some (.error err, d)
      | some (.ok _, d) =>
          if d.curSize = 0 then some (.ok (), d) else close fuel d

/-- The state after a call, whatever the call returned. -/
def perform (d : Deleter D) : Call → Option (Deleter D)
  | .delete input => (d.delete input).map Prod.snd
  | .flush => d.flush.map Prod.snd

end Deleter

end OpenDal
