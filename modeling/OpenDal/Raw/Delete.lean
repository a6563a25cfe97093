import Mathlib.Data.List.Perm.Subperm
import Mathlib.Data.List.Nodup
import OpenDal.Types.Entry

/-!
# `oio::Delete`

A deleter queues deletions and performs them when it is flushed.  The two
deleters a service can have are `OneShotDeleter`, which holds one deletion,
and `BatchDeleter`, which holds a set of them.  The blocking variants have the
same bodies and are not repeated.

The deletions change the state of the remote service, so the service is part
of the state of its deleter and every call returns the next one.
-/

namespace OpenDal

structure OpDelete where
  version : Option String
deriving DecidableEq, Repr

namespace OpDelete

def new : OpDelete :=
  ⟨none⟩

def withVersion (op : OpDelete) (version : String) : OpDelete :=
  { op with version := some version }

end OpDelete

/-- `oio::Delete`. -/
class Delete (D : Type) where
  delete : D → Path → OpDelete → Except Error Unit × D
  flush : D → Except Error Nat × D

class OneShotDelete (S : Type) where
  deleteOnce : S → Path → OpDelete → Except Error Unit × S

structure BatchDeleteResult where
  succeeded : List (Path × OpDelete)
  failed : List (Path × OpDelete × Error)

class BatchDelete (S : Type) extends OneShotDelete S where
  deleteBatch : S → List (Path × OpDelete) →
    Except Error BatchDeleteResult × S

export OneShotDelete (deleteOnce)
export BatchDelete (deleteBatch)

/-! ## `OneShotDeleter` -/

structure OneShotDeleter (S : Type) where
  inner : S
  queued : Option (Path × OpDelete)

namespace OneShotDeleter

variable {S : Type}

def new (inner : S) : OneShotDeleter S :=
  ⟨inner, none⟩

def delete (d : OneShotDeleter S) (path : Path) (args : OpDelete) :
    Except Error Unit × OneShotDeleter S :=
  if d.queued.isSome then
    (.error (Error.new .unsupported
      "OneShotDeleter doesn't support batch delete"), d)
  else
    (.ok (), { d with queued := some (path, args) })

variable [OneShotDelete S]

def flush (d : OneShotDeleter S) : Except Error Nat × OneShotDeleter S :=
  match d.queued with
  | none => (.ok 0, d)
  | some (path, args) =>
      match deleteOnce d.inner path args with
      | (.ok (), inner) => (.ok 1, ⟨inner, none⟩)
      | (.error err, inner) => (.error err, { d with inner })

instance : Delete (OneShotDeleter S) where
  delete := delete
  flush := flush

theorem flush_cases {d later : OneShotDeleter S} {deleted : Nat}
    (flushed : d.flush = (.ok deleted, later)) :
    (d.queued = none ∧ deleted = 0 ∧ later = d) ∨
    (∃ path args, d.queued = some (path, args) ∧ deleted = 1 ∧
      deleteOnce d.inner path args = (.ok (), later.inner) ∧
      later.queued = none) := by
  unfold flush at flushed
  split at flushed
  · rename_i empty
    cases flushed
    exact .inl ⟨empty, rfl, rfl⟩
  · rename_i path args single
    split at flushed
    · rename_i inner answered
      cases flushed
      exact .inr ⟨path, args, single, rfl, answered, rfl⟩
    · cases flushed

end OneShotDeleter

/-! ## `BatchDeleter` -/

/-- The buffer is a `HashSet`.  It is iterated in some order that the model
need not know: what a service does with a batch is arbitrary, and so may
depend on any order of it. -/
structure BatchDeleter (S : Type) where
  inner : S
  buffer : List (Path × OpDelete)
  distinct : buffer.Nodup

namespace BatchDeleter

variable {S : Type}

def new (inner : S) : BatchDeleter S :=
  ⟨inner, [], List.nodup_nil⟩

def delete (d : BatchDeleter S) (path : Path) (args : OpDelete) :
    Except Error Unit × BatchDeleter S :=
  (.ok (), { d with
    buffer := d.buffer.insert (path, args)
    distinct := d.distinct.insert })

/-- Remove operations from the buffer one after the other. -/
def removeFromBuffer (d : BatchDeleter S)
    (succeeded : List (Path × OpDelete)) : BatchDeleter S :=
  { d with
    buffer := d.buffer.diff succeeded
    distinct := d.distinct.diff }

variable [BatchDelete S]

def flush (d : BatchDeleter S) : Except Error Nat × BatchDeleter S :=
  match d.buffer with
  | [] => (.ok 0, d)
  | [(path, args)] =>
      match deleteOnce d.inner path args with
      | (.ok (), inner) => (.ok 1, new inner)
      | (.error err, inner) => (.error err, { d with inner })
  | batch =>
      match deleteBatch d.inner batch with
      | (.error err, inner) => (.error err, { d with inner })
      | (.ok result, inner) =>
          let d := { d with inner }.removeFromBuffer result.succeeded
          -- the first error that is not temporary is returned, the operations
          -- that failed with a temporary error stay in the buffer
          match result.failed.find? fun (_, _, err) => !err.isTemporary with
          | some (path, op, err) =>
              (.error ((err.withContext "path" (String.ofList path)).withContext
                "version" (op.version.getD "<latest>")), d)
          | none => (.ok result.succeeded.length, d)

instance : Delete (BatchDeleter S) where
  delete := delete
  flush := flush

theorem flush_cases {d later : BatchDeleter S} {deleted : Nat}
    (flushed : d.flush = (.ok deleted, later)) :
    (d.buffer = [] ∧ deleted = 0 ∧ later = d) ∨
    (∃ path args, d.buffer = [(path, args)] ∧ deleted = 1 ∧
      deleteOnce d.inner path args = (.ok (), later.inner) ∧
      later.buffer = []) ∨
    (∃ result, deleteBatch d.inner d.buffer = (.ok result, later.inner) ∧
      (∀ failure ∈ result.failed, failure.2.2.isTemporary) ∧
      deleted = result.succeeded.length ∧
      later.buffer = d.buffer.diff result.succeeded) := by
  unfold flush at flushed
  split at flushed
  · rename_i empty
    cases flushed
    exact .inl ⟨empty, rfl, rfl⟩
  · rename_i path args single
    split at flushed
    · rename_i inner answered
      cases flushed
      exact .inr (.inl ⟨path, args, single, rfl, answered, rfl⟩)
    · cases flushed
  · split at flushed
    · cases flushed
    · rename_i result inner answered
      split at flushed
      · cases flushed
      · rename_i none
        cases flushed
        refine .inr (.inr ⟨result, answered, ?_, rfl, rfl⟩)
        intro failure member
        have temporary := List.find?_eq_none.mp none failure member
        simpa using temporary

end BatchDeleter

/-! ## Deleters of a service -/

/-- `oio::Deleter`, the boxed deleter of a service. -/
inductive ServiceDeleter (S : Type) where
  | oneShot (d : OneShotDeleter S)
  | batch (d : BatchDeleter S)

namespace ServiceDeleter

variable {S : Type}

/-- The service behind the deleter. -/
def inner : ServiceDeleter S → S
  | .oneShot d => d.inner
  | .batch d => d.inner

variable [BatchDelete S]

instance : Delete (ServiceDeleter S) where
  delete d path args :=
    match d with
    | .oneShot d => (Delete.delete d path args).map id .oneShot
    | .batch d => (Delete.delete d path args).map id .batch
  flush d :=
    match d with
    | .oneShot d => (Delete.flush d).map id .oneShot
    | .batch d => (Delete.flush d).map id .batch

end ServiceDeleter

/-! ## A store in memory -/

/-- The deletion is about this entry: without a version it is about the
current one. -/
def Targets (key : Path × OpDelete) (entry : Entry) : Prop :=
  key.1 = entry.path ∧
    (key.2.version = none ∨ key.2.version = entry.metadata.version)

instance (key : Path × OpDelete) (entry : Entry) :
    Decidable (Targets key entry) :=
  inferInstanceAs (Decidable (_ ∧ _))

/-- A service that keeps its entries in a list and deletes what it is
given. -/
structure MemoryStore where
  entries : List Entry
deriving DecidableEq, Repr

namespace MemoryStore

def remove (s : MemoryStore) (key : Path × OpDelete) : MemoryStore :=
  ⟨s.entries.filter fun entry => !decide (Targets key entry)⟩

instance : BatchDelete MemoryStore where
  deleteOnce s path args := (.ok (), s.remove (path, args))
  deleteBatch s batch := (.ok ⟨batch, []⟩, batch.foldl remove s)

end MemoryStore

end OpenDal
