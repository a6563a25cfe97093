import Mathlib.Data.List.Nodup
import OpenDal.Automaton
import OpenDal.Raw.CachedPaths

/-!
# The path cacher shared between tasks

`get` and `ensure_dir` as the executor sees them: a call waits for the lock, if
there is one, runs up to a request, is suspended there, and goes on with the
answer until it returns and gives the lock back.  Any number of tasks call the
same cacher, any task may make the next step, and entries of the cache are
evicted at any time.

The remote is a tree of ids.  Nothing changes it but the directories that the
cacher asks it to create; it does not refuse to create one that is there
already.
-/

namespace OpenDal

open Path

/-- A directory entry of the remote. -/
structure RemoteEntry (ι : Type) where
  parent : ι
  name : Path
  id : ι
deriving DecidableEq

structure RemoteTree (ι : Type) where
  root : ι
  entries : List (RemoteEntry ι)
deriving DecidableEq

namespace RemoteTree

variable {ι : Type} [DecidableEq ι]

def query (tree : RemoteTree ι) (parent : ι) (name : Path) : Option ι :=
  (tree.entries.find? fun entry =>
    entry.parent = parent && entry.name = name).map RemoteEntry.id

def createDir (tree : RemoteTree ι) (parent : ι) (name : Path) (id : ι) :
    RemoteTree ι :=
  { tree with entries := tree.entries ++ [⟨parent, name, id⟩] }

/-- Walk down from the root, asking for one name after the other. -/
def walk (tree : RemoteTree ι) (names : List Path) : Option ι :=
  names.foldlM tree.query tree.root

/-- There is at most one entry for a parent and a name. -/
def Distinct (tree : RemoteTree ι) : Prop :=
  (tree.entries.map fun entry => (entry.parent, entry.name)).Nodup

@[simp] theorem walk_nil (tree : RemoteTree ι) :
    tree.walk [] = some tree.root := by
  simp [walk]

theorem walk_append (tree : RemoteTree ι) (names more : List Path) :
    tree.walk (names ++ more) =
      tree.walk names >>= fun id => more.foldlM tree.query id := by
  simp [walk, List.foldlM_append]

theorem walk_concat {tree : RemoteTree ι} {names : List Path} {id : ι}
    (leads : tree.walk names = some id) (name : Path) :
    tree.walk (names ++ [name]) = tree.query id name := by
  simp [walk_append, leads]

theorem walk_of_isPrefix {tree : RemoteTree ι} {names longer : List Path}
    (missing : tree.walk names = none) (onTheWay : names <+: longer) :
    tree.walk longer = none := by
  obtain ⟨more, rfl⟩ := onTheWay
  simp [walk_append, missing]

theorem query_createDir {tree : RemoteTree ι} {parent id new : ι}
    {name : Path} (at_ : ι) (key : Path)
    (found : tree.query at_ key = some id) :
    (tree.createDir parent name new).query at_ key = some id := by
  unfold query createDir at *
  rw [List.find?_append, Option.map_or, found]
  rfl

theorem query_created {tree : RemoteTree ι} {parent : ι} {name : Path}
    (missing : tree.query parent name = none) (new : ι) :
    (tree.createDir parent name new).query parent name = some new := by
  unfold query createDir at *
  rw [List.find?_append, Option.map_or, missing]
  simp

theorem walk_createDir {tree : RemoteTree ι} {parent id new : ι}
    {name : Path} {names : List Path} (leads : tree.walk names = some id) :
    (tree.createDir parent name new).walk names = some id := by
  have kept : ∀ start, names.foldlM tree.query start = some id →
      names.foldlM (tree.createDir parent name new).query start = some id := by
    clear leads
    induction names with
    | nil =>
        intro start ended
        exact ended
    | cons next names induction =>
        intro start ended
        rw [List.foldlM_cons] at ended ⊢
        obtain ⟨child, found, rest⟩ := Option.bind_eq_some_iff.mp ended
        rw [query_createDir start next found]
        exact induction child rest
  exact kept tree.root leads

theorem distinct_createDir {tree : RemoteTree ι} {parent : ι} {name : Path}
    (distinct : tree.Distinct) (missing : tree.query parent name = none)
    (new : ι) : (tree.createDir parent name new).Distinct := by
  unfold Distinct createDir
  rw [List.map_append, List.map_singleton, ← List.concat_eq_append]
  apply List.Nodup.concat _ distinct
  intro member
  obtain ⟨entry, held, same⟩ := List.mem_map.mp member
  simp only [Prod.mk.injEq] at same
  rw [query, Option.map_eq_none_iff, List.find?_eq_none] at missing
  apply missing entry held
  simp [same.1, same.2]

end RemoteTree

/-! ## Calls and their suspensions -/

inductive PathCall where
  | get (path : Path)
  | ensureDir (path : Path)
deriving DecidableEq

/-- The request that a call awaits, with what it still needs to go on. -/
inductive PathAwait (ι : Type) where
  | getRoot (paths : List Path)
  | getQuery (currentId : ι) (path : Path) (paths : List Path)
  | ensureRoot (parents : List Path)
  | ensureQuery (parentId : ι) (parent : Path) (rest : List Path)
  | ensureCreate (parentId : ι) (parent : Path) (rest : List Path)
deriving DecidableEq

/-- How far a call comes without an answer. -/
inductive PathOutcome (ι : Type) where
  | awaits (request : PathAwait ι)
  | returned (result : Option ι)
deriving DecidableEq

namespace PathCall

variable {ι : Type}

/-- `query_down`. -/
def queryDown : ι → List Path → PathOutcome ι
  | startId, [] => .returned (some startId)
  | startId, path :: paths => .awaits (.getQuery startId path paths)

/-- The loop over the parents in `ensure_dir`. -/
def ensureDown (cache : Path → Option ι) : ι → List Path → PathOutcome ι
  | parentId, [] => .returned (some parentId)
  | parentId, parent :: rest =>
      match cache parent with
      | some value => ensureDown cache value rest
      | none => .awaits (.ensureQuery parentId parent rest)

/-- A call from its beginning. -/
def begin (cache : Path → Option ι) : PathCall → PathOutcome ι
  | .get path =>
      match cache path with
      | some id => .returned (some id)
      | none =>
          match PathCacher.climb cache (path.length + 1) path [] with
          | (some id, paths) => queryDown id paths
          | (none, paths) => .awaits (.getRoot paths)
  | .ensureDir path =>
      match cache ['/'] with
      | some v => ensureDown cache v (PathCacher.parents [] (components path))
      | none => .awaits (.ensureRoot (PathCacher.parents [] (components path)))

variable [DecidableEq ι]

/-- A call that goes on with the answer of the remote, and the cache then.
Creating a directory is answered by `created`. -/
def answered (tree : RemoteTree ι) (cache : Path → Option ι) :
    PathAwait ι → Option ((Path → Option ι) × PathOutcome ι)
  | .getRoot paths =>
      some (Function.update cache ['/'] (some tree.root),
        queryDown tree.root paths)
  | .getQuery currentId path paths =>
      match tree.query currentId (getBasename path) with
      | some id => some (Function.update cache path (some id),
          queryDown id paths)
      | none => some (cache, .returned none)
  | .ensureRoot parents => some (cache, ensureDown cache tree.root parents)
  | .ensureQuery parentId parent rest =>
      match tree.query parentId (getBasename parent) with
      | some value =>
          let cache := Function.update cache parent (some value)
          some (cache, ensureDown cache value rest)
      | none => some (cache, .awaits (.ensureCreate parentId parent rest))
  | .ensureCreate _ _ _ => none

end PathCall

/-! ## Tasks -/

/-- What a task does. -/
inductive PathTask (ι : Type) where
  | idle
  /-- It awaits the lock. -/
  | locking (call : PathCall)
  | running (call : PathCall) (request : PathAwait ι)
deriving DecidableEq

/-- A call that has returned, with the remote as it was then. -/
structure ReturnedPath (ι : Type) where
  call : PathCall
  result : Option ι
  tree : RemoteTree ι
deriving DecidableEq

structure SharedPaths (ι : Type) where
  tree : RemoteTree ι
  cache : Path → Option ι
  withLock : Bool
  /-- The task that holds the guard of the lock. -/
  holder : Option Nat
  tasks : Nat → PathTask ι
  returned : List (ReturnedPath ι)

inductive PathEvent (ι : Type) where
  | call (task : Nat) (call : PathCall)
  /-- `lock().await` is done and the body of the call begins. -/
  | lock (task : Nat)
  | answer (task : Nat)
  /-- A directory has been created, with the id that the remote chose. -/
  | created (task : Nat) (id : ι)
  /-- A request has failed; a directory may have been created all the same. -/
  | failed (task : Nat) (created : Option ι)
  | evict (keys : List Path)
deriving DecidableEq

namespace SharedPaths

variable {ι : Type}

def start (withLock : Bool) (tree : RemoteTree ι) : SharedPaths ι :=
  { tree
    cache := fun _ => none
    withLock
    holder := none
    tasks := fun _ => .idle
    returned := [] }

/-- The call awaits its next request, or returns and drops its guard. -/
def settle (state : SharedPaths ι) (task : Nat) (call : PathCall) :
    PathOutcome ι → SharedPaths ι
  | .awaits request =>
      { state with
        tasks := Function.update state.tasks task (.running call request) }
  | .returned result =>
      { state with
        holder := none
        tasks := Function.update state.tasks task .idle
        returned := state.returned ++ [⟨call, result, state.tree⟩] }

variable [DecidableEq ι]

def step (state : SharedPaths ι) : PathEvent ι → Option (SharedPaths ι)
  | .call task call =>
      match state.tasks task with
      | .idle => some { state with
          tasks := Function.update state.tasks task (.locking call) }
      | _ => none
  | .lock task =>
      match state.tasks task with
      | .locking call =>
          if state.withLock = true ∧ state.holder.isSome = true then
            none
          else
            let locked := { state with
              holder := if state.withLock then some task else none }
            some (locked.settle task call (call.begin state.cache))
      | _ => none
  | .answer task =>
      match state.tasks task with
      | .running call request => do
          let (cache, outcome) ←
            PathCall.answered state.tree state.cache request
          some ({ state with cache }.settle task call outcome)
      | _ => none
  | .created task id =>
      match state.tasks task with
      | .running call (.ensureCreate parentId parent rest) =>
          let cache := Function.update state.cache parent (some id)
          let changed := { state with
            tree := state.tree.createDir parentId (getBasename parent) id
            cache }
          some (changed.settle task call (PathCall.ensureDown cache id rest))
      | _ => none
  | .failed task created =>
      match state.tasks task with
      | .running _ request =>
          let tree := match request, created with
            | .ensureCreate parentId parent _, some id =>
                state.tree.createDir parentId (getBasename parent) id
            | _, _ => state.tree
          some { state with
            tree
            holder := none
            tasks := Function.update state.tasks task .idle }
      | _ => none
  | .evict keys =>
      some { state with
        cache := fun key =>
          if keys.contains key then none else state.cache key }

/-- Paths are normalized, and a call runs alone: because of the lock, or
because no other call is running. -/
def Admissible (state : SharedPaths ι) : PathEvent ι → Prop
  | .call _ (.get path) => IsPath path ∨ path = ['/']
  | .lock _ => state.withLock = true ∨
      ∀ task call request, state.tasks task ≠ .running call request
  | _ => True

end SharedPaths

end OpenDal
