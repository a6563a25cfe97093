import Mathlib.Logic.Function.Basic
import Mathlib.Order.Defs.PartialOrder
import OpenDal.Program
import OpenDal.Raw.PathNames

/-!
# The path cacher

Services such as Google Drive find a file by an id.  The id of a path is found
by asking for one name after the other, and the answers are cached, under the
full path.

The cache may lose any entry while a request is awaited.  The operations are
issued one after the other, so the lock of the cacher is always free and is
left out.
-/

namespace OpenDal

open Path

/-- The trait required for path cacher. -/
structure PathQuery (σ ε ι : Type) where
  /-- Fetch the id for the root of the service. -/
  root : Program σ ε ι
  /-- Query the id by parent id and name. -/
  query : ι → Path → Program σ ε (Option ι)
  /-- Create a dir by parent id and name. -/
  createDir : ι → Path → Program σ ε ι

/-- An answer of `get`, with the service as it was then. -/
structure Served (σ ι : Type) where
  path : Path
  found : Option ι
  service : σ

structure PathCacher (σ ι : Type) where
  service : σ
  cache : Path → Option ι
  /-- What is evicted from the cache during each of the next requests. -/
  evictions : List (List Path)
  /-- The answers of `get` so far, the latest one first. -/
  served : List (Served σ ι)

namespace PathCacher

variable {σ τ ε ι α : Type}

/-- A new path cacher. -/
def new (service : σ) : PathCacher σ ι :=
  ⟨service, fun _ => none, [], []⟩

def evict (keys : List Path) (cacher : PathCacher σ ι) : PathCacher σ ι :=
  { cacher with
    cache := fun key => if keys.contains key then none else cacher.cache key }

/-- The cacher when a request has been answered. -/
def answered (cacher : PathCacher σ ι) (service : σ) : PathCacher σ ι :=
  { cacher.evict (cacher.evictions.headD []) with
    service := service
    evictions := cacher.evictions.tail }

/-- Send a request and wait for the answer. -/
def await (request : Program σ ε α) : Program (PathCacher σ ι) ε α :=
  fun cacher =>
    let (result, service) := request cacher.service
    (result, cacher.answered service)

def cached (path : Path) : Program (PathCacher σ ι) ε (Option ι) :=
  Program.gets fun cacher => cacher.cache path

/-- `Cache::insert`. -/
def stored (path : Path) (id : ι) (cacher : PathCacher σ ι) :
    PathCacher σ ι :=
  { cacher with cache := Function.update cacher.cache path (some id) }

def store (path : Path) (id : ι) : Program (PathCacher σ ι) ε Unit :=
  Program.modify (stored path id)

/-- Insert a new cache entry. -/
def insert (path : Path) (id : ι) : Program (PathCacher σ ι) ε Unit := do
  match ← cached path with
  | some _ => pure ()
  | none => store path id

def removed (path : Path) (cacher : PathCacher σ ι) : PathCacher σ ι :=
  { cacher with cache := Function.update cacher.cache path none }

/-- Remove a cache entry. -/
def remove (path : Path) : Program (PathCacher σ ι) ε Unit :=
  Program.modify (removed path)

/-- Note what `get` answers. -/
def answer (path : Path) (found : Option ι) :
    Program (PathCacher σ ι) ε (Option ι) := do
  Program.modify fun cacher =>
    { cacher with served := ⟨path, found, cacher.service⟩ :: cacher.served }
  pure found

/-- The loop of `get`: the first parent that is cached, and the paths from
there down. -/
def climb (cache : Path → Option ι) :
    Nat → Path → List Path → Option ι × List Path
  | 0, _, paths => (none, paths)
  | fuel + 1, current, paths =>
      if current = ['/'] ∨ current = [] then
        (none, paths)
      else
        let paths := current :: paths
        match cache (getParent current) with
        | some id => (some id, paths)
        | none => climb cache fuel (getParent current) paths

variable (query : PathQuery σ ε ι)

/-- `paths` is in the order like `["a/", "a/b/", "a/b/c/"]`. -/
def queryDown : ι → List Path → Program (PathCacher σ ι) ε (Option ι)
  | currentId, [] => pure (some currentId)
  | currentId, path :: paths => do
      match ← await (query.query currentId (getBasename path)) with
      | some id => do
          store path id
          queryDown id paths
      | none => pure none

/-- The search of `get` when the path itself is not cached. -/
def search (path : Path) : Program (PathCacher σ ι) ε (Option ι) := do
  let start ← Program.gets fun cacher : PathCacher σ ι =>
    climb cacher.cache (path.length + 1) path []
  match start with
  | (some id, paths) => queryDown query id paths
  | (none, paths) => do
      let rootId ← await query.root
      store ['/'] rootId
      queryDown query rootId paths

/-- Get the id for the given path. -/
def get (path : Path) : Program (PathCacher σ ι) ε (Option ι) := do
  match ← cached path with
  | some id => answer path (some id)
  | none => do
      let found ← search query path
      answer path found

/-- All parents that `ensure_dir` needs to check. -/
def parents : Path → List Path → List Path
  | _, [] => []
  | tmp, component :: rest =>
      (tmp ++ (component ++ ['/'])) ::
        parents (tmp ++ (component ++ ['/'])) rest

/-- The id of a directory in a directory, which is created if it is missing. -/
def ensureChild (parentId : ι) (parent : Path) :
    Program (PathCacher σ ι) ε ι := do
  let value ← match ← await (query.query parentId (getBasename parent)) with
    | some value => pure value
    | none => await (query.createDir parentId (getBasename parent))
  store parent value
  pure value

def ensureDown : ι → List Path → Program (PathCacher σ ι) ε ι
  | parentId, [] => pure parentId
  | parentId, parent :: rest => do
      match ← cached parent with
      | some value => ensureDown value rest
      | none => do
          let value ← ensureChild query parentId parent
          ensureDown value rest

/-- Ensure input dir exists. -/
def ensureDir (path : Path) : Program (PathCacher σ ι) ε ι := do
  match ← cached ['/'] with
  | some v => ensureDown query v (parents [] (components path))
  | none => do
      let v ← await query.root
      ensureDown query v (parents [] (components path))

end PathCacher

/-! ## What the service is expected to do -/

/-- A tree of names: what a path of names leads to in each of its states. -/
structure NameTree (τ ι : Type) [Preorder τ] where
  lookup : τ → List Path → Option ι
  Valid : τ → Prop
  /-- A name that the service reads as it is written. -/
  Legible : Path → Prop
  lookup_mono : ∀ {v v' names id}, Valid v → Valid v' → v ≤ v' →
    lookup v names = some id → lookup v' names = some id
  lookup_none : ∀ {v names}, lookup v names = none →
    ∀ more, lookup v (names ++ more) = none

/-- The tree has grown, and what it has now that it did not have is on the way
to `names`. -/
structure NameTree.Adds {τ ι : Type} [Preorder τ] (tree : NameTree τ ι)
    (names : List Path) (v v' : τ) : Prop where
  valid : tree.Valid v'
  le : v ≤ v'
  only : ∀ {found id}, tree.lookup v' found = some id →
    tree.lookup v found = some id ∨ found <+: names

theorem NameTree.Adds.mono {τ ι : Type} [Preorder τ] {tree : NameTree τ ι}
    {names longer : List Path} {v v' : τ} (adds : tree.Adds names v v')
    (onTheWay : names <+: longer) : tree.Adds longer v v' where
  valid := adds.valid
  le := adds.le
  only := fun found => (adds.only found).imp id (·.trans onTheWay)

/-- The queries answer from the tree `view` of the service. -/
structure PathQuery.Lawful {σ τ ε ι : Type} [Preorder τ]
    (query : PathQuery σ ε ι) (tree : NameTree τ ι) (view : σ → τ) :
    Prop where
  root_ensures : ∀ s, Program.Ensures query.root
    (fun id s' => view s' = view s ∧ tree.lookup (view s) [] = some id)
    (fun s' => view s' = view s) s
  query_ensures : ∀ {s dir id name}, tree.Valid (view s) →
    tree.lookup (view s) dir = some id → tree.Legible name →
    Program.Ensures (query.query id name)
      (fun found s' => view s' = view s ∧
        found = tree.lookup (view s) (dir ++ [name]))
      (fun s' => view s' = view s) s
  createDir_ensures : ∀ {s dir id name}, tree.Valid (view s) →
    tree.lookup (view s) dir = some id → endsWithSlash name = true →
    tree.lookup (view s) (dir ++ [name]) = none →
    Program.Ensures (query.createDir id name)
      (fun new s' => tree.Adds (dir ++ [name]) (view s) (view s') ∧
        tree.lookup (view s') (dir ++ [name]) = some new)
      (fun s' => tree.Adds (dir ++ [name]) (view s) (view s')) s

end OpenDal
