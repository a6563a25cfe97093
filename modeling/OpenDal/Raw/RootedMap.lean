import Mathlib.Logic.Function.Basic
import OpenDal.Layers.Retry
import OpenDal.OrderedMap
import OpenDal.Raw.KvBackend

/-!
# A key-value backend is a rooted map of files

Over an adapter that is a plain map a backend behaves as a map from paths to
contents, and of the keys of the adapter it touches only those below its root.
The adapter is watched by putting a log in front of it.
-/

namespace OpenDal

open Path

/-! ## Adapters that are maps -/

/-- What the operations of an adapter do to the map that it stores. -/
structure PlainMap (S V : Type) [Adapter S V] where
  contents : S → Path → Option V
  get : ∀ kv key, ∃ later,
    Adapter.get kv key = (.ok (contents kv key), later) ∧
      contents later = contents kv
  set : ∀ kv key v, ∃ later, Adapter.set kv key v = (.ok (), later) ∧
    contents later = Function.update (contents kv) key (some v)
  delete : ∀ kv key, ∃ later, Adapter.delete kv key = (.ok (), later) ∧
    contents later = Function.update (contents kv) key none
  /-- The keys are returned once each, in some order. -/
  scan : ∀ kv dir, ∃ keys later, Adapter.scan kv dir = (.ok keys, later) ∧
    contents later = contents kv ∧ keys.Nodup ∧
    ∀ key, key ∈ keys ↔ dir <+: key ∧ (contents kv key).isSome = true

/-- A call of the adapter. -/
inductive KvAccess where
  | get (key : Path)
  | set (key : Path)
  | delete (key : Path)
  | scan (dir : Path) (keys : List Path)

/-- The keys that a call is about, those that it reports among them. -/
def KvAccess.keys : KvAccess → List Path
  | .get key => [key]
  | .set key => [key]
  | .delete key => [key]
  | .scan dir keys => dir :: keys

/-- An adapter with a log of its calls. -/
structure Watched (S : Type) where
  store : S
  log : List KvAccess

instance {S V : Type} [Adapter S V] : Adapter (Watched S) V where
  get kv key :=
    let (result, store) := Adapter.get kv.store key
    (result, ⟨store, kv.log ++ [.get key]⟩)
  set kv key v :=
    let (result, store) := Adapter.set kv.store key v
    (result, ⟨store, kv.log ++ [.set key]⟩)
  delete kv key :=
    let (result, store) := Adapter.delete kv.store key
    (result, ⟨store, kv.log ++ [.delete key]⟩)
  scan kv dir :=
    let (result, store) := Adapter.scan kv.store dir
    let keys := match result with
      | .ok keys => keys
      | .error _ => []
    (result, ⟨store, kv.log ++ [.scan dir keys]⟩)

/-! ## Calls of a backend -/

inductive KvCall where
  | write (path : Path) (op : KvOpWrite) (chunks : List Buffer)
  | read (path : Path) (range : BytesRange)
  | stat (path : Path)
  | delete (path : Path)
  | list (path : Path) (recursive : Bool)

inductive KvReply where
  | written (result : Except Error Unit)
  | read (result : Option (Except Error Buffer.Inner))
  | stat (result : Except Error StatMetadata)
  | deleted (result : Except Error Nat)
  | listed (result : Except Error (Option (List Entry)))

namespace Kv

variable {S V : Type} [Adapter S V]

def perform (service : Service S V) (root : Root) (kv : S) :
    KvCall → KvReply × S
  | .write path op chunks =>
      let (result, kv) := write service root kv path op chunks
      (.written result, kv)
  | .read path range =>
      let (result, kv) := read service root kv path range
      (.read result, kv)
  | .stat path =>
      let (result, kv) := stat service root kv path
      (.stat result, kv)
  | .delete path =>
      let (result, kv) := delete root kv path
      (.deleted result, kv)
  | .list path recursive =>
      let (result, kv) := list root kv path recursive
      (.listed result, kv)

/-- The calls are performed one after the other. -/
def run (service : Service S V) (root : Root) (kv : S) :
    List KvCall → List KvReply × S
  | [] => ([], kv)
  | call :: calls =>
      let (reply, kv) := perform service root kv call
      let (replies, kv) := run service root kv calls
      (reply :: replies, kv)

end Kv

/-! ## The map of files -/

/-- A normalized path of a file. -/
def IsFile (path : Path) : Prop :=
  normalizePath path = path ∧ endsWithSlash path = false

instance (path : Path) : Decidable (IsFile path) :=
  inferInstanceAs (Decidable (_ ∧ _))

/-- The calls with normalized paths of files; any path may be listed. -/
def KvCall.OfFiles : KvCall → Prop
  | .write path _ _ => IsFile path
  | .read path _ => IsFile path
  | .stat path => IsFile path
  | .delete path => IsFile path
  | .list _ _ => True

abbrev Files : Type := Path → Option Bytes

namespace Files

def empty : Files :=
  fun _ => none

/-- The files after a call. -/
def after (files : Files) : KvCall → Files
  | .write path _ chunks =>
      Function.update files path (some (chunks.flatMap Buffer.bytes))
  | .delete path => Function.update files path none
  | _ => files

/-- The root itself is listed as `/`. -/
def display (name : Path) : Path :=
  if name.isEmpty then ['/'] else name

/-- The path of a name in a listing. -/
def listedAs (dir : Path) (recursive : Bool) (name : Path) : Path :=
  if recursive then display name
  else HierarchyLister.truncate (dirPrefix dir) (display name)

/-- What the reply to a call has to be.  Besides the files there may be
`others` that are not files and that nothing but a listing can see. -/
def Answers (others : Path → Prop) (files : Files) : KvCall → KvReply → Prop
  | .write _ _ _, .written result => result = .ok ()
  | .read path range, .read result =>
      match files path with
      | some bytes => range.Within bytes →
          ∃ buffer, result = some (.ok buffer) ∧
            buffer.content = range.select bytes
      | none => ∃ err, result = some (.error err) ∧ err.kind = .notFound
  | .stat path, .stat result =>
      match files path with
      | some bytes => ∃ metadata, result = .ok metadata ∧
          metadata.mode = .file ∧ metadata.contentLength = bytes.length
      | none => ∃ err, result = .error err ∧ err.kind = .notFound
  | .delete _, .deleted result => result = .ok 1
  | .list dir recursive, .listed result =>
      ∃ entries, result = .ok (some entries) ∧
        (entries.map Entry.path).Nodup ∧
        ∀ path, path ∈ entries.map Entry.path ↔
          ∃ name, ((files name).isSome = true ∨ others name) ∧
            dirPrefix dir <+: name ∧ path = listedAs dir recursive name
  | _, _ => False

/-- The replies to a sequence of calls. -/
def AnswersAll (others : Path → Prop) :
    Files → List KvCall → List KvReply → Prop
  | _, [], [] => True
  | files, call :: calls, reply :: replies =>
      files.Answers others call reply ∧
        AnswersAll others (files.after call) calls replies
  | _, _, _ => False

end Files

/-! ## Paths of files -/

theorem IsFile.ne_slash {path : Path} (isFile : IsFile path) :
    path ≠ ['/'] := by
  intro same
  have last := isFile.2
  rw [same] at last
  cases last

theorem IsFile.ne_nil {path : Path} (isFile : IsFile path) : path ≠ [] := by
  intro same
  have normalized := isFile.1
  rw [same] at normalized
  cases normalized

theorem IsFile.relative {path : Path} (isFile : IsFile path) :
    startsWithSlash path = false := by
  have normalized := isFile.1
  unfold normalizePath at normalized
  simp only at normalized
  split at normalized
  · exact absurd normalized.symm isFile.ne_slash
  · split at normalized
    · have ends : endsWithSlash path = true :=
        endsWithSlash_iff.mpr ⟨_, normalized.symm⟩
      rw [isFile.2] at ends
      cases ends
    · rw [← normalized]
      exact startsWithSlash_intercalate fun _ => isSegment_of_mem_filter

namespace Root

theorem buildAbsPath_file (root : Root) {path : Path} (isFile : IsFile path) :
    buildAbsPath root.path path = root.inner ++ path :=
  root.buildAbsPath_of_ne isFile.ne_slash

theorem buildAbsPath_dir (root : Root) (dir : Path) :
    buildAbsPath root.path dir = root.inner ++ dirPrefix dir := by
  by_cases top : dir = ['/']
  · rw [top, root.buildAbsPath_slash]
    simp [dirPrefix]
  · rw [root.buildAbsPath_of_ne top, dirPrefix, if_neg top]

end Root

theorem path_listerEntry {root : Root} {name : Path}
    (returns : root.Returns name) :
    (Kv.listerEntry root (root.inner ++ name)).path = Files.display name := by
  have back := Root.buildRelPath_buildAbsPath returns
  rw [root.buildAbsPath_of_ne returns.1] at back
  simp only [Kv.listerEntry, back]
  rfl

theorem display_injective {root : Root} {left right : Path}
    (first : root.Returns left) (second : root.Returns right)
    (same : Files.display left = Files.display right) : left = right := by
  unfold Files.display at same
  split at same
  · split at same
    · rename_i emptyLeft emptyRight
      rw [List.isEmpty_iff.mp emptyLeft, List.isEmpty_iff.mp emptyRight]
    · exact absurd same.symm second.1
  · split at same
    · exact absurd same first.1
    · exact same

/-! ## Calls of a watched adapter -/

section Watched

variable {S V : Type} [Adapter S V] (map : PlainMap S V)

theorem watched_get (kv : Watched S) (key : Path) :
    ∃ store, Adapter.get kv key = (.ok (map.contents kv.store key),
        ⟨store, kv.log ++ [.get key]⟩) ∧
      map.contents store = map.contents kv.store := by
  obtain ⟨store, found, same⟩ := map.get kv.store key
  refine ⟨store, ?_, same⟩
  simp only [Adapter.get] at found ⊢
  rw [found]

theorem watched_set (kv : Watched S) (key : Path) (v : V) :
    ∃ store, Adapter.set kv key v = (.ok (),
        ⟨store, kv.log ++ [.set key]⟩) ∧
      map.contents store =
        Function.update (map.contents kv.store) key (some v) := by
  obtain ⟨store, found, same⟩ := map.set kv.store key v
  refine ⟨store, ?_, same⟩
  simp only [Adapter.set] at found ⊢
  rw [found]

theorem watched_delete (kv : Watched S) (key : Path) :
    ∃ store, Adapter.delete kv key = (.ok (),
        ⟨store, kv.log ++ [.delete key]⟩) ∧
      map.contents store =
        Function.update (map.contents kv.store) key none := by
  obtain ⟨store, found, same⟩ := map.delete kv.store key
  refine ⟨store, ?_, same⟩
  simp only [Adapter.delete] at found ⊢
  rw [found]

theorem watched_scan (kv : Watched S) (dir : Path) :
    ∃ keys store, Adapter.scan kv dir = (.ok keys,
        ⟨store, kv.log ++ [.scan dir keys]⟩) ∧
      map.contents store = map.contents kv.store ∧ keys.Nodup ∧
      ∀ key, key ∈ keys ↔
        dir <+: key ∧ (map.contents kv.store key).isSome = true := by
  obtain ⟨keys, store, found, same, once, reported⟩ := map.scan kv.store dir
  refine ⟨keys, store, ?_, same, once, reported⟩
  simp only [Adapter.scan] at found ⊢
  rw [found]

end Watched

/-! ## The invariant -/

section Representation

variable {S V : Type} {service : Service (Watched S) V} {root : Root}
  {others : Path → Prop} {files : Files} {access : KvAccess}
  {log : List KvAccess}

/-- The logged calls are about keys below the root. -/
def Confined (root : Root) (log : List KvAccess) : Prop :=
  ∀ access ∈ log, ∀ key ∈ access.keys, root.inner <+: key

theorem Confined.append (confined : Confined root log)
    (below : ∀ key ∈ access.keys, root.inner <+: key) :
    Confined root (log ++ [access]) := by
  intro other member
  rcases List.mem_append.mp member with earlier | last
  · exact confined other earlier
  · rw [List.mem_singleton.mp last]
    exact below

/-- The adapter holds the files of the map, and below the root nothing else
but the others. -/
structure Represents (service : Service (Watched S) V) (root : Root)
    (others : Path → Prop) (contents : Path → Option V) (files : Files) :
    Prop where
  content : ∀ path, IsFile path → files path =
    (contents (root.inner ++ path)).map fun v => (service.value v).bytes
  described : ∀ path v, IsFile path →
    contents (root.inner ++ path) = some v →
    (service.metadata v).mode = .file ∧
      (service.metadata v).contentLength = (service.value v).len
  isFile : ∀ path, (files path).isSome = true → IsFile path
  rest : ∀ name, ¬ IsFile name →
    ((contents (root.inner ++ name)).isSome = true ↔ others name)
  foreign : ∀ name, others name → root.Returns name ∧ ¬ IsFile name

/-- What a value says about a file. -/
def Describes (service : Service (Watched S) V) (v : V) : Prop :=
  (service.metadata v).mode = .file ∧
    (service.metadata v).contentLength = (service.value v).len

/-- The names below the root that have a value. -/
def stored (root : Root) (contents : Path → Option V) (name : Path) : Prop :=
  (contents (root.inner ++ name)).isSome = true

theorem represents_empty {contents : Path → Option V}
    (foreign : ∀ name, stored root contents name →
      root.Returns name ∧ ¬ IsFile name) :
    Represents service root (stored root contents) contents Files.empty where
  content := by
    intro path isFile
    cases value : contents (root.inner ++ path) with
    | none => rfl
    | some v =>
        have known : stored root contents path := by
          rw [stored, value]
          rfl
        exact absurd isFile (foreign path known).2
  described := by
    intro path v isFile value
    have known : stored root contents path := by
      rw [stored, value]
      rfl
    exact absurd isFile (foreign path known).2
  isFile := by
    intro path known
    cases known
  rest _ _ := Iff.rfl
  foreign := foreign

theorem Represents.update {contents : Path → Option V} {path : Path}
    (represents : Represents service root others contents files)
    (isFile : IsFile path) (value : Option V)
    (described : ∀ v, value = some v → Describes service v) :
    Represents service root others
      (Function.update contents (root.inner ++ path) value)
      (Function.update files path
        (value.map fun v => (service.value v).bytes)) := by
  have apart : ∀ other, other ≠ path →
      root.inner ++ other ≠ root.inner ++ path := by
    intro other different equal
    exact different (List.append_cancel_left equal)
  refine ⟨?_, ?_, ?_, ?_, represents.foreign⟩
  · intro other otherFile
    by_cases same : other = path
    · rw [same, Function.update_self, Function.update_self]
    · rw [Function.update_of_ne same, Function.update_of_ne (apart other same)]
      exact represents.content other otherFile
  · intro other v otherFile known
    by_cases same : other = path
    · rw [same, Function.update_self] at known
      exact described v known
    · rw [Function.update_of_ne (apart other same)] at known
      exact represents.described other v otherFile known
  · intro other known
    by_cases same : other = path
    · exact same ▸ isFile
    · rw [Function.update_of_ne same] at known
      exact represents.isFile other known
  · intro other noFile
    have different : other ≠ path := by
      intro same
      exact noFile (same ▸ isFile)
    rw [Function.update_of_ne (apart other different)]
    exact represents.rest other noFile

/-- The names that exist, and all of them come back. -/
theorem Represents.stored_iff {contents : Path → Option V}
    (represents : Represents service root others contents files)
    (name : Path) :
    stored root contents name ↔ (files name).isSome = true ∨ others name := by
  by_cases isFile : IsFile name
  · rw [stored, represents.content name isFile, Option.isSome_map]
    constructor
    · intro known
      exact .inl known
    · intro known
      rcases known with file | other
      · exact file
      · exact absurd isFile (represents.foreign name other).2
  · rw [stored, represents.rest name isFile]
    constructor
    · intro other
      exact .inr other
    · intro known
      rcases known with file | other
      · exact absurd (represents.isFile name file) isFile
      · exact other

theorem Represents.returns {contents : Path → Option V}
    (represents : Represents service root others contents files)
    {name : Path} (known : stored root contents name) : root.Returns name := by
  rcases (represents.stored_iff name).mp known with file | other
  · exact Root.returns_of_relative (represents.isFile name file).relative
  · exact (represents.foreign name other).1

/-! ## Listings -/

theorem key_iff {contents : Path → Option V} {dir : Path} {keys : List Path}
    (reported : ∀ key, key ∈ keys ↔ root.inner ++ dirPrefix dir <+: key ∧
      (contents key).isSome = true) (key : Path) :
    key ∈ keys ↔ ∃ name, key = root.inner ++ name ∧
      stored root contents name ∧ dirPrefix dir <+: name := by
  rw [reported]
  constructor
  · intro found
    obtain ⟨⟨rest, rfl⟩, known⟩ := found
    exact ⟨dirPrefix dir ++ rest, List.append_assoc _ _ _,
      by rw [stored, ← List.append_assoc]; exact known,
      List.prefix_append _ _⟩
  · intro found
    obtain ⟨name, rfl, known, below⟩ := found
    exact ⟨(List.prefix_append_right_inj root.inner).mpr below, known⟩

theorem mem_lister_iff {contents : Path → Option V} {dir path : Path}
    {keys : List Path}
    (represents : Represents service root others contents files)
    (reported : ∀ key, key ∈ keys ↔ root.inner ++ dirPrefix dir <+: key ∧
      (contents key).isSome = true) :
    path ∈ (keys.map (Kv.listerEntry root)).map Entry.path ↔
      ∃ name, ((files name).isSome = true ∨ others name) ∧
        dirPrefix dir <+: name ∧ path = Files.display name := by
  rw [List.map_map, List.mem_map]
  constructor
  · intro found
    obtain ⟨key, member, rfl⟩ := found
    obtain ⟨name, rfl, known, below⟩ := (key_iff reported key).mp member
    exact ⟨name, (represents.stored_iff name).mp known, below,
      path_listerEntry (represents.returns known)⟩
  · intro found
    obtain ⟨name, present, below, rfl⟩ := found
    have known := (represents.stored_iff name).mpr present
    exact ⟨root.inner ++ name,
      (key_iff reported _).mpr ⟨name, rfl, known, below⟩,
      path_listerEntry (represents.returns known)⟩

/-- Distinct keys are entries with distinct paths. -/
theorem nodup_lister {contents : Path → Option V} {dir : Path}
    {keys : List Path}
    (represents : Represents service root others contents files)
    (once : keys.Nodup)
    (reported : ∀ key, key ∈ keys ↔ root.inner ++ dirPrefix dir <+: key ∧
      (contents key).isSome = true) :
    ((keys.map (Kv.listerEntry root)).map Entry.path).Nodup := by
  rw [List.map_map]
  apply once.map_on
  intro left inLeft right inRight same
  obtain ⟨first, rfl, known, -⟩ := (key_iff reported left).mp inLeft
  obtain ⟨second, rfl, other, -⟩ := (key_iff reported right).mp inRight
  have returnsFirst := represents.returns known
  have returnsSecond := represents.returns other
  rw [Function.comp_apply, Function.comp_apply, path_listerEntry returnsFirst,
    path_listerEntry returnsSecond] at same
  rw [display_injective returnsFirst returnsSecond same]

theorem dirPrefix_display {dir name : Path} (below : dirPrefix dir <+: name) :
    dirPrefix dir <+: Files.display name := by
  unfold Files.display
  split
  · rename_i empty
    rw [List.isEmpty_iff.mp empty, List.prefix_nil] at below
    rw [below]
    exact List.nil_prefix
  · exact below

theorem answers_level {contents : Path → Option V} {dir : Path}
    {keys : List Path} {listed : List Entry} {l : HierarchyLister}
    (represents : Represents service root others contents files)
    (path : l.path = dirPrefix dir) (unvisited : l.visited = [])
    (reported : ∀ key, key ∈ keys ↔ root.inner ++ dirPrefix dir <+: key ∧
      (contents key).isSome = true)
    (lists : l.Lists (keys.map (Kv.listerEntry root)) listed) :
    files.Answers others (.list dir false) (.listed (.ok (some listed))) := by
  refine ⟨_, rfl, lists.once, ?_⟩
  intro level
  rw [lists.levels, path, unvisited]
  constructor
  · intro found
    obtain ⟨⟨entry, member, -, cut⟩, -⟩ := found
    obtain ⟨name, present, below, shown⟩ :=
      (mem_lister_iff represents reported).mp (List.mem_map_of_mem member)
    rw [shown] at cut
    exact ⟨name, present, below, cut.symm⟩
  · intro found
    obtain ⟨name, present, below, same⟩ := found
    obtain ⟨entry, member, shown⟩ := List.mem_map.mp
      ((mem_lister_iff represents reported).mpr ⟨name, present, below, rfl⟩)
    refine ⟨⟨entry, member, ?_, ?_⟩, List.not_mem_nil⟩
    · rw [shown]
      exact dirPrefix_display below
    · rw [shown]
      exact same.symm

end Representation

/-! ## One call -/

section Refinement

variable {S V : Type} [Adapter S V] {map : PlainMap S V}
  {service : Service (Watched S) V} {root : Root} {kv : Watched S}
  {others : Path → Prop} {files : Files}

/-- Writing stores the chunks under the key. -/
def Stores (service : Service (Watched S) V) : Prop :=
  ∀ kv key op chunks, ∃ v,
    service.write kv key op chunks = Adapter.set kv key v ∧
      (service.value v).bytes = chunks.flatMap Buffer.bytes ∧
      Describes service v

/-- The state of a backend between two calls. -/
structure Holds (map : PlainMap S V) (service : Service (Watched S) V)
    (root : Root) (others : Path → Prop) (kv : Watched S) (files : Files) :
    Prop where
  represents : Represents service root others (map.contents kv.store) files
  confined : Confined root kv.log

theorem single_key {key path : Path} (shape : key = root.inner ++ path) :
    ∀ other ∈ [key], root.inner <+: other := by
  intro other member
  rw [List.mem_singleton.mp member, shape]
  exact List.prefix_append root.inner path

theorem write_step {path : Path} {op : KvOpWrite} {chunks : List Buffer}
    (stores : Stores service) (holds : Holds map service root others kv files)
    (isFile : IsFile path) :
    ∃ later, Kv.write service root kv path op chunks = (.ok (), later) ∧
      Holds map service root others later
        (files.after (.write path op chunks)) := by
  rw [Kv.write, root.buildAbsPath_file isFile]
  obtain ⟨v, written, content, described⟩ :=
    stores kv (root.inner ++ path) op chunks
  obtain ⟨store, stored, contents⟩ := watched_set map kv (root.inner ++ path) v
  refine ⟨_, written.trans stored, ?_, holds.confined.append (single_key rfl)⟩
  rw [Files.after, ← content]
  simp only [contents]
  exact holds.represents.update isFile (some v)
    (fun _ same => Option.some.inj same ▸ described)

theorem delete_step {path : Path} (holds : Holds map service root others kv files)
    (isFile : IsFile path) :
    ∃ later, Kv.delete root kv path = (.ok 1, later) ∧
      Holds map service root others later (files.after (.delete path)) := by
  obtain ⟨store, deleted, contents⟩ :=
    watched_delete map kv (root.inner ++ path)
  have within : ∀ key ∈ (KvAccess.delete (root.inner ++ path)).keys,
      root.inner <+: key := single_key rfl
  refine ⟨⟨store, kv.log ++ [.delete (root.inner ++ path)]⟩, ?_, ?_,
    holds.confined.append within⟩
  · simp only [Kv.delete, OneShotDeleter.new, OneShotDeleter.delete,
      OneShotDeleter.flush, deleteOnce, Option.isSome_none,
      Bool.false_eq_true, if_false, root.buildAbsPath_file isFile, deleted]
  · simp only [contents]
    exact holds.represents.update isFile none (fun _ same => by cases same)

theorem get_step (holds : Holds map service root others kv files)
    (path : Path) :
    ∃ later, Adapter.get kv (root.inner ++ path) =
        (.ok (map.contents kv.store (root.inner ++ path)), later) ∧
      Holds map service root others later files := by
  obtain ⟨store, found, contents⟩ := watched_get map kv (root.inner ++ path)
  refine ⟨_, found, ?_, holds.confined.append (single_key rfl)⟩
  simp only [contents]
  exact holds.represents

theorem stat_step {path : Path} (holds : Holds map service root others kv files)
    (isFile : IsFile path) :
    ∃ result later, Kv.stat service root kv path = (result, later) ∧
      files.Answers others (.stat path) (.stat result) ∧
      Holds map service root others later files := by
  obtain ⟨later, found, kept⟩ := get_step holds path
  have top : buildAbsPath root.path [] = root.inner := by
    rw [root.buildAbsPath_of_ne (by decide), List.append_nil]
  have below : root.inner ++ path ≠ root.inner := by
    intro same
    exact isFile.ne_nil (List.append_right_eq_self.mp same)
  have content := holds.represents.content path isFile
  rw [Kv.stat, top, root.buildAbsPath_file isFile]
  simp only [below, if_false, found]
  cases stored : map.contents kv.store (root.inner ++ path) with
  | none =>
      rw [stored, Option.map_none] at content
      exact ⟨_, later, rfl, by simp [Files.Answers, content, Kv.notFound,
        Error.new], kept⟩
  | some v =>
      rw [stored, Option.map_some] at content
      obtain ⟨mode, length⟩ := holds.represents.described path v isFile stored
      exact ⟨_, later, rfl, by simp [Files.Answers, content, mode, length],
        kept⟩

theorem slice_within {buffer : Buffer} {range : BytesRange}
    (within : range.Within buffer.bytes) :
    ∃ sliced, buffer.inner.slice range.toRangeAsUsize = some sliced ∧
      sliced.content = range.select buffer.bytes := by
  obtain ⟨offset, size⟩ := range
  have length : buffer.bytes.length = buffer.inner.len := Buffer.length_bytes buffer
  have inside : Buffer.Inner.Inside
      (BytesRange.toRangeAsUsize ⟨offset, size⟩) buffer.inner.len := by
    cases size with
    | none =>
        simp only [BytesRange.Within, Option.getD_none] at within
        simp only [Buffer.Inner.Inside, BytesRange.toRangeAsUsize,
          Buffer.Inner.sliceBegin, Buffer.Inner.sliceEnd]
        omega
    | some size =>
        simp only [BytesRange.Within, Option.getD_some] at within
        simp only [Buffer.Inner.Inside, BytesRange.toRangeAsUsize,
          Buffer.Inner.sliceBegin, Buffer.Inner.sliceEnd]
        omega
  obtain ⟨sliced, result, -, content⟩ :=
    Buffer.Inner.slice_spec buffer.wellFormed inside
  refine ⟨sliced, result, ?_⟩
  rw [content]
  cases size with
  | none =>
      simp only [BytesRange.toRangeAsUsize, Buffer.Inner.sliceBegin,
        Buffer.Inner.sliceEnd, BytesRange.select]
      rw [← length, Buffer.bytes, List.take_length]
  | some size =>
      simp only [BytesRange.toRangeAsUsize, Buffer.Inner.sliceBegin,
        Buffer.Inner.sliceEnd, BytesRange.select]
      rw [List.drop_take, Nat.add_sub_cancel_left]
      rfl

theorem read_step {path : Path}
    (holds : Holds map service root others kv files) (isFile : IsFile path)
    (range : BytesRange) :
    ∃ result later, Kv.read service root kv path range = (result, later) ∧
      files.Answers others (.read path range) (.read result) ∧
      Holds map service root others later files := by
  obtain ⟨later, found, kept⟩ := get_step holds path
  have content := holds.represents.content path isFile
  rw [Kv.read, root.buildAbsPath_file isFile]
  simp only [found]
  cases stored : map.contents kv.store (root.inner ++ path) with
  | none =>
      rw [stored, Option.map_none] at content
      exact ⟨_, later, rfl, by simp [Files.Answers, content, Kv.notFound,
        Error.new], kept⟩
  | some v =>
      rw [stored, Option.map_some] at content
      refine ⟨_, later, rfl, ?_, kept⟩
      simp only [Files.Answers, content]
      intro within
      obtain ⟨sliced, result, selected⟩ := slice_within within
      exact ⟨sliced, by rw [result]; rfl, selected⟩

/-! ### Listings -/

theorem list_step (holds : Holds map service root others kv files)
    (dir : Path) (recursive : Bool) :
    ∃ result later, Kv.list root kv dir recursive = (result, later) ∧
      files.Answers others (.list dir recursive) (.listed result) ∧
      Holds map service root others later files := by
  obtain ⟨keys, store, scanned, contents, once, reported⟩ :=
    watched_scan map kv (root.inner ++ dirPrefix dir)
  have kept : Holds map service root others
      ⟨store, kv.log ++ [.scan (root.inner ++ dirPrefix dir) keys]⟩ files := by
    refine ⟨by simp only [contents]; exact holds.represents, ?_⟩
    apply holds.confined.append
    intro key member
    have start := List.prefix_append root.inner (dirPrefix dir)
    rcases List.mem_cons.mp member with rfl | found
    · exact start
    · exact start.trans ((reported key).mp found).1
  rw [Kv.list, root.buildAbsPath_dir]
  simp only [scanned]
  have enough : (keys.map (Kv.listerEntry root)).length < keys.length + 1 := by
    rw [List.length_map]
    exact Nat.lt_succ_self _
  have path : (HierarchyLister.new (keys.map (Kv.listerEntry root)) dir
      recursive).path = dirPrefix dir := rfl
  cases recursive with
  | true =>
      have collected := HierarchyLister.collect_recursive
        (l := .new (keys.map (Kv.listerEntry root)) dir true) rfl enough
      refine ⟨_, _, rfl, ?_, kept⟩
      have whole : (HierarchyLister.new (keys.map (Kv.listerEntry root)) dir
          true).collect (keys.length + 1) =
          some (keys.map (Kv.listerEntry root)) := collected
      rw [whole]
      exact ⟨_, rfl, nodup_lister holds.represents once reported,
        fun _ => mem_lister_iff holds.represents reported⟩
  | false =>
      have levels : (HierarchyLister.new (keys.map (Kv.listerEntry root)) dir
          false).Levels := by
        intro visited member
        cases member
      have collected := HierarchyLister.collect_remaining
        levels rfl (nodup_lister holds.represents once reported) enough
      refine ⟨_, _, rfl, ?_, kept⟩
      have whole : (HierarchyLister.new (keys.map (Kv.listerEntry root)) dir
          false).collect (keys.length + 1) =
          some ((HierarchyLister.new (keys.map (Kv.listerEntry root)) dir
            false).remaining (keys.map (Kv.listerEntry root))) := collected
      rw [whole]
      exact answers_level holds.represents path rfl reported
        (HierarchyLister.lists_remaining _ _)

/-! ## Whole runs -/

theorem perform_step {call : KvCall} (stores : Stores service)
    (holds : Holds map service root others kv files) (ofFiles : call.OfFiles) :
    ∃ reply later, Kv.perform service root kv call = (reply, later) ∧
      files.Answers others call reply ∧
      Holds map service root others later (files.after call) := by
  cases call with
  | write path op chunks =>
      obtain ⟨later, written, kept⟩ := write_step stores holds ofFiles
      exact ⟨.written (.ok ()), later, by simp only [Kv.perform, written], rfl,
        kept⟩
  | read path range =>
      obtain ⟨result, later, performed, answers, kept⟩ :=
        read_step holds ofFiles range
      exact ⟨_, later, by simp only [Kv.perform, performed], answers, kept⟩
  | stat path =>
      obtain ⟨result, later, performed, answers, kept⟩ :=
        stat_step holds ofFiles
      exact ⟨_, later, by simp only [Kv.perform, performed], answers, kept⟩
  | delete path =>
      obtain ⟨later, deleted, kept⟩ := delete_step holds ofFiles
      exact ⟨.deleted (.ok 1), later, by simp only [Kv.perform, deleted], rfl,
        kept⟩
  | list dir recursive =>
      obtain ⟨result, later, performed, answers, kept⟩ :=
        list_step holds dir recursive
      exact ⟨_, later, by simp only [Kv.perform, performed], answers, kept⟩

/-- Every run answers as the map does, and stays below the root. -/
theorem run_answers {calls : List KvCall} (stores : Stores service)
    (holds : Holds map service root others kv files)
    (ofFiles : ∀ call ∈ calls, call.OfFiles) :
    files.AnswersAll others calls (Kv.run service root kv calls).1 ∧
      Confined root (Kv.run service root kv calls).2.log := by
  induction calls generalizing kv files with
  | nil => exact ⟨trivial, holds.confined⟩
  | cons call calls induction =>
      obtain ⟨reply, later, performed, answers, kept⟩ :=
        perform_step stores holds (ofFiles call List.mem_cons_self)
      have rest := induction kept
        fun other member => ofFiles other (List.mem_cons_of_mem _ member)
      simp only [Kv.run, performed]
      exact ⟨⟨answers, rest.1⟩, rest.2⟩

end Refinement

/-! ## Both backends -/

theorem Kv.buffer_foldl_write (writer : Kv.KvWriter) (chunks : List Buffer) :
    (chunks.foldl Kv.KvWriter.write writer).path = writer.path ∧
      (chunks.foldl Kv.KvWriter.write writer).buffer.bytes =
        writer.buffer.bytes ++ chunks.flatMap Buffer.bytes := by
  induction chunks generalizing writer with
  | nil => simp
  | cons chunk chunks induction =>
      obtain ⟨path, bytes⟩ := induction (writer.write chunk)
      rw [List.foldl_cons]
      refine ⟨path, ?_⟩
      rw [bytes]
      simp [Kv.KvWriter.write]

theorem Kv.stores_service {S : Type} [Adapter S Buffer] :
    Stores (Kv.service (Watched S)) := by
  intro kv key op chunks
  obtain ⟨path, bytes⟩ := Kv.buffer_foldl_write (.new key) chunks
  refine ⟨(chunks.foldl Kv.KvWriter.write (.new key)).buffer.collect,
    ?_, ?_, rfl, rfl⟩
  · simp only [Kv.service, Kv.KvWriter.close, path]
    rfl
  · rw [Kv.service]
    simp only [QueueBuf.bytes_collect, bytes]
    rfl

theorem TypedKv.buffer_foldl_write (writer : TypedKv.KvWriter)
    (chunks : List Buffer) :
    let later := chunks.foldl TypedKv.KvWriter.write writer
    later.path = writer.path ∧ later.value = writer.value ∧
      ((later.buf.map QueueBuf.collect).getD Buffer.new).bytes =
        ((writer.buf.map QueueBuf.collect).getD Buffer.new).bytes ++
          chunks.flatMap Buffer.bytes := by
  induction chunks generalizing writer with
  | nil => simp
  | cons chunk chunks induction =>
      obtain ⟨path, value, bytes⟩ := induction (writer.write chunk)
      refine ⟨path, value, ?_⟩
      rw [List.foldl_cons, bytes]
      cases queued : writer.buf with
      | none => simp [TypedKv.KvWriter.write, queued]
      | some queue => simp [TypedKv.KvWriter.write, queued]

theorem TypedKv.stores_service {S : Type} [Adapter S TypedKv.Value] :
    Stores (TypedKv.service (Watched S)) := by
  intro kv key op chunks
  obtain ⟨path, value, bytes⟩ :=
    TypedKv.buffer_foldl_write (.new key op) chunks
  have built : (chunks.foldl TypedKv.KvWriter.write (.new key op)).build.2.path =
      key := path
  refine ⟨(chunks.foldl TypedKv.KvWriter.write (.new key op)).build.1,
    ?_, bytes, rfl, rfl⟩
  simp only [TypedKv.service, TypedKv.KvWriter.close]
  rw [show (chunks.foldl TypedKv.KvWriter.write (.new key op)).value = none
    from value]
  simp only [built]
  split
  · rename_i same
    rw [same]
  · rename_i same
    rw [same]

/-- What a run of a backend is like: it answers as a map of files that is
empty at first, and calls the adapter only about keys below the root. -/
def BehavesAsRootedMap {S V : Type} [Adapter S V]
    (service : Service (Watched S) V) (root : Root) (others : Path → Prop)
    (start : S) (calls : List KvCall) : Prop :=
  Files.empty.AnswersAll others calls
      (Kv.run service root ⟨start, []⟩ calls).1 ∧
    Confined root (Kv.run service root ⟨start, []⟩ calls).2.log

theorem holds_start {S V : Type} [Adapter S V] (map : PlainMap S V)
    {service : Service (Watched S) V} {root : Root} {start : S}
    (foreign : ∀ name, stored root (map.contents start) name →
      root.Returns name ∧ ¬ IsFile name) :
    Holds map service root (stored root (map.contents start)) ⟨start, []⟩
      Files.empty where
  represents := represents_empty foreign
  confined := by
    intro access member
    cases member

/-- Over an adapter that is a plain map every sequence of calls of either
backend behaves as a rooted map of files.  Below the root there are no files
at first; what else is there, such as a key that is the root itself, has to be
such that its name comes back. -/
theorem backends_behave_as_rooted_maps (root : Root) (calls : List KvCall)
    (ofFiles : ∀ call ∈ calls, call.OfFiles) :
    (∀ (S : Type) [Adapter S Buffer] (map : PlainMap S Buffer) (start : S),
      (∀ name, stored root (map.contents start) name →
        root.Returns name ∧ ¬ IsFile name) →
      BehavesAsRootedMap (Kv.service (Watched S)) root
        (stored root (map.contents start)) start calls) ∧
    (∀ (S : Type) [Adapter S TypedKv.Value] (map : PlainMap S TypedKv.Value)
        (start : S),
      (∀ name, stored root (map.contents start) name →
        root.Returns name ∧ ¬ IsFile name) →
      BehavesAsRootedMap (TypedKv.service (Watched S)) root
        (stored root (map.contents start)) start calls) :=
  ⟨fun _ _ map _ foreign =>
      run_answers Kv.stores_service (holds_start map foreign) ofFiles,
    fun _ _ map _ foreign =>
      run_answers TypedKv.stores_service (holds_start map foreign) ofFiles⟩

/-! ## A map as a list -/

/-- Keys with their values, each key once. -/
structure ListMap (V : Type) where
  items : List (Path × V)
  once : (items.map Prod.fst).Nodup

namespace ListMap

variable {V : Type}

def lookup (map : ListMap V) (key : Path) : Option V :=
  (map.items.find? fun item => item.1 == key).map Prod.snd

def remove (map : ListMap V) (key : Path) : ListMap V where
  items := map.items.filter fun item => item.1 != key
  once := map.once.sublist ((List.filter_sublist).map Prod.fst)

def insert (map : ListMap V) (key : Path) (v : V) : ListMap V where
  items := (key, v) :: (map.remove key).items
  once := by
    rw [List.map_cons, List.nodup_cons]
    refine ⟨?_, (map.remove key).once⟩
    intro member
    obtain ⟨item, kept, same⟩ := List.mem_map.mp member
    have different := (List.mem_filter.mp kept).2
    simp [same] at different

instance : Adapter (ListMap V) V where
  get map key := (.ok (map.lookup key), map)
  set map key v := (.ok (), map.insert key v)
  delete map key := (.ok (), map.remove key)
  scan map dir := (.ok ((map.items.map Prod.fst).filter dir.isPrefixOf), map)

theorem lookup_remove (map : ListMap V) (key : Path) :
    (map.remove key).lookup = Function.update map.lookup key none :=
  OrderedMap.lookup_filter_ne map.items key

theorem lookup_insert (map : ListMap V) (key : Path) (v : V) :
    (map.insert key v).lookup = Function.update map.lookup key (some v) := by
  funext other
  by_cases same : other = key
  · rw [same, Function.update_self]
    simp [lookup, insert]
  · have different : key ≠ other := Ne.symm same
    have removed := congrFun (lookup_remove map key) other
    rw [Function.update_of_ne same] at removed
    rw [Function.update_of_ne same, ← removed]
    simp [lookup, insert, different]

theorem mem_keys_iff (map : ListMap V) (key : Path) :
    key ∈ map.items.map Prod.fst ↔ (map.lookup key).isSome = true := by
  rw [lookup, Option.isSome_map, List.find?_isSome, List.mem_map]
  simp

/-- The list is a plain map. -/
def plain (V : Type) : PlainMap (ListMap V) V where
  contents := lookup
  get map key := ⟨map, rfl, rfl⟩
  set map key v := ⟨map.insert key v, rfl, lookup_insert map key v⟩
  delete map key := ⟨map.remove key, rfl, lookup_remove map key⟩
  scan map dir := by
    refine ⟨_, map, rfl, rfl, map.once.filter _, ?_⟩
    intro key
    rw [List.mem_filter, mem_keys_iff, List.isPrefixOf_iff_prefix, and_comm]

end ListMap

/-- The root `/r/`. -/
def rootR : Root :=
  ⟨"r/".toList, .inr (by decide), by decide⟩

/-- A file is written in two chunks, read and listed. -/
def writeAndList : List KvCall :=
  [.write "a/b".toList ⟨none, none, none⟩
      [Buffer.fromBytes [1], Buffer.fromBytes [2, 3]],
    .read "a/b".toList ⟨1, some 2⟩, .list ['/'] false, .delete "a/b".toList,
    .stat "a/b".toList]

/-- A store with the root itself as a key. -/
def rootOnly (V : Type) (v : V) : ListMap V :=
  ⟨[("r/".toList, v)], List.nodup_singleton _⟩

theorem foreign_rootOnly {V : Type} (v : V) (name : Path)
    (known : stored rootR ((ListMap.plain V).contents (rootOnly V v)) name) :
    rootR.Returns name ∧ ¬ IsFile name := by
  have key := (ListMap.mem_keys_iff (rootOnly V v) _).mpr known
  have empty : name = [] :=
    List.append_right_eq_self.mp (List.mem_singleton.mp key)
  rw [empty]
  decide

theorem backends_behave_as_rooted_maps_list :
    BehavesAsRootedMap (Kv.service (Watched (ListMap Buffer))) rootR
        (stored rootR ((ListMap.plain Buffer).contents
          (rootOnly Buffer Buffer.new)))
        (rootOnly Buffer Buffer.new) writeAndList := by
  have ofFiles : ∀ call ∈ writeAndList, call.OfFiles := by
    have isFile : IsFile "a/b".toList := by decide
    intro call member
    simp only [writeAndList, List.mem_cons, List.not_mem_nil, or_false] at member
    rcases member with rfl | rfl | rfl | rfl | rfl
    · exact isFile
    · exact isFile
    · trivial
    · exact isFile
    · exact isFile
  exact (backends_behave_as_rooted_maps rootR writeAndList ofFiles).1 _
    (ListMap.plain _) _ (foreign_rootOnly _)

end OpenDal
