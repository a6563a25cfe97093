import OpenDal.Types.DeletedEntries

/-!
# `remove_all`

The path itself is deleted when it is a file, and then everything that the
recursive listing of the path returns.  Listing works on prefixes: it returns
the entries whose path starts with the given path as a string.  What is nested
under a path is less than that, unless the path ends with `/`.
-/

namespace OpenDal

/-- The methods of an accessor that deleting uses.  `list` is the recursive
listing. -/
structure Access (S : Type) where
  stat : S → Path → Except Error Metadata
  list : S → Path → Except Error (List (Except Error Entry))
  delete : S → Except Error (ServiceDeleter S)
  deleteMaxSize : Option Nat
  delete_new : ∀ {s d}, delete s = .ok d →
    d = .oneShot (OneShotDeleter.new s) ∨ d = .batch (BatchDeleter.new s)

namespace Access

variable {S : Type} [BatchDelete S]

/-- `delete_with(path)` without options. -/
def deletePath (access : Access S) (s : S) (path : Path) :
    Except Error Unit × S :=
  match access.delete s with
  | .error err => (.error err, s)
  | .ok deleter =>
      match Delete.delete deleter (Path.normalizePath path) OpDelete.new with
      | (.error err, deleter) => (.error err, deleter.inner)
      | (.ok (), deleter) =>
          match Delete.flush deleter with
          | (.error err, deleter) => (.error err, deleter.inner)
          | (.ok _, deleter) => (.ok (), deleter.inner)

/-- `delete_try_stream` of the operator: all items, then `close`. -/
def deleteItems (access : Access S) (fuel : Nat) (s : S)
    (items : List (Except Error Entry)) : Option (Except Error Unit × S) :=
  match access.delete s with
  | .error err => some (.error err, s)
  | .ok deleter =>
      match (Deleter.create deleter access.deleteMaxSize).deleteTryStream
        items with
      | none => none
      | some (.error err, d) => some (.error err, d.deleter.inner)
      | some (.ok (), d) =>
          (d.close fuel).map fun (answer, d) => (answer, d.deleter.inner)

/-- The second half of `remove_all`. -/
def removeListed (access : Access S) (fuel : Nat) (s : S) (path : Path) :
    Option (Except Error Unit × S) :=
  match access.list s (Path.normalizePath path) with
  | .error err => some (.error err, s)
  | .ok items => access.deleteItems fuel s items

/-- `remove_all`; closing the deleter may flush `fuel` times. -/
def removeAll (access : Access S) (fuel : Nat) (s : S) (path : Path) :
    Option (Except Error Unit × S) :=
  match access.stat s (Path.normalizePath path) with
  | .ok metadata =>
      if metadata.mode ≠ .dir then
        match access.deletePath s path with
        | (.error err, s) => some (.error err, s)
        -- there may still be objects prefixed with the path
        | (.ok (), s) => access.removeListed fuel s path
      else
        access.removeListed fuel s path
  | .error err =>
      if err.kind = .notFound then
        access.removeListed fuel s path
      else
        some (.error err, s)

end Access

/-- An accessor has its methods twice. -/
structure Backend (S : Type) where
  access : Access S
  blocking : Access S

def Operator.removeAll {S : Type} [BatchDelete S] (backend : Backend S) :
    Nat → S → Path → Option (Except Error Unit × S) :=
  backend.access.removeAll

def BlockingOperator.removeAll {S : Type} [BatchDelete S]
    (backend : Backend S) : Nat → S → Path → Option (Except Error Unit × S) :=
  backend.blocking.removeAll

/-! ## `remove_all` deletes by prefix -/

namespace Access

variable {S : Type}

/-- The recursive listing of a path yields the existing entries that start
with it.  The root is listed by another rule. -/
def ListsPrefixes (access : Access S) (existing : S → Finset Entry) : Prop :=
  ∀ {s path items}, path ≠ ['/'] → access.list s path = .ok items →
    (∀ entry, .ok entry ∈ items → entry ∈ existing s ∧ path <+: entry.path) ∧
    ((∀ item ∈ items, item.isOk) →
      ∀ entry ∈ existing s, path <+: entry.path → .ok entry ∈ items)

variable [BatchDelete S]

theorem deletePath_ok (store : Store S) {access : Access S} {s later : S}
    {path : Path} (deleted : access.deletePath s path = (.ok (), later)) :
    store.existing later ⊆ store.existing s ∧
      ∀ entry ∈ store.existing s, entry ∉ store.existing later →
        entry.path = Path.normalizePath path := by
  unfold deletePath at deleted
  split at deleted
  · cases deleted
  · rename_i deleter opened
    split at deleted
    · cases deleted
    · rename_i next queued
      split at deleted
      · cases deleted
      · rename_i amount last flushed
        cases deleted
        obtain ⟨opening, -⟩ := ServiceDeleter.Progress.new store (access.delete_new opened)
        obtain ⟨done, effect⟩ := ServiceDeleter.flush_ok store flushed
        have progress := (opening.delete queued).flush effect
        refine ⟨progress.only, ?_⟩
        intro entry before missing
        obtain ⟨key, member, same, -⟩ :=
          progress.wanted entry before missing
        rw [List.mem_singleton.mp member] at same
        exact same.symm

theorem deleteItems_ok {store : Store S} {access : Access S} {fuel : Nat}
    {s later : S} {items : List (Except Error Entry)}
    (deleted : access.deleteItems fuel s items = some (.ok (), later)) :
    ∃ entries : List Entry, items = entries.map .ok ∧
      store.existing later = (store.existing s).filter fun entry =>
        ∀ listed ∈ entries,
          ¬ Targets (DeleteInput.ofEntry listed).key entry := by
  unfold deleteItems at deleted
  split at deleted
  · cases deleted
  · rename_i deleter opened
    split at deleted
    · cases deleted
    · cases deleted
    · rename_i d streamed
      obtain ⟨⟨answer, last⟩, closed, same⟩ :=
        Option.map_eq_some_iff.mp deleted
      obtain ⟨opening, empty⟩ :=
        ServiceDeleter.Progress.new store (access.delete_new opened)
      have start : Deleter.Deleting store (store.existing s) []
          (Deleter.create deleter access.deleteMaxSize) :=
        ⟨opening, by simp [Deleter.create, empty]⟩
      obtain ⟨entries, rfl, deleting⟩ := start.deleteTryStream streamed
      cases same
      obtain ⟨ended, nothing⟩ := deleting.close closed
      refine ⟨entries, rfl, ?_⟩
      rw [ended.existing_eq nothing]
      simp

theorem removeListed_ok {store : Store S} {access : Access S}
    (lists : access.ListsPrefixes store.existing) {fuel : Nat} {s later : S}
    {path : Path} (notRoot : Path.normalizePath path ≠ ['/'])
    (removed : access.removeListed fuel s path = some (.ok (), later)) :
    store.existing later = (store.existing s).filter fun entry =>
      ¬ Path.normalizePath path <+: entry.path := by
  unfold removeListed at removed
  split at removed
  · cases removed
  · rename_i items listed
    obtain ⟨entries, rfl, remaining⟩ := deleteItems_ok removed
    obtain ⟨sound, complete⟩ := lists notRoot listed
    rw [remaining]
    apply Finset.filter_congr
    intro entry exists'
    constructor
    · intro untouched starts
      have yielded := complete (by simp [Except.isOk, Except.toBool]) entry
        exists' starts
      have member : entry ∈ entries := by simpa using yielded
      apply untouched entry member
      exact ⟨rfl, .inr (DeleteInput.version_op _)⟩
    · intro outside other member targets
      obtain ⟨-, starts⟩ := sound other (by simp [member])
      exact outside (targets.1 ▸ starts)

/-- Whatever `stat` says, the entries that start with the path are deleted and
no others. -/
theorem removeAll_ok {store : Store S} {access : Access S}
    (lists : access.ListsPrefixes store.existing) {fuel : Nat} {s later : S}
    {path : Path} (notRoot : Path.normalizePath path ≠ ['/'])
    (removed : access.removeAll fuel s path = some (.ok (), later)) :
    store.existing later = (store.existing s).filter fun entry =>
      ¬ Path.normalizePath path <+: entry.path := by
  unfold removeAll at removed
  split at removed
  · split at removed
    · split at removed
      · cases removed
      · rename_i between deleted
        obtain ⟨only, itself⟩ := deletePath_ok store deleted
        rw [removeListed_ok lists notRoot removed]
        ext entry
        simp only [Finset.mem_filter]
        constructor
        · intro given
          obtain ⟨exists', outside⟩ := given
          exact ⟨only exists', outside⟩
        · intro given
          obtain ⟨before, outside⟩ := given
          refine ⟨?_, outside⟩
          by_contra missing
          rw [itself entry before missing] at outside
          exact outside (List.prefix_refl _)
    · exact removeListed_ok lists notRoot removed
  · split at removed
    · exact removeListed_ok lists notRoot removed
    · cases removed

end Access

/-! ## What is nested under a path -/

/-- The path of the directory: with a `/` at the end. -/
def Path.asDir (path : Path) : Path :=
  if Path.endsWithSlash path then path else path ++ ['/']

/-- `other` is the path, the path as a directory, or below it. -/
def Path.Nested (path other : Path) : Prop :=
  other = path ∨ other = path ++ ['/'] ∨ Path.asDir path <+: other

instance (path other : Path) : Decidable (Path.Nested path other) :=
  inferInstanceAs (Decidable (_ ∨ _ ∨ _))

theorem Path.prefix_of_nested {path other : Path}
    (nested : Path.Nested path other) : path <+: other := by
  rcases nested with rfl | rfl | below
  · exact List.prefix_refl _
  · exact List.prefix_append _ _
  · unfold Path.asDir at below
    split at below
    · exact below
    · exact (List.prefix_append _ _).trans below

/-- Every existing entry that starts with the path is nested under it. -/
def NoSibling (path : Path) (entries : Finset Entry) : Prop :=
  ∀ entry ∈ entries, path <+: entry.path → Path.Nested path entry.path

/-- What is nested under the path is gone, and everything else still
exists. -/
def RemovesNested (path : Path) (before after : Finset Entry) : Prop :=
  after = before.filter fun entry => ¬ Path.Nested path entry.path

theorem removesNested_iff_of_prefix {path : Path} {before after : Finset Entry}
    (removed : after = before.filter fun entry => ¬ path <+: entry.path) :
    RemovesNested path before after ↔ NoSibling path before := by
  subst removed
  constructor
  · intro same entry exists' starts
    by_contra sibling
    have kept : entry ∈ before.filter fun entry => ¬ path <+: entry.path :=
      same ▸ Finset.mem_filter.mpr ⟨exists', sibling⟩
    exact (Finset.mem_filter.mp kept).2 starts
  · intro alone
    apply Finset.filter_congr
    intro entry exists'
    rw [not_iff_not]
    exact ⟨alone entry exists', Path.prefix_of_nested⟩

namespace MemoryStore

/-- The entries are listed by prefix. -/
def access (batching : Bool) (deleteMaxSize : Option Nat) :
    Access MemoryStore where
  stat s path :=
    match s.entries.find? fun entry => entry.path == path with
    | some entry => .ok entry.metadata
    | none => .error (Error.new .notFound "no such entry")
  list s path :=
    .ok ((s.entries.filter fun entry => path.isPrefixOf entry.path).map .ok)
  delete s :=
    if batching then .ok (.batch (BatchDeleter.new s))
    else .ok (.oneShot (OneShotDeleter.new s))
  deleteMaxSize := deleteMaxSize
  delete_new := by
    intro s d opened
    split at opened
    · cases opened
      exact .inr rfl
    · cases opened
      exact .inl rfl

theorem listsPrefixes (batching : Bool) (deleteMaxSize : Option Nat) :
    (access batching deleteMaxSize).ListsPrefixes store.existing := by
  intro s path items _ listed
  cases listed
  constructor
  · intro entry member
    simpa [store] using member
  · intro _ entry exists' starts
    have member : entry ∈ s.entries := by simpa [store] using exists'
    simpa using ⟨member, starts⟩

def backend : Backend MemoryStore where
  access := access true (some 1000)
  blocking := access false none

end MemoryStore

/-! ## The result -/

/-- When `remove_all` returns `Ok`, it has deleted what is nested under the
path and nothing else exactly when no other entry starts with the path. -/
theorem removeAll_removesNested_iff {S : Type} [BatchDelete S]
    (store : Store S) (backend : Backend S)
    (lists : backend.access.ListsPrefixes store.existing)
    (listsBlocking : backend.blocking.ListsPrefixes store.existing)
    {path : Path} (normalized : Path.normalizePath path = path)
    (notRoot : path ≠ ['/']) (s : S) :
    (∀ fuel later,
      Operator.removeAll backend fuel s path = some (.ok (), later) →
      (RemovesNested path (store.existing s) (store.existing later) ↔
        NoSibling path (store.existing s))) ∧
    (∀ fuel later,
      BlockingOperator.removeAll backend fuel s path = some (.ok (), later) →
      (RemovesNested path (store.existing s) (store.existing later) ↔
        NoSibling path (store.existing s))) := by
  have notRoot' : Path.normalizePath path ≠ ['/'] := normalized.symm ▸ notRoot
  constructor
  · intro fuel later removed
    have remaining := Access.removeAll_ok lists notRoot' removed
    rw [normalized] at remaining
    exact removesNested_iff_of_prefix remaining
  · intro fuel later removed
    have remaining := Access.removeAll_ok listsBlocking notRoot' removed
    rw [normalized] at remaining
    exact removesNested_iff_of_prefix remaining

/-- A file, an object below it, and a file elsewhere. -/
def MemoryStore.alone : MemoryStore :=
  ⟨[⟨['a'], .file, none⟩, ⟨['a', '/', 'b'], .file, none⟩,
    ⟨['c'], .file, none⟩]⟩

theorem removeAll_removesNested_alone :
    ∃ later,
      Operator.removeAll MemoryStore.backend 1 MemoryStore.alone ['a'] =
        some (.ok (), later) ∧
      RemovesNested ['a'] (MemoryStore.store.existing MemoryStore.alone)
        (MemoryStore.store.existing later) := by
  refine ⟨⟨[⟨['c'], .file, none⟩]⟩, by rfl, ?_⟩
  apply ((removeAll_removesNested_iff MemoryStore.store MemoryStore.backend
    (MemoryStore.listsPrefixes _ _) (MemoryStore.listsPrefixes _ _)
    (by decide) (by decide) _).1 1 _ (by rfl)).mpr
  unfold NoSibling
  decide

/-- Two files, and the name of the second begins with that of the first. -/
def MemoryStore.siblings : MemoryStore :=
  ⟨[⟨['a'], .file, none⟩, ⟨['a', 'b'], .file, none⟩]⟩

/-- Removing `a` also removes `ab`. -/
theorem removeAll_removesNested_fails_siblings :
    (∃ later,
      Operator.removeAll MemoryStore.backend 1 MemoryStore.siblings ['a'] =
        some (.ok (), later) ∧
      ¬ RemovesNested ['a'] (MemoryStore.store.existing MemoryStore.siblings)
        (MemoryStore.store.existing later)) ∧
    ∃ later,
      BlockingOperator.removeAll MemoryStore.backend 1 MemoryStore.siblings
        ['a'] = some (.ok (), later) ∧
      ¬ RemovesNested ['a'] (MemoryStore.store.existing MemoryStore.siblings)
        (MemoryStore.store.existing later) := by
  constructor
  · refine ⟨⟨[]⟩, by rfl, ?_⟩
    unfold RemovesNested
    decide
  · refine ⟨⟨[]⟩, by rfl, ?_⟩
    unfold RemovesNested
    decide

end OpenDal
