import Mathlib.Data.Finset.Dedup
import Mathlib.Data.Finset.Filter
import OpenDal.Types.Deleter

/-!
# What deleting does to a store

A store has a finite set of existing entries.  Its service may fail at any
call and may report deletions of a batch as failed.  All that is assumed is
that a deletion reported as successful has happened and that nothing was
deleted that was not asked for.

A sequence of calls of a `Deleter` that all succeed then keeps `Deleting`:
whatever was asked for is gone or still queued, nothing else is gone, and the
count is never below the number of queued operations.  So when `close`
returns, exactly what was asked for is gone.
-/

namespace OpenDal

/-! ## Stores -/

/-- What a service does when it is asked for some deletions and reports
`done` as successful. -/
structure Removal (before after : Finset Entry)
    (asked done : List (Path × OpDelete)) : Prop where
  only : after ⊆ before
  wanted : ∀ entry ∈ before, entry ∉ after →
    ∃ key ∈ asked, Targets key entry
  gone : ∀ key ∈ done, ∀ entry ∈ after, ¬ Targets key entry

/-- A service with a finite set of existing entries. -/
structure Store (S : Type) [BatchDelete S] where
  existing : S → Finset Entry
  once : ∀ {s later path args}, deleteOnce s path args = (.ok (), later) →
    Removal (existing s) (existing later) [(path, args)] [(path, args)]
  batch : ∀ {s later batch result}, batch.Nodup →
    deleteBatch s batch = (.ok result, later) →
    result.succeeded.Nodup ∧ result.succeeded ⊆ batch ∧
      Removal (existing s) (existing later) batch result.succeeded

theorem Removal.refl (entries : Finset Entry)
    (asked : List (Path × OpDelete)) : Removal entries entries asked [] := by
  constructor
  · exact Finset.Subset.refl _
  · intro entry member missing
    exact absurd member missing
  · intro key member
    cases member

namespace ServiceDeleter

variable {S : Type}

/-- What is queued. -/
def pending : ServiceDeleter S → List (Path × OpDelete)
  | .oneShot d => d.queued.toList
  | .batch d => d.buffer

variable [BatchDelete S]

theorem delete_ok {d later : ServiceDeleter S} {path : Path} {args : OpDelete}
    (queued : Delete.delete d path args = (.ok (), later)) :
    later.inner = d.inner ∧
      (∀ key, key ∈ later.pending ↔ key = (path, args) ∨ key ∈ d.pending) ∧
      later.pending.length ≤ d.pending.length + 1 := by
  cases d with
  | oneShot d =>
      simp only [Delete.delete, OneShotDeleter.delete] at queued
      split at queued
      · cases queued
      · rename_i free
        cases queued
        have nothing : d.queued = none := by simpa using free
        simp [inner, pending, nothing]
  | batch d =>
      cases queued
      refine ⟨rfl, ?_, ?_⟩
      · intro key
        exact List.mem_insert_iff
      · simp only [pending]
        rw [List.length_insert]
        split <;> omega

/-- What a successful flush has done to the store and to the queue. -/
structure FlushEffect (store : Store S) (d later : ServiceDeleter S)
    (deleted : Nat) (done : List (Path × OpDelete)) : Prop where
  removal : Removal (store.existing d.inner) (store.existing later.inner)
    d.pending done
  moved : ∀ key ∈ d.pending, key ∈ done ∨ key ∈ later.pending
  rest : later.pending ⊆ d.pending
  counted : later.pending.length + deleted ≤ d.pending.length

private theorem flushEffect_idle (store : Store S)
    {d : ServiceDeleter S} :
    FlushEffect store d d 0 [] where
  removal := Removal.refl _ _
  moved := fun _ member => .inr member
  rest := fun _ member => member
  counted := Nat.le_refl _

private theorem flushEffect_single (store : Store S)
    {d later : ServiceDeleter S} {path : Path} {args : OpDelete}
    (single : d.pending = [(path, args)]) (empty : later.pending = [])
    (answered : deleteOnce d.inner path args = (.ok (), later.inner)) :
    FlushEffect store d later 1 [(path, args)] where
  removal := single ▸ store.once answered
  moved := fun _ member => .inl (single ▸ member)
  rest := by simp [empty]
  counted := by simp [single, empty]

private theorem flushEffect_batch (store : Store S)
    {d later : ServiceDeleter S} {result : BatchDeleteResult}
    (distinct : d.pending.Nodup)
    (answered : deleteBatch d.inner d.pending = (.ok result, later.inner))
    (rest : later.pending = d.pending.diff result.succeeded) :
    FlushEffect store d later result.succeeded.length result.succeeded := by
  obtain ⟨once, asked, removal⟩ := store.batch distinct answered
  have split : (result.succeeded ++ later.pending).Perm d.pending := by
    rw [rest]
    apply List.subperm_append_diff_self_of_count_le
    intro key _
    exact (once.subperm asked).count_le key
  refine ⟨removal, ?_, ?_, ?_⟩
  · intro key member
    exact List.mem_append.mp (split.mem_iff.mpr member)
  · intro key member
    exact split.mem_iff.mp (List.mem_append_right _ member)
  · have lengths := split.length_eq
    rw [List.length_append] at lengths
    omega

private theorem eq_of_map {α δ δ' : Type} {wrap : δ → δ'} {call : α × δ}
    {answer : α} {wrapped : δ'} (called : call.map id wrap = (answer, wrapped)) :
    ∃ later, call = (answer, later) ∧ wrap later = wrapped := by
  obtain ⟨answer', later⟩ := call
  cases called
  exact ⟨later, rfl, rfl⟩

theorem flush_ok (store : Store S) {d later : ServiceDeleter S}
    {deleted : Nat} (flushed : Delete.flush d = (.ok deleted, later)) :
    ∃ done, FlushEffect store d later deleted done := by
  cases d with
  | oneShot d =>
      obtain ⟨next, inside, rfl⟩ := eq_of_map flushed
      obtain ⟨empty, rfl, rfl⟩ | ⟨path, args, single, rfl, answered, empty⟩ :=
        OneShotDeleter.flush_cases inside
      · exact ⟨[], flushEffect_idle store⟩
      · refine ⟨_, flushEffect_single store ?_ ?_ answered⟩
        · simp [pending, single]
        · simp [pending, empty]
  | batch d =>
      obtain ⟨next, inside, rfl⟩ := eq_of_map flushed
      obtain ⟨empty, rfl, rfl⟩ | ⟨path, args, single, rfl, answered, empty⟩ |
        ⟨result, answered, -, rfl, rest⟩ := BatchDeleter.flush_cases inside
      · exact ⟨[], flushEffect_idle store⟩
      · exact ⟨_, flushEffect_single store single empty answered⟩
      · exact ⟨_, flushEffect_batch store d.distinct answered rest⟩

/-! ## Progress of a deletion -/

/-- `start` existed when the deleter was opened and `asked` has been queued
since then. -/
structure Progress (store : Store S) (start : Finset Entry)
    (asked : List (Path × OpDelete)) (d : ServiceDeleter S) : Prop where
  only : store.existing d.inner ⊆ start
  wanted : ∀ entry ∈ start, entry ∉ store.existing d.inner →
    ∃ key ∈ asked, Targets key entry
  served : ∀ key ∈ asked, key ∈ d.pending ∨
    ∀ entry ∈ store.existing d.inner, ¬ Targets key entry
  pending : d.pending ⊆ asked

theorem Progress.new (store : Store S) {s : S} {d : ServiceDeleter S}
    (opened : d = .oneShot (OneShotDeleter.new s) ∨
      d = .batch (BatchDeleter.new s)) :
    Progress store (store.existing s) [] d ∧ d.pending = [] := by
  have same : d.inner = s ∧ d.pending = [] := by
    rcases opened with rfl | rfl
    · exact ⟨rfl, rfl⟩
    · exact ⟨rfl, rfl⟩
  obtain ⟨rfl, empty⟩ := same
  refine ⟨⟨Finset.Subset.refl _, ?_, ?_, ?_⟩, empty⟩
  · intro entry member missing
    exact absurd member missing
  · intro key member
    cases member
  · simp [empty]

theorem Progress.delete {store : Store S} {start : Finset Entry}
    {asked : List (Path × OpDelete)} {d later : ServiceDeleter S}
    {path : Path} {args : OpDelete} (progress : Progress store start asked d)
    (queued : Delete.delete d path args = (.ok (), later)) :
    Progress store start ((path, args) :: asked) later := by
  obtain ⟨same, members, -⟩ := delete_ok queued
  constructor
  · rw [same]
    exact progress.only
  · intro entry member missing
    rw [same] at missing
    obtain ⟨key, known, targets⟩ := progress.wanted entry member missing
    exact ⟨key, List.mem_cons_of_mem _ known, targets⟩
  · intro key member
    rw [same, members]
    rcases List.mem_cons.mp member with rfl | earlier
    · exact .inl (.inl rfl)
    · exact (progress.served key earlier).imp_left .inr
  · intro key member
    rcases (members key).mp member with rfl | earlier
    · exact List.mem_cons_self
    · exact List.mem_cons_of_mem _ (progress.pending earlier)

theorem Progress.flush {store : Store S} {start : Finset Entry}
    {asked done : List (Path × OpDelete)} {d later : ServiceDeleter S}
    {deleted : Nat} (progress : Progress store start asked d)
    (effect : FlushEffect store d later deleted done) :
    Progress store start asked later := by
  constructor
  · exact effect.removal.only.trans progress.only
  · intro entry member missing
    by_cases before : entry ∈ store.existing d.inner
    · obtain ⟨key, queued, targets⟩ :=
        effect.removal.wanted entry before missing
      exact ⟨key, progress.pending queued, targets⟩
    · exact progress.wanted entry member before
  · intro key member
    rcases progress.served key member with queued | gone
    · rcases effect.moved key queued with finished | waiting
      · exact .inr (effect.removal.gone key finished)
      · exact .inl waiting
    · exact .inr fun entry left => gone entry (effect.removal.only left)
  · exact List.Subset.trans effect.rest progress.pending

end ServiceDeleter

namespace Deleter

variable {S : Type} [BatchDelete S]

/-- The state between two calls that succeeded.  The count is never below the
number of queued operations. -/
structure Deleting (store : Store S) (start : Finset Entry)
    (asked : List (Path × OpDelete)) (d : Deleter (ServiceDeleter S)) :
    Prop where
  progress : d.deleter.Progress store start asked
  counted : d.deleter.pending.length ≤ d.curSize

theorem Deleting.flush {store : Store S} {start : Finset Entry}
    {asked : List (Path × OpDelete)} {d later : Deleter (ServiceDeleter S)}
    {deleted : Nat} (deleting : Deleting store start asked d)
    (flushed : d.flush = some (.ok deleted, later)) :
    Deleting store start asked later := by
  unfold Deleter.flush at flushed
  split at flushed
  · cases flushed
  · rename_i amount deleter answered
    split at flushed
    · cases flushed
      obtain ⟨done, effect⟩ := ServiceDeleter.flush_ok store answered
      refine ⟨deleting.progress.flush effect, ?_⟩
      have before := deleting.counted
      have fewer := effect.counted
      show deleter.pending.length ≤ d.curSize - deleted
      omega
    · cases flushed

theorem Deleting.push {store : Store S} {start : Finset Entry}
    {asked : List (Path × OpDelete)} {d later : Deleter (ServiceDeleter S)}
    {input : DeleteInput} (deleting : Deleting store start asked d)
    (pushed : d.push input = (.ok (), later)) :
    Deleting store start (input.key :: asked) later := by
  unfold Deleter.push at pushed
  split at pushed
  · cases pushed
  · rename_i deleter answered
    cases pushed
    refine ⟨deleting.progress.delete answered, ?_⟩
    obtain ⟨-, -, longer⟩ := ServiceDeleter.delete_ok answered
    exact longer.trans (Nat.succ_le_succ deleting.counted)

theorem Deleting.delete {store : Store S} {start : Finset Entry}
    {asked : List (Path × OpDelete)} {d later : Deleter (ServiceDeleter S)}
    {input : DeleteInput} (deleting : Deleting store start asked d)
    (deleted : d.delete input = some (.ok (), later)) :
    Deleting store start (input.key :: asked) later := by
  unfold Deleter.delete at deleted
  split at deleted
  · split at deleted
    · cases deleted
    · cases deleted
    · rename_i between flushed
      exact (deleting.flush flushed).push (Option.some.inj deleted)
  · exact deleting.push (Option.some.inj deleted)

theorem Deleting.deleteTryStream {store : Store S} {start : Finset Entry}
    {asked : List (Path × OpDelete)} {d later : Deleter (ServiceDeleter S)}
    {items : List (Except Error Entry)}
    (deleting : Deleting store start asked d)
    (deleted : d.deleteTryStream items = some (.ok (), later)) :
    ∃ entries : List Entry, items = entries.map .ok ∧
      Deleting store start
        ((entries.map fun entry => (DeleteInput.ofEntry entry).key).reverse ++
          asked) later := by
  induction items generalizing d asked with
  | nil =>
      cases deleted
      exact ⟨[], rfl, deleting⟩
  | cons item items induction =>
      cases item with
      | error err => cases deleted
      | ok entry =>
          simp only [Deleter.deleteTryStream] at deleted
          split at deleted
          · cases deleted
          · cases deleted
          · rename_i next first
            obtain ⟨entries, rfl, ended⟩ :=
              induction (deleting.delete first) deleted
            exact ⟨entry :: entries, rfl, by simpa using ended⟩

theorem Deleting.close {store : Store S} {start : Finset Entry}
    {asked : List (Path × OpDelete)} {fuel : Nat}
    {d later : Deleter (ServiceDeleter S)}
    (deleting : Deleting store start asked d)
    (closed : d.close fuel = some (.ok (), later)) :
    Deleting store start asked later ∧ later.curSize = 0 := by
  induction fuel generalizing d with
  | zero => cases closed
  | succ fuel induction =>
      simp only [Deleter.close] at closed
      split at closed
      · cases closed
      · cases closed
      · rename_i next flushed
        split at closed
        · rename_i nothing
          cases closed
          exact ⟨deleting.flush flushed, nothing⟩
        · exact induction (deleting.flush flushed) closed

/-- When nothing is queued any more, exactly what was asked for is gone. -/
theorem Deleting.existing_eq {store : Store S} {start : Finset Entry}
    {asked : List (Path × OpDelete)} {d : Deleter (ServiceDeleter S)}
    (deleting : Deleting store start asked d) (nothing : d.curSize = 0) :
    store.existing d.deleter.inner =
      start.filter fun entry => ∀ key ∈ asked, ¬ Targets key entry := by
  have empty : d.deleter.pending = [] := by
    apply List.length_eq_zero_iff.mp
    have counted := deleting.counted
    omega
  ext entry
  rw [Finset.mem_filter]
  constructor
  · intro exists'
    refine ⟨deleting.progress.only exists', ?_⟩
    intro key member
    rcases deleting.progress.served key member with queued | gone
    · rw [empty] at queued
      cases queued
    · exact gone entry exists'
  · intro given
    obtain ⟨before, untouched⟩ := given
    by_contra missing
    obtain ⟨key, member, targets⟩ :=
      deleting.progress.wanted entry before missing
    exact untouched key member targets

end Deleter

/-! ## The store in memory -/

namespace MemoryStore

theorem mem_foldl_remove {batch : List (Path × OpDelete)} {s : MemoryStore}
    {entry : Entry} :
    entry ∈ (batch.foldl remove s).entries ↔
      entry ∈ s.entries ∧ ∀ key ∈ batch, ¬ Targets key entry := by
  induction batch generalizing s with
  | nil => simp
  | cons key batch induction =>
      rw [List.foldl_cons, induction]
      simp [remove, and_assoc]

theorem removal_foldl (batch : List (Path × OpDelete)) (s : MemoryStore) :
    Removal s.entries.toFinset (batch.foldl remove s).entries.toFinset
      batch batch := by
  constructor
  · intro entry member
    rw [List.mem_toFinset, mem_foldl_remove] at member
    exact List.mem_toFinset.mpr member.1
  · intro entry before missing
    by_contra untouched
    apply missing
    rw [List.mem_toFinset, mem_foldl_remove]
    refine ⟨List.mem_toFinset.mp before, ?_⟩
    intro key member targets
    exact untouched ⟨key, member, targets⟩
  · intro key member entry left
    rw [List.mem_toFinset, mem_foldl_remove] at left
    exact left.2 key member

def store : Store MemoryStore where
  existing s := s.entries.toFinset
  once := by
    intro s later path args deleted
    cases deleted
    exact removal_foldl [(path, args)] s
  batch := by
    intro s later batch result distinct deleted
    cases deleted
    exact ⟨distinct, List.Subset.refl _, removal_foldl batch s⟩

end MemoryStore

end OpenDal
