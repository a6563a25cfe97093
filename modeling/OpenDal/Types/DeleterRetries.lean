import OpenDal.Types.DeleterCount

/-!
# Retrying what has failed

The service divides every batch into what succeeded and what may be retried,
and performs a single deletion.  The buffer of the `BatchDeleter` is then
always what is left to do: what has been queued is in the buffer or has been
reported as succeeded, and never both.

A flush of a buffer that is not empty makes progress, so one flush makes room
for the next operation and no batch is larger than `maxSize`; and closing
flushes at most as often as there are operations.
-/

namespace OpenDal

/-- A request to the service and what it reported. -/
structure Report where
  batch : List (Path × OpDelete)
  succeeded : List (Path × OpDelete)
  failed : List (Path × OpDelete)
deriving DecidableEq, Repr

/-- A service together with its reports. -/
structure Reported (S : Type) where
  service : S
  reports : List Report

namespace Reported

variable {S : Type}

def add (s : Reported S) (report : Report) (service : S) : Reported S :=
  ⟨service, s.reports ++ [report]⟩

variable [BatchDelete S]

def reportOnce (s : Reported S) (path : Path) (args : OpDelete) :
    Except Error Unit × Reported S :=
  match deleteOnce s.service path args with
  | (.ok (), service) =>
      (.ok (), s.add ⟨[(path, args)], [(path, args)], []⟩ service)
  | (.error err, service) =>
      (.error err, s.add ⟨[(path, args)], [], [(path, args)]⟩ service)

def reportBatch (s : Reported S) (batch : List (Path × OpDelete)) :
    Except Error BatchDeleteResult × Reported S :=
  match deleteBatch s.service batch with
  | (.ok result, service) =>
      (.ok result, s.add ⟨batch, result.succeeded, result.refused⟩ service)
  | (.error err, service) => (.error err, s.add ⟨batch, [], batch⟩ service)

instance : BatchDelete (Reported S) where
  deleteOnce := reportOnce
  deleteBatch := reportBatch

end Reported

/-- The service performs single deletions and divides batches into what
succeeded and what may be retried. -/
structure Retrying (S : Type) [BatchDelete S] : Prop where
  once : ∀ (s : S) path args, (deleteOnce s path args).1 = .ok ()
  batch : ∀ (s : S) batch, batch.Nodup → batch ≠ [] →
    ∃ result, (deleteBatch s batch).1 = .ok result ∧
      result.Splits batch ∧ result.Retryable

/-- What these reports say has succeeded. -/
def succeeded (reports : List Report) : List (Path × OpDelete) :=
  reports.flatMap Report.succeeded

/-- What these reports say has failed. -/
def failed (reports : List Report) : List (Path × OpDelete) :=
  reports.flatMap Report.failed

@[simp] theorem succeeded_nil : succeeded [] = [] := rfl

@[simp] theorem failed_nil : failed [] = [] := rfl

@[simp] theorem succeeded_singleton (report : Report) :
    succeeded [report] = report.succeeded := by
  simp [succeeded]

@[simp] theorem failed_singleton (report : Report) :
    failed [report] = report.failed := by
  simp [failed]

@[simp] theorem succeeded_append (reports more : List Report) :
    succeeded (reports ++ more) = succeeded reports ++ succeeded more := by
  simp [succeeded]

namespace BatchDeleter

variable {S : Type} [BatchDelete S]

/-- A flush made these reports, and what they say has failed is the buffer. -/
structure Reports (d later : BatchDeleter (Reported S))
    (made : List Report) : Prop where
  reports : later.inner.reports = d.inner.reports ++ made
  failed : later.buffer.Perm (failed made)
  pairs : (succeeded made ++ later.buffer).Perm d.buffer
  batches : ∀ report ∈ made, report.batch = d.buffer
  progress : d.buffer = [] ∨ succeeded made ≠ []

theorem flush_reports (retrying : Retrying S)
    (d : BatchDeleter (Reported S)) :
    ∃ later made, d.flush = (.ok (succeeded made).length, later) ∧
      Reports d later made := by
  unfold flush
  split
  · rename_i empty
    refine ⟨d, [], rfl, ?_⟩
    constructor
    · simp
    · simp [empty]
    · simp
    · simp
    · exact .inl empty
  · rename_i path args held
    obtain ⟨service, performed⟩ : ∃ service,
        deleteOnce d.inner.service path args = (.ok (), service) :=
      ⟨_, Prod.ext (retrying.once d.inner.service path args) rfl⟩
    have answered : deleteOnce d.inner path args = (.ok (),
        d.inner.add ⟨[(path, args)], [(path, args)], []⟩ service) := by
      change d.inner.reportOnce path args = _
      rw [Reported.reportOnce, performed]
    rw [answered]
    refine ⟨_, [⟨[(path, args)], [(path, args)], []⟩], rfl, ?_⟩
    constructor
    · rfl
    · simp [new]
    · simp [new, held]
    · simp [held]
    · exact .inr (by simp)
  · rename_i notEmpty notSingle
    obtain ⟨result, divided, splits, retryable⟩ :=
      retrying.batch d.inner.service d.buffer d.distinct notEmpty
    obtain ⟨service, performed⟩ : ∃ service,
        deleteBatch d.inner.service d.buffer = (.ok result, service) :=
      ⟨_, Prod.ext divided rfl⟩
    have answered : deleteBatch d.inner d.buffer = (.ok result,
        d.inner.add ⟨d.buffer, result.succeeded, result.refused⟩
          service) := by
      change d.inner.reportBatch d.buffer = _
      rw [Reported.reportBatch, performed]
    rw [answered]
    simp only
    split
    · rename_i rejected
      have member := List.mem_of_find?_eq_some rejected
      have permanent := List.find?_some rejected
      have temporary := retryable _ member
      simp [temporary] at permanent
    · refine ⟨_, [⟨d.buffer, result.succeeded, result.refused⟩],
        by rw [succeeded_singleton], ?_⟩
      constructor
      · rfl
      · simpa [removeFromBuffer] using splits.diff
      · simpa [removeFromBuffer] using
          (splits.diff.append_left result.succeeded).trans splits.pairs
      · simp
      · exact .inr (by simpa using splits.nonempty)

end BatchDeleter

namespace Deleter

variable {S : Type}

/-- What has been queued is in the buffer or has been reported as succeeded,
and no batch was too large. -/
structure Tracked (maxSize : Nat) (keys : List (Path × OpDelete))
    (d : Deleter (BatchDeleter (Reported S))) : Prop where
  limit : d.maxSize = maxSize
  curSize : d.curSize = d.deleter.buffer.length
  fits : d.deleter.buffer.length ≤ maxSize
  pairs : (succeeded d.deleter.inner.reports ++ d.deleter.buffer).Perm keys
  batches : ∀ report ∈ d.deleter.inner.reports,
    report.batch.length ≤ maxSize

theorem Tracked.perm {maxSize : Nat} {keys same : List (Path × OpDelete)}
    {d : Deleter (BatchDeleter (Reported S))}
    (tracked : Tracked maxSize keys d) (perm : keys.Perm same) :
    Tracked maxSize same d :=
  { tracked with pairs := tracked.pairs.trans perm }

variable [BatchDelete S]

theorem flush_tracked (retrying : Retrying S) {maxSize : Nat}
    {keys : List (Path × OpDelete)}
    {d : Deleter (BatchDeleter (Reported S))}
    (tracked : Tracked maxSize keys d) :
    ∃ deleted later, d.flush = some (.ok deleted, later) ∧
      Tracked maxSize keys later ∧
      (later.curSize = 0 ∨ later.curSize < d.curSize) := by
  obtain ⟨inner, made, flushed, reports⟩ := d.deleter.flush_reports retrying
  have whole := reports.pairs.length_eq
  rw [List.length_append, ← tracked.curSize] at whole
  have enough : (succeeded made).length ≤ d.curSize := by omega
  have fewer : inner.buffer.length ≤ maxSize := by
    have fits := tracked.fits
    rw [← tracked.curSize] at fits
    omega
  refine ⟨(succeeded made).length, { d with
    deleter := inner
    curSize := d.curSize - (succeeded made).length }, ?_, ?_, ?_⟩
  · simp only [flush, Delete.flush, flushed, if_pos enough]
  · constructor
    · exact tracked.limit
    · simp only
      omega
    · exact fewer
    · have earlier := reports.pairs.append_left
        (succeeded d.deleter.inner.reports)
      rw [← List.append_assoc, ← succeeded_append, ← reports.reports]
        at earlier
      exact earlier.trans tracked.pairs
    · intro report member
      rw [reports.reports, List.mem_append] at member
      rcases member with earlier | now
      · exact tracked.batches report earlier
      · rw [reports.batches report now]
        exact tracked.fits
  · rcases reports.progress with empty | progress
    · apply Or.inl
      rw [tracked.curSize, empty]
      exact Nat.zero_sub _
    · have positive := List.length_pos_iff.mpr progress
      apply Or.inr
      simp only
      omega

theorem push_tracked {maxSize : Nat} {keys : List (Path × OpDelete)}
    {d : Deleter (BatchDeleter (Reported S))}
    (tracked : Tracked maxSize keys d) {input : DeleteInput}
    (new : input.key ∉ keys) (room : d.curSize < maxSize) :
    Tracked maxSize (input.key :: keys) (d.push input).2 := by
  have fresh : input.key ∉ d.deleter.buffer := fun buffered =>
    new (tracked.pairs.subset (List.mem_append_right _ buffered))
  obtain ⟨stored, counted⟩ := push_balanced fresh
  rw [tracked.curSize] at counted room
  constructor
  · exact tracked.limit
  · rw [stored, counted, List.length_cons]
  · rw [stored, List.length_cons]
    exact room
  · rw [stored]
    exact List.perm_middle.trans (tracked.pairs.cons input.key)
  · exact tracked.batches

/-- One call.  It returns `Ok`, so that a deletion has been queued. -/
theorem perform_tracked (retrying : Retrying S) {maxSize : Nat}
    (positive : 1 ≤ maxSize) {keys : List (Path × OpDelete)}
    {d : Deleter (BatchDeleter (Reported S))}
    (tracked : Tracked maxSize keys d) {call : Call}
    (new : ∀ key ∈ queued [call], key ∉ keys) :
    ∃ later, d.perform call = some later ∧
      Tracked maxSize (queued [call] ++ keys) later := by
  cases call with
  | flush =>
      obtain ⟨deleted, later, flushed, tracked, -⟩ :=
        flush_tracked retrying tracked
      exact ⟨later, by simp [perform, flushed], tracked⟩
  | delete input =>
      have fresh : input.key ∉ keys := new _ (by simp [queued])
      by_cases full : d.maxSize ≤ d.curSize
      · obtain ⟨deleted, later, flushed, kept, progress⟩ :=
          flush_tracked retrying tracked
        have room : later.curSize < maxSize := by
          have atMost := tracked.fits
          rw [← tracked.curSize] at atMost
          omega
        exact ⟨(later.push input).2,
          by simp [perform, delete, full, flushed],
          push_tracked kept fresh room⟩
      · have room : d.curSize < maxSize := by
          rw [tracked.limit] at full
          omega
        exact ⟨(d.push input).2, by simp [perform, delete, full],
          push_tracked tracked fresh room⟩

theorem run_tracked (retrying : Retrying S) {maxSize : Nat}
    (positive : 1 ≤ maxSize) {keys : List (Path × OpDelete)}
    {d : Deleter (BatchDeleter (Reported S))}
    (tracked : Tracked maxSize keys d) {calls : List Call}
    (distinct : (keys ++ queued calls).Nodup) :
    ∃ later, Automaton.run perform d calls = some later ∧
      Tracked maxSize (keys ++ queued calls) later := by
  induction calls generalizing d keys with
  | nil =>
      refine ⟨d, Automaton.run_nil _ _, ?_⟩
      simpa [queued] using tracked
  | cons call calls induction =>
      rw [queued_cons] at distinct ⊢
      have reordered : (keys ++ (queued [call] ++ queued calls)).Perm
          ((queued [call] ++ keys) ++ queued calls) := by
        rw [← List.append_assoc]
        exact List.perm_append_comm.append_right _
      have new : ∀ key ∈ queued [call], key ∉ keys := by
        intro key called queuedBefore
        have apart := (List.nodup_append.mp distinct).2.2
        exact apart key queuedBefore key (List.mem_append_left _ called) rfl
      obtain ⟨next, performed, kept⟩ :=
        perform_tracked retrying positive tracked new
      obtain ⟨later, ran, ended⟩ :=
        induction kept (reordered.nodup_iff.mp distinct)
      exact ⟨later,
        Automaton.run_cons_eq_some_iff.mpr ⟨next, performed, ran⟩,
        ended.perm reordered.symm⟩

/-! ## Closing -/

theorem close_tracked (retrying : Retrying S) {maxSize : Nat}
    {keys : List (Path × OpDelete)}
    {d closed : Deleter (BatchDeleter (Reported S))}
    (tracked : Tracked maxSize keys d) {fuel : Nat}
    (returned : d.close fuel = some (.ok (), closed)) :
    Tracked maxSize keys closed ∧ closed.deleter.buffer = [] := by
  induction fuel generalizing d with
  | zero => cases returned
  | succ fuel induction =>
      obtain ⟨deleted, later, flushed, kept, -⟩ :=
        flush_tracked retrying tracked
      simp only [close, flushed] at returned
      split at returned
      · rename_i nothing
        cases returned
        rw [kept.curSize] at nothing
        exact ⟨kept, List.eq_nil_of_length_eq_zero nothing⟩
      · exact induction kept returned

/-- Every flush makes progress, so closing ends. -/
theorem close_returns (retrying : Retrying S) {maxSize : Nat}
    {keys : List (Path × OpDelete)}
    {d : Deleter (BatchDeleter (Reported S))}
    (tracked : Tracked maxSize keys d) {fuel : Nat}
    (enough : d.curSize < fuel) :
    ∃ closed, d.close fuel = some (.ok (), closed) := by
  induction fuel generalizing d with
  | zero => cases enough
  | succ fuel induction =>
      obtain ⟨deleted, later, flushed, kept, progress⟩ :=
        flush_tracked retrying tracked
      simp only [close, flushed]
      split
      · exact ⟨later, rfl⟩
      · rename_i something
        apply induction kept
        omega

/-- What is promised of a deleter with these operations queued. -/
structure RetriesFailures (maxSize : Nat) (keys : List (Path × OpDelete))
    (d : Deleter (BatchDeleter (Reported S))) : Prop where
  /-- No batch was larger than the limit. -/
  batches : ∀ report ∈ d.deleter.inner.reports,
    report.batch.length ≤ maxSize
  /-- The next flush, by whichever call, leaves what it was told has
  failed. -/
  failures : ∃ deleted later made, d.deleter.flush = (.ok deleted, later) ∧
    later.inner.reports = d.deleter.inner.reports ++ made ∧
    later.buffer.Perm (failed made)
  /-- Closing comes to an end. -/
  closes : ∃ fuel closed, d.close fuel = some (.ok (), closed)
  /-- Then every operation has succeeded once, and still no batch was too
  large. -/
  complete : ∀ fuel closed, d.close fuel = some (.ok (), closed) →
    (∀ key ∈ keys,
      (succeeded closed.deleter.inner.reports).count key = 1) ∧
    ∀ report ∈ closed.deleter.inner.reports, report.batch.length ≤ maxSize

theorem Tracked.retriesFailures (retrying : Retrying S) {maxSize : Nat}
    {keys : List (Path × OpDelete)} (distinct : keys.Nodup)
    {d : Deleter (BatchDeleter (Reported S))}
    (tracked : Tracked maxSize keys d) : RetriesFailures maxSize keys d := by
  constructor
  · exact tracked.batches
  · obtain ⟨later, made, flushed, reports⟩ :=
      d.deleter.flush_reports retrying
    exact ⟨_, later, made, flushed, reports.reports, reports.failed⟩
  · exact ⟨_, close_returns retrying tracked (Nat.lt_succ_self _)⟩
  · intro fuel closed returned
    obtain ⟨kept, empty⟩ := close_tracked retrying tracked returned
    have pairs := kept.pairs
    rw [empty, List.append_nil] at pairs
    refine ⟨?_, kept.batches⟩
    intro key member
    rw [pairs.count_eq]
    exact List.count_eq_one_of_mem distinct member

/-- Whatever has been called on a new deleter, it retries the failures and
nothing else. -/
theorem retries_exactly_failures (retrying : Retrying S) (service : S)
    {maxSize : Nat} (positive : 1 ≤ maxSize) (calls : List Call)
    (distinct : (queued calls).Nodup) :
    ∃ reached, Automaton.run perform
        (create (BatchDeleter.new ⟨service, []⟩) (some maxSize)) calls =
          some reached ∧
      RetriesFailures maxSize (queued calls) reached := by
  have tracked : Tracked maxSize []
      (create (BatchDeleter.new (Reported.mk service [])) (some maxSize)) := by
    constructor
    · rfl
    · rfl
    · exact Nat.zero_le _
    · exact .refl _
    · intro report member
      cases member
  obtain ⟨reached, ran, ended⟩ :=
    run_tracked retrying positive tracked distinct
  exact ⟨reached, ran, ended.retriesFailures retrying distinct⟩

end Deleter

/-- A `LimitedStore` whose refusals may be retried. -/
structure ThrottledStore where
  store : LimitedStore
  temporary : store.refusal.isTemporary

namespace ThrottledStore

instance : BatchDelete ThrottledStore where
  deleteOnce s _ _ := (.ok (), s)
  deleteBatch s batch := ((deleteBatch s.store batch).1, s)

theorem retrying : Retrying ThrottledStore where
  once _ _ _ := rfl
  batch := by
    intro s batch distinct nonempty
    refine ⟨_, rfl, ?_, ?_⟩
    · exact LimitedStore.divides s.store batch _ distinct nonempty rfl
    · intro failure member
      obtain ⟨key, -, rfl⟩ := List.mem_map.mp member
      exact s.temporary

end ThrottledStore

/-- Three operations with a limit of two, and a service that performs one of
each batch. -/
theorem Deleter.retries_exactly_failures_throttled :
    ∃ reached, Automaton.run Deleter.perform
        (Deleter.create (BatchDeleter.new
          ⟨ThrottledStore.mk LimitedStore.throttled rfl, []⟩) (some 2))
        [.delete (.ofPath ['a']), .delete (.ofPath ['b']),
          .delete (.ofPath ['c'])] = some reached ∧
      Deleter.RetriesFailures 2 (Deleter.queued
        [.delete (.ofPath ['a']), .delete (.ofPath ['b']),
          .delete (.ofPath ['c'])]) reached :=
  Deleter.retries_exactly_failures ThrottledStore.retrying _ (by decide) _
    (by decide)

end OpenDal
