import OpenDal.Types.Deleter

/-!
# The count of a `Deleter`

`curSize` is meant to be the number of operations in the buffer of the
`BatchDeleter` below.  A flush takes what succeeded out of the buffer, and
`curSize` is taken down by what the flush returns.

A flush that returns an error for an operation that failed for good has taken
the others out of the buffer all the same.  Nothing tells the `Deleter`, so
its count is too large from then on and closing it never ends.
-/

namespace OpenDal

namespace BatchDeleteResult

/-- The operations that failed, without their errors. -/
def refused (result : BatchDeleteResult) : List (Path × OpDelete) :=
  result.failed.map fun (path, op, _) => (path, op)

/-- The batch is divided into what succeeded, at least one operation, and what
failed. -/
structure Splits (result : BatchDeleteResult)
    (batch : List (Path × OpDelete)) : Prop where
  nonempty : result.succeeded ≠ []
  pairs : (result.succeeded ++ result.refused).Perm batch

/-- Every failure may be retried. -/
def Retryable (result : BatchDeleteResult) : Prop :=
  ∀ failure ∈ result.failed, failure.2.2.isTemporary

instance (result : BatchDeleteResult) : Decidable result.Retryable :=
  inferInstanceAs (Decidable (∀ failure ∈ result.failed, _))

theorem Splits.length_eq {result : BatchDeleteResult}
    {batch : List (Path × OpDelete)} (splits : result.Splits batch) :
    result.succeeded.length + result.refused.length = batch.length := by
  rw [← List.length_append]
  exact splits.pairs.length_eq

theorem diff_append_left (front back : List (Path × OpDelete)) :
    (front ++ back).diff front = back := by
  induction front with
  | nil => rfl
  | cons key front induction =>
      rw [List.cons_append, List.diff_cons, List.erase_cons_head]
      exact induction

theorem Splits.diff {result : BatchDeleteResult}
    {batch : List (Path × OpDelete)} (splits : result.Splits batch) :
    (batch.diff result.succeeded).Perm result.refused := by
  have same := splits.pairs.symm.diff_right result.succeeded
  rwa [diff_append_left] at same

end BatchDeleteResult

/-- A batch either fails as a whole or is divided. -/
def DividesBatches (S : Type) [BatchDelete S] : Prop :=
  ∀ (s : S) (batch : List (Path × OpDelete)) (result : BatchDeleteResult),
    batch.Nodup → batch ≠ [] →
    (deleteBatch s batch).1 = .ok result → result.Splits batch

namespace BatchDeleter

variable {S : Type} [BatchDelete S]

/-- Everything a flush can do. -/
inductive Flushes (d : BatchDeleter S) :
    Except Error Nat → BatchDeleter S → Prop where
  | nothing (empty : d.buffer = []) : Flushes d (.ok 0) d
  | single {key : Path × OpDelete} {inner : S} (held : d.buffer = [key])
      (answered : deleteOnce d.inner key.1 key.2 = (.ok (), inner)) :
      Flushes d (.ok 1) (new inner)
  | singleFailed {key : Path × OpDelete} {err : Error} {inner : S}
      (held : d.buffer = [key])
      (answered : deleteOnce d.inner key.1 key.2 = (.error err, inner)) :
      Flushes d (.error err) { d with inner }
  | batchFailed {err : Error} {inner : S} (several : 2 ≤ d.buffer.length)
      (answered : deleteBatch d.inner d.buffer = (.error err, inner)) :
      Flushes d (.error err) { d with inner }
  | divided {result : BatchDeleteResult} {inner : S}
      (several : 2 ≤ d.buffer.length)
      (answered : deleteBatch d.inner d.buffer = (.ok result, inner))
      (retryable : result.Retryable) :
      Flushes d (.ok result.succeeded.length)
        ({ d with inner }.removeFromBuffer result.succeeded)
  | rejected {result : BatchDeleteResult} {inner : S} {err : Error}
      (several : 2 ≤ d.buffer.length)
      (answered : deleteBatch d.inner d.buffer = (.ok result, inner))
      (permanent : ¬ result.Retryable) :
      Flushes d (.error err)
        ({ d with inner }.removeFromBuffer result.succeeded)

theorem flushes (d : BatchDeleter S) : Flushes d d.flush.1 d.flush.2 := by
  unfold flush
  split
  · rename_i empty
    exact .nothing empty
  · rename_i path args held
    split
    · rename_i inner answered
      exact .single held answered
    · rename_i err inner answered
      exact .singleFailed held answered
  · rename_i notEmpty notSingle
    have several : 2 ≤ d.buffer.length := by
      cases held : d.buffer with
      | nil => exact absurd held notEmpty
      | cons key rest =>
          cases rest with
          | nil => exact absurd held (notSingle key.1 key.2)
          | cons next rest => simp
    split
    · rename_i err inner answered
      exact .batchFailed several answered
    · rename_i result inner answered
      split
      · rename_i path op err found
        apply Flushes.rejected several answered
        intro retryable
        have temporary := retryable _ (List.mem_of_find?_eq_some found)
        have permanent := List.find?_some found
        simp_all
      · rename_i nothing
        apply Flushes.divided several answered
        intro failure member
        have temporary := List.find?_eq_none.mp nothing failure member
        simpa using temporary

/-- If the buffer is handed over as a batch, the service does not answer that
one operation has failed for good. -/
def Retries (d : BatchDeleter S) : Prop :=
  2 ≤ d.buffer.length → ∀ result,
    (deleteBatch d.inner d.buffer).1 = .ok result → result.Retryable

theorem not_retries {d : BatchDeleter S} {result : BatchDeleteResult}
    {inner : S} (several : 2 ≤ d.buffer.length)
    (answered : deleteBatch d.inner d.buffer = (.ok result, inner))
    (permanent : ¬ result.Retryable) : ¬ d.Retries := by
  intro retries
  apply permanent
  apply retries several
  rw [answered]

theorem splits_of_answered (divides : DividesBatches S) {d : BatchDeleter S}
    {result : BatchDeleteResult} {inner : S}
    (several : 2 ≤ d.buffer.length)
    (answered : deleteBatch d.inner d.buffer = (.ok result, inner)) :
    result.Splits d.buffer := by
  apply divides d.inner d.buffer result d.distinct
  · intro empty
    simp [empty] at several
  · rw [answered]

/-- What a flush has reported as deleted. -/
def reported : Except Error Nat → Nat
  | .ok deleted => deleted
  | .error _ => 0

/-- The buffer loses what the flush reports, unless an operation has failed
for good: then it loses more. -/
structure Accounted (d later : BatchDeleter S)
    (deleted : Except Error Nat) : Prop where
  subset : later.buffer ⊆ d.buffer
  exact : d.Retries →
    later.buffer.length + reported deleted = d.buffer.length
  lost : ¬ d.Retries →
    later.buffer.length + reported deleted < d.buffer.length

theorem Accounted.reported_le {d later : BatchDeleter S}
    {deleted : Except Error Nat} (accounted : Accounted d later deleted) :
    reported deleted ≤ d.buffer.length := by
  by_cases retries : d.Retries
  · have kept := accounted.exact retries
    omega
  · have lost := accounted.lost retries
    omega

theorem Flushes.accounted (divides : DividesBatches S)
    {d later : BatchDeleter S} {deleted : Except Error Nat}
    (flushed : Flushes d deleted later) : Accounted d later deleted := by
  cases flushed with
  | nothing empty =>
      constructor
      · exact List.Subset.refl _
      · simp [reported]
      · intro rejects
        exact absurd (fun several => by simp [empty] at several) rejects
  | single held answered =>
      constructor
      · exact List.nil_subset _
      · simp [reported, new, held]
      · intro rejects
        exact absurd (fun several => by simp [held] at several) rejects
  | singleFailed held answered =>
      constructor
      · exact List.Subset.refl _
      · simp [reported]
      · intro rejects
        exact absurd (fun several => by simp [held] at several) rejects
  | batchFailed several answered =>
      constructor
      · exact List.Subset.refl _
      · simp [reported]
      · intro rejects
        exact absurd (fun _ result accepted => by simp [answered] at accepted)
          rejects
  | @divided result inner several answered retryable =>
      have splits := splits_of_answered divides several answered
      have remaining := splits.diff.length_eq
      have whole := splits.length_eq
      constructor
      · exact List.diff_subset _ _
      · intro _
        simp only [reported, removeFromBuffer]
        omega
      · intro rejects
        apply absurd _ rejects
        intro _ other accepted
        rw [answered] at accepted
        cases accepted
        exact retryable
  | @rejected result inner err several answered permanent =>
      have splits := splits_of_answered divides several answered
      have remaining := splits.diff.length_eq
      have whole := splits.length_eq
      have positive := List.length_pos_iff.mpr splits.nonempty
      constructor
      · exact List.diff_subset _ _
      · intro retries
        exact absurd retries (not_retries several answered permanent)
      · intro _
        simp only [reported, removeFromBuffer]
        omega

end BatchDeleter

namespace Deleter

variable {S : Type} [BatchDelete S]

/-- The call makes the deleter below flush. -/
def Call.Flushing (d : Deleter (BatchDeleter S)) : Call → Prop
  | .flush => True
  | .delete _ => d.maxSize ≤ d.curSize

instance (d : Deleter (BatchDeleter S)) (call : Call) :
    Decidable (call.Flushing d) :=
  match call with
  | .flush => .isTrue trivial
  | .delete _ => inferInstanceAs (Decidable (_ ≤ _))

/-- A call that flushes is not answered that an operation has failed for
good. -/
def Retries (d : Deleter (BatchDeleter S)) (call : Call) : Prop :=
  call.Flushing d → d.deleter.Retries

/-- Both sizes change by the same amount, unless an operation has failed for
good: then the buffer has lost more than the count. -/
structure Balanced (d later : Deleter (BatchDeleter S)) (retries : Prop) :
    Prop where
  exact : retries → later.curSize + d.deleter.buffer.length =
    d.curSize + later.deleter.buffer.length
  lost : ¬ retries → d.curSize + later.deleter.buffer.length <
    later.curSize + d.deleter.buffer.length

theorem flush_balanced (divides : DividesBatches S)
    {d : Deleter (BatchDeleter S)}
    (counted : d.deleter.buffer.length ≤ d.curSize) :
    ∃ deleted later, d.flush = some (deleted, later) ∧
      later.deleter.buffer ⊆ d.deleter.buffer ∧
      Balanced d later d.deleter.Retries := by
  have accounted := d.deleter.flushes.accounted divides
  cases flushed : d.deleter.flush with
  | mk deleted inner =>
      rw [flushed] at accounted
      cases deleted with
      | error err =>
          refine ⟨.error err, { d with deleter := inner }, ?_,
            accounted.subset, ?_, ?_⟩
          · simp [flush, Delete.flush, flushed]
          · intro retries
            have kept := accounted.exact retries
            simp only [BatchDeleter.reported] at kept
            simp only
            omega
          · intro rejects
            have lost := accounted.lost rejects
            simp only [BatchDeleter.reported] at lost
            simp only
            omega
      | ok deleted =>
          have enough : deleted ≤ d.curSize :=
            Nat.le_trans accounted.reported_le counted
          refine ⟨.ok deleted,
            { d with deleter := inner, curSize := d.curSize - deleted }, ?_,
            accounted.subset, ?_, ?_⟩
          · simp [flush, Delete.flush, flushed, enough]
          · intro retries
            have kept := accounted.exact retries
            simp only [BatchDeleter.reported] at kept
            simp only
            omega
          · intro rejects
            have lost := accounted.lost rejects
            simp only [BatchDeleter.reported] at lost
            simp only
            omega

theorem push_balanced {d : Deleter (BatchDeleter S)} {input : DeleteInput}
    (new : input.key ∉ d.deleter.buffer) :
    (d.push input).2.deleter.buffer = input.key :: d.deleter.buffer ∧
      (d.push input).2.curSize = d.curSize + 1 := by
  constructor
  · exact List.insert_of_not_mem new
  · rfl

theorem perform_balanced (divides : DividesBatches S)
    {d : Deleter (BatchDeleter S)}
    (counted : d.deleter.buffer.length ≤ d.curSize) {call : Call}
    (new : ∀ key ∈ queued [call], key ∉ d.deleter.buffer) :
    ∃ later, d.perform call = some later ∧
      later.deleter.buffer ⊆ queued [call] ++ d.deleter.buffer ∧
      Balanced d later (d.Retries call) := by
  cases call with
  | flush =>
      obtain ⟨deleted, later, flushed, subset, balanced⟩ :=
        flush_balanced divides counted
      have always : d.Retries .flush ↔ d.deleter.Retries :=
        ⟨fun retries => retries trivial, fun retries _ => retries⟩
      refine ⟨later, by simp [perform, flushed], subset, ?_⟩
      rw [always]
      exact balanced
  | delete input =>
      have fresh : input.key ∉ d.deleter.buffer := new _ (by simp [queued])
      by_cases full : d.maxSize ≤ d.curSize
      · obtain ⟨deleted, between, flushed, subset, balanced⟩ :=
          flush_balanced divides counted
        have needed : d.Retries (.delete input) ↔ d.deleter.Retries :=
          ⟨fun retries => retries full, fun retries _ => retries⟩
        rw [needed]
        cases deleted with
        | error err =>
            refine ⟨between, by simp [perform, delete, full, flushed], ?_,
              balanced⟩
            exact fun key member =>
              List.mem_append_right _ (subset member)
        | ok deleted =>
            have later : input.key ∉ between.deleter.buffer :=
              fun member => fresh (subset member)
            obtain ⟨stored, counted⟩ := push_balanced later
            refine ⟨(between.push input).2,
              by simp [perform, delete, full, flushed], ?_, ?_, ?_⟩
            · rw [stored]
              exact List.cons_subset_cons _ subset
            · intro retries
              have kept := balanced.exact retries
              rw [stored, counted, List.length_cons]
              omega
            · intro rejects
              have lost := balanced.lost rejects
              rw [stored, counted, List.length_cons]
              omega
      · obtain ⟨stored, counted⟩ := push_balanced fresh
        refine ⟨(d.push input).2, by simp [perform, delete, full], ?_, ?_, ?_⟩
        · rw [stored]
          exact List.Subset.refl _
        · intro _
          rw [stored, counted, List.length_cons]
          omega
        · intro rejects
          exact absurd (fun flushing => absurd flushing full) rejects

/-! ## Runs -/

/-- After each of the calls the count is the size of the buffer. -/
def Truthful (d : Deleter (BatchDeleter S)) (calls : List Call) : Prop :=
  ∀ made, made <+: calls →
    ∃ later, Automaton.run perform d made = some later ∧
      later.curSize = later.deleter.buffer.length

theorem truthful_cons_iff {d next : Deleter (BatchDeleter S)} {call : Call}
    {calls : List Call} (level : d.curSize = d.deleter.buffer.length)
    (performed : d.perform call = some next) :
    Truthful d (call :: calls) ↔ Truthful next calls := by
  constructor
  · intro truthful made front
    obtain ⟨later, ran, counted⟩ :=
      truthful (call :: made) (List.cons_prefix_cons.mpr ⟨rfl, front⟩)
    obtain ⟨next', performed', rest⟩ := Automaton.run_cons_eq_some_iff.mp ran
    rw [performed] at performed'
    cases performed'
    exact ⟨later, rest, counted⟩
  · intro truthful made front
    cases made with
    | nil => exact ⟨d, Automaton.run_nil _ _, level⟩
    | cons first made =>
        obtain ⟨rfl, rest⟩ := List.cons_prefix_cons.mp front
        obtain ⟨later, ran, counted⟩ := truthful made rest
        exact ⟨later,
          Automaton.run_cons_eq_some_iff.mpr ⟨next, performed, ran⟩, counted⟩

theorem Truthful.now {d : Deleter (BatchDeleter S)} {calls : List Call}
    (truthful : Truthful d calls) :
    d.curSize = d.deleter.buffer.length := by
  obtain ⟨later, ran, counted⟩ := truthful [] (List.nil_prefix)
  rw [Automaton.run_nil] at ran
  cases ran
  exact counted

theorem queued_cons (call : Call) (calls : List Call) :
    queued (call :: calls) = queued [call] ++ queued calls := by
  cases call <;> rfl

/-- The induction over the calls.  Nothing that is still to be queued is in
the buffer. -/
theorem truthful_iff_of_level (divides : DividesBatches S)
    {d : Deleter (BatchDeleter S)}
    (level : d.curSize = d.deleter.buffer.length) {calls : List Call}
    (distinct : (d.deleter.buffer ++ queued calls).Nodup) :
    Truthful d calls ↔ Automaton.Along perform Retries d calls := by
  induction calls generalizing d with
  | nil =>
      refine ⟨fun _ => trivial, ?_⟩
      intro _ made front
      obtain rfl := List.prefix_nil.mp front
      exact ⟨d, Automaton.run_nil _ _, level⟩
  | cons call calls induction =>
      rw [queued_cons, List.nodup_append] at distinct
      obtain ⟨held, toQueue, apart⟩ := distinct
      rw [List.nodup_append] at toQueue
      have new : ∀ key ∈ queued [call], key ∉ d.deleter.buffer := by
        intro key member buffered
        exact apart key buffered key (List.mem_append_left _ member) rfl
      obtain ⟨next, performed, subset, balanced⟩ :=
        perform_balanced divides (Nat.le_of_eq level.symm) new
      have distinctLater :
          (next.deleter.buffer ++ queued calls).Nodup := by
        rw [List.nodup_append]
        refine ⟨next.deleter.distinct, toQueue.2.1, ?_⟩
        intro key buffered other member same
        subst same
        rcases List.mem_append.mp (subset buffered) with called | earlier
        · exact toQueue.2.2 key called key member rfl
        · exact apart key earlier key (List.mem_append_right _ member) rfl
      rw [truthful_cons_iff level performed, Automaton.along_cons_iff]
      constructor
      · intro truthful
        have counted := truthful.now
        have retries : d.Retries call := by
          by_contra rejects
          have lost := balanced.lost rejects
          omega
        refine ⟨retries, ?_⟩
        intro next' performed'
        rw [performed] at performed'
        cases performed'
        exact (induction counted distinctLater).mp truthful
      · intro along
        obtain ⟨retries, later⟩ := along
        have kept := balanced.exact retries
        have counted : next.curSize = next.deleter.buffer.length := by omega
        exact (induction counted distinctLater).mpr (later next performed)

/-- The count of a new deleter stays the size of the buffer exactly as long as
no batch is answered that an operation has failed for good. -/
theorem truthful_iff (divides : DividesBatches S) (service : S)
    (deleteMaxSize : Option Nat) (calls : List Call)
    (distinct : (queued calls).Nodup) :
    Truthful (create (BatchDeleter.new service) deleteMaxSize) calls ↔
      Automaton.Along perform Retries
        (create (BatchDeleter.new service) deleteMaxSize) calls := by
  apply truthful_iff_of_level divides
  · rfl
  · exact distinct

/-- A count that is too large does not come down to zero any more. -/
theorem close_of_lost (divides : DividesBatches S)
    {d closed : Deleter (BatchDeleter S)}
    (lost : d.deleter.buffer.length < d.curSize) (fuel : Nat) :
    d.close fuel ≠ some (.ok (), closed) := by
  induction fuel generalizing d with
  | zero => simp [close]
  | succ fuel induction =>
      obtain ⟨deleted, later, flushed, -, balanced⟩ :=
        flush_balanced divides (Nat.le_of_lt lost)
      have stillLost : later.deleter.buffer.length < later.curSize := by
        by_cases retries : d.deleter.Retries
        · have kept := balanced.exact retries
          omega
        · have more := balanced.lost retries
          omega
      cases deleted with
      | error err => simp [close, flushed]
      | ok deleted =>
          have positive : later.curSize ≠ 0 := by omega
          simp only [close, flushed, if_neg positive]
          exact induction stillLost

end Deleter

/-! ## A service that refuses a part of each batch -/

/-- The first operations of a batch are performed, the others are refused. -/
structure LimitedStore where
  atOnce : Nat
  positive : 0 < atOnce
  refusal : Error

namespace LimitedStore

instance : BatchDelete LimitedStore where
  deleteOnce s _ _ := (.ok (), s)
  deleteBatch s batch :=
    (.ok ⟨batch.take s.atOnce,
      (batch.drop s.atOnce).map fun (path, op) => (path, op, s.refusal)⟩, s)

theorem divides : DividesBatches LimitedStore := by
  intro s batch result _ nonempty answered
  cases answered
  constructor
  · have positive := s.positive
    intro empty
    rcases List.take_eq_nil_iff.mp empty with none | none
    · omega
    · exact nonempty none
  · have pairs : (batch.drop s.atOnce).map
        ((fun (path, op, _) => (path, op)) ∘
          fun (path, op) => (path, op, s.refusal)) = batch.drop s.atOnce :=
      List.map_id _
    simp only [BatchDeleteResult.refused, List.map_map, pairs,
      List.take_append_drop]
    exact .refl _

/-- `RateLimited`, to be retried. -/
def throttled : LimitedStore :=
  ⟨1, Nat.one_pos, (Error.new .rateLimited "slow down").setTemporary⟩

/-- `PermissionDenied`, not to be retried. -/
def denying : LimitedStore :=
  ⟨1, Nat.one_pos, Error.new .permissionDenied "not allowed"⟩

end LimitedStore

namespace Deleter

/-- The second operation is refused for now and retried. -/
theorem truthful_throttled :
    Truthful (create (BatchDeleter.new LimitedStore.throttled) (some 1000))
      [.delete (.ofPath ['a']), .delete (.ofPath ['b']), .flush, .flush] := by
  apply (truthful_iff LimitedStore.divides _ _ _ (by decide)).mpr
  refine ⟨?_, ?_, ?_, ?_, trivial⟩
  · intro full
    exact absurd full (by decide)
  · intro full
    exact absurd full (by decide)
  · intro _ _ result answered
    cases answered
    decide
  · intro _ several
    exact absurd several (by decide)

/-- The second operation is refused for good: it alone stays in the buffer,
and both are still counted. -/
theorem truthful_fails_denied :
    ¬ Truthful (create (BatchDeleter.new LimitedStore.denying) (some 1000))
      [.delete (.ofPath ['a']), .delete (.ofPath ['b']), .flush] := by
  intro truthful
  obtain ⟨later, ran, counted⟩ := truthful _ (List.prefix_refl _)
  cases ran
  revert counted
  decide

end Deleter

end OpenDal
