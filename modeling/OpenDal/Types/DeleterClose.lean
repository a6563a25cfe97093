import OpenDal.Types.Deleter

/-!
# Closing a `Deleter` over a `BatchDeleter`

The service deletes everything it is given.  Closing the deleter then returns
and everything that was queued has been handed to the service exactly when no
operation is queued again while the same operation is still in the buffer.

The proof follows `curSize` and the size of the buffer.  They are equal as
long as every operation is new to the buffer.  A repeated one opens a gap
between them; flushing takes the same number from both, so the gap never
closes and `curSize` never reaches zero.
-/

namespace OpenDal

/-- The service deletes every pair it is given without error. -/
structure Reliable (S : Type) [BatchDelete S] : Prop where
  once : ∀ (s : S) path args, (deleteOnce s path args).1 = .ok ()
  batch : ∀ (s : S) batch, ∃ result, (deleteBatch s batch).1 = .ok result ∧
    result.succeeded.Perm batch ∧ result.failed = []

theorem MemoryStore.reliable : Reliable MemoryStore where
  once _ _ _ := rfl
  batch _ batch := ⟨⟨batch, []⟩, rfl, .refl _, rfl⟩

/-- A service together with the pairs it has been handed. -/
structure Recorded (S : Type) where
  service : S
  handed : List (Path × OpDelete)

instance (S : Type) [BatchDelete S] : BatchDelete (Recorded S) where
  deleteOnce s path args :=
    (deleteOnce s.service path args).map id
      fun service => ⟨service, s.handed ++ [(path, args)]⟩
  deleteBatch s batch :=
    (deleteBatch s.service batch).map id
      fun service => ⟨service, s.handed ++ batch⟩

theorem BatchDeleter.flush_recorded {S : Type} [BatchDelete S]
    (reliable : Reliable S) (d : BatchDeleter (Recorded S)) :
    ∃ later, d.flush = (.ok d.buffer.length, later) ∧ later.buffer = [] ∧
      later.inner.handed = d.inner.handed ++ d.buffer := by
  unfold BatchDeleter.flush
  split
  · rename_i empty
    exact ⟨d, by simp [empty], empty, by simp [empty]⟩
  · rename_i path args single
    have answered : deleteOnce d.inner path args =
        (.ok (), ⟨(deleteOnce d.inner.service path args).2,
          d.inner.handed ++ [(path, args)]⟩) :=
      Prod.ext (reliable.once d.inner.service path args) rfl
    simp only [answered]
    rw [single]
    exact ⟨_, rfl, rfl, rfl⟩
  · obtain ⟨result, accepted, all, none⟩ :=
      reliable.batch d.inner.service d.buffer
    have answered : deleteBatch d.inner d.buffer =
        (.ok result, ⟨(deleteBatch d.inner.service d.buffer).2,
          d.inner.handed ++ d.buffer⟩) :=
      Prod.ext accepted rfl
    rw [answered]
    simp only [none, List.find?_nil, all.length_eq]
    refine ⟨_, rfl, ?_, rfl⟩
    simp [BatchDeleter.removeFromBuffer, d.distinct.sdiff_eq_filter,
      all.mem_iff]

namespace Deleter

variable {S : Type}

/-- Nothing is queued again while it is in the window.  The window is what
has been queued since the last flush, by the user or by a `delete` that found
`maxSize` operations. -/
def NoneRepeated (maxSize : Nat) (window : List (Path × OpDelete)) :
    List Call → Prop
  | [] => True
  | .flush :: calls => NoneRepeated maxSize [] calls
  | .delete input :: calls =>
      if maxSize ≤ window.length then
        NoneRepeated maxSize [input.key] calls
      else
        input.key ∉ window ∧
          NoneRepeated maxSize (input.key :: window) calls

/-! ## Steps -/

/-- `later` is `d` after a flush that handed over the buffer. -/
structure Flushed (d later : Deleter (BatchDeleter (Recorded S))) :
    Prop where
  maxSize : later.maxSize = d.maxSize
  buffer : later.deleter.buffer = []
  curSize : later.curSize + d.deleter.buffer.length = d.curSize
  handed : later.deleter.inner.handed =
    d.deleter.inner.handed ++ d.deleter.buffer

/-- `later` is `d` after an operation has been queued. -/
structure Pushed (input : DeleteInput)
    (d later : Deleter (BatchDeleter (Recorded S))) : Prop where
  maxSize : later.maxSize = d.maxSize
  buffer : later.deleter.buffer = d.deleter.buffer.insert input.key
  curSize : later.curSize = d.curSize + 1
  handed : later.deleter.inner.handed = d.deleter.inner.handed

/-- Every operation has been counted once, and those in `keys` are in the
buffer or have been handed to the service. -/
structure Level (keys : List (Path × OpDelete))
    (d : Deleter (BatchDeleter (Recorded S))) : Prop where
  curSize : d.curSize = d.deleter.buffer.length
  found : ∀ key ∈ keys,
    key ∈ d.deleter.inner.handed ∨ key ∈ d.deleter.buffer

theorem Level.mono {keys fewer : List (Path × OpDelete)}
    {d : Deleter (BatchDeleter (Recorded S))}
    (level : Level keys d) (subset : fewer ⊆ keys) : Level fewer d :=
  ⟨level.curSize, fun key member => level.found key (subset member)⟩

theorem Level.flushed {keys : List (Path × OpDelete)}
    {d later : Deleter (BatchDeleter (Recorded S))}
    (level : Level keys d) (effect : Flushed d later) :
    Level keys later := by
  constructor
  · have difference := effect.curSize
    rw [level.curSize] at difference
    rw [effect.buffer, List.length_nil]
    omega
  · intro key member
    rw [effect.handed, List.mem_append]
    exact .inl (level.found key member)

theorem Level.pushed {keys : List (Path × OpDelete)} {input : DeleteInput}
    {d later : Deleter (BatchDeleter (Recorded S))}
    (level : Level keys d) (effect : Pushed input d later)
    (new : input.key ∉ d.deleter.buffer) :
    Level (input.key :: keys) later := by
  constructor
  · rw [effect.curSize, effect.buffer, List.insert_of_not_mem new,
      List.length_cons, level.curSize]
  · intro key member
    rw [effect.handed, effect.buffer, List.mem_insert_iff]
    rcases List.mem_cons.mp member with rfl | earlier
    · exact .inr (.inl rfl)
    · rcases level.found key earlier with handed | buffered
      · exact .inl handed
      · exact .inr (.inr buffered)

variable [BatchDelete S]

theorem flush_recorded (reliable : Reliable S)
    {d : Deleter (BatchDeleter (Recorded S))}
    (counted : d.deleter.buffer.length ≤ d.curSize) :
    ∃ later, d.flush = some (.ok d.deleter.buffer.length, later) ∧
      Flushed d later := by
  obtain ⟨deleter, flushed, empty, handed⟩ :=
    d.deleter.flush_recorded reliable
  have answered : Delete.flush d.deleter =
      (.ok d.deleter.buffer.length, deleter) := flushed
  refine ⟨{ d with deleter, curSize := d.curSize - d.deleter.buffer.length },
    ?_, rfl, empty, ?_, handed⟩
  · simp only [flush, answered, if_pos counted]
  · exact Nat.sub_add_cancel counted

theorem push_recorded (d : Deleter (BatchDeleter (Recorded S)))
    (input : DeleteInput) :
    ∃ later, d.push input = (.ok (), later) ∧ Pushed input d later := by
  exact ⟨_, rfl, rfl, rfl, rfl, rfl⟩

theorem perform_flush (reliable : Reliable S)
    {d : Deleter (BatchDeleter (Recorded S))}
    (counted : d.deleter.buffer.length ≤ d.curSize) :
    ∃ later, d.perform .flush = some later ∧ Flushed d later := by
  obtain ⟨later, flushed, effect⟩ := flush_recorded reliable counted
  exact ⟨later, by simp [perform, flushed], effect⟩

theorem perform_delete_full (reliable : Reliable S)
    {d : Deleter (BatchDeleter (Recorded S))} (input : DeleteInput)
    (counted : d.deleter.buffer.length ≤ d.curSize)
    (full : d.maxSize ≤ d.curSize) :
    ∃ between later, d.perform (.delete input) = some later ∧
      Flushed d between ∧ Pushed input between later := by
  obtain ⟨between, flushed, emptied⟩ := flush_recorded reliable counted
  obtain ⟨later, pushed, grown⟩ := push_recorded between input
  refine ⟨between, later, ?_, emptied, grown⟩
  simp [perform, delete, if_pos full, flushed, pushed]

theorem perform_delete_free {d : Deleter (BatchDeleter (Recorded S))}
    (input : DeleteInput) (free : ¬ d.maxSize ≤ d.curSize) :
    ∃ later, d.perform (.delete input) = some later ∧
      Pushed input d later := by
  obtain ⟨later, pushed, grown⟩ := push_recorded d input
  exact ⟨later, by simp [perform, delete, if_neg free, pushed], grown⟩

/-! ## A gap never closes -/

theorem perform_gap (reliable : Reliable S)
    {d : Deleter (BatchDeleter (Recorded S))}
    (gap : d.deleter.buffer.length < d.curSize) (call : Call) :
    ∃ later, d.perform call = some later ∧
      later.deleter.buffer.length < later.curSize := by
  have counted := Nat.le_of_lt gap
  cases call with
  | flush =>
      obtain ⟨later, flushed, emptied⟩ := perform_flush reliable counted
      have difference := emptied.curSize
      refine ⟨later, flushed, ?_⟩
      rw [emptied.buffer, List.length_nil]
      omega
  | delete input =>
      by_cases full : d.maxSize ≤ d.curSize
      · obtain ⟨between, later, deleted, emptied, grown⟩ :=
          perform_delete_full reliable input counted full
        have difference := emptied.curSize
        refine ⟨later, deleted, ?_⟩
        rw [grown.buffer, grown.curSize, emptied.buffer, List.insert_nil,
          List.length_singleton]
        omega
      · obtain ⟨later, deleted, grown⟩ := perform_delete_free input full
        have atMost : (d.deleter.buffer.insert input.key).length ≤
            d.deleter.buffer.length + 1 := by
          rw [List.length_insert]
          split <;> omega
        refine ⟨later, deleted, ?_⟩
        rw [grown.buffer, grown.curSize]
        omega

theorem run_gap (reliable : Reliable S)
    {d : Deleter (BatchDeleter (Recorded S))}
    (gap : d.deleter.buffer.length < d.curSize) (calls : List Call) :
    ∃ later, Automaton.run perform d calls = some later ∧
      later.deleter.buffer.length < later.curSize := by
  let invariant := fun d : Deleter (BatchDeleter (Recorded S)) =>
    d.deleter.buffer.length < d.curSize
  have progress : ∀ {d} (call : Call), invariant d →
      ∃ next, d.perform call = some next ∧ invariant next :=
    fun call gap => perform_gap reliable gap call
  exact Automaton.run_total progress gap calls

theorem close_gap (reliable : Reliable S)
    {d : Deleter (BatchDeleter (Recorded S))}
    (gap : d.deleter.buffer.length < d.curSize) (fuel : Nat) :
    d.close fuel = none := by
  induction fuel generalizing d with
  | zero => rfl
  | succ fuel induction =>
      obtain ⟨later, flushed, emptied⟩ :=
        flush_recorded reliable (Nat.le_of_lt gap)
      have difference := emptied.curSize
      have positive : later.curSize ≠ 0 := by omega
      have stillOpen : later.deleter.buffer.length < later.curSize := by
        rw [emptied.buffer, List.length_nil]
        exact Nat.pos_of_ne_zero positive
      simp only [close, flushed, if_neg positive]
      exact induction stillOpen

/-! ## Runs -/

/-- One call either keeps the count equal to the size of the buffer, and the
buffer is the next window, or it repeats an operation and opens a gap. -/
theorem perform_level (reliable : Reliable S)
    {d : Deleter (BatchDeleter (Recorded S))}
    {keys : List (Path × OpDelete)} (level : Level keys d) (call : Call) :
    ∃ next, d.perform call = some next ∧
      ((Level (queued [call] ++ keys) next ∧
          ∀ calls, NoneRepeated d.maxSize d.deleter.buffer (call :: calls) ↔
            NoneRepeated next.maxSize next.deleter.buffer calls) ∨
        (next.deleter.buffer.length < next.curSize ∧
          ∀ calls,
            ¬ NoneRepeated d.maxSize d.deleter.buffer (call :: calls))) := by
  have counted := Nat.le_of_eq level.curSize.symm
  cases call with
  | flush =>
      obtain ⟨next, flushed, emptied⟩ := perform_flush reliable counted
      refine ⟨next, flushed, .inl ⟨level.flushed emptied, ?_⟩⟩
      intro calls
      rw [NoneRepeated, emptied.buffer, emptied.maxSize]
  | delete input =>
      by_cases full : d.maxSize ≤ d.curSize
      · obtain ⟨between, next, deleted, emptied, grown⟩ :=
          perform_delete_full reliable input counted full
        have new : input.key ∉ between.deleter.buffer := by
          simp [emptied.buffer]
        refine ⟨next, deleted,
          .inl ⟨(level.flushed emptied).pushed grown new, ?_⟩⟩
        intro calls
        rw [NoneRepeated, ← level.curSize, if_pos full, grown.maxSize,
          emptied.maxSize, grown.buffer, emptied.buffer, List.insert_nil]
      · obtain ⟨next, deleted, grown⟩ := perform_delete_free input full
        refine ⟨next, deleted, ?_⟩
        by_cases new : input.key ∉ d.deleter.buffer
        · refine .inl ⟨level.pushed grown new, ?_⟩
          intro calls
          rw [NoneRepeated, ← level.curSize, if_neg full, grown.maxSize,
            grown.buffer, List.insert_of_not_mem new]
          exact and_iff_right new
        · refine .inr ⟨?_, ?_⟩
          · rw [grown.buffer, grown.curSize, level.curSize,
              List.insert_of_mem (not_not.mp new)]
            exact Nat.lt_succ_self _
          · intro calls fresh
            rw [NoneRepeated, ← level.curSize, if_neg full] at fresh
            exact new fresh.1

theorem run_level (reliable : Reliable S)
    {d : Deleter (BatchDeleter (Recorded S))}
    {keys : List (Path × OpDelete)} (level : Level keys d)
    (calls : List Call) :
    ∃ later, Automaton.run perform d calls = some later ∧
      (NoneRepeated d.maxSize d.deleter.buffer calls →
        Level (keys ++ queued calls) later) ∧
      (¬ NoneRepeated d.maxSize d.deleter.buffer calls →
        later.deleter.buffer.length < later.curSize) := by
  induction calls generalizing d keys with
  | nil =>
      refine ⟨d, Automaton.run_nil _ _, ?_, ?_⟩
      · intro _
        simpa [queued] using level
      · intro repeated
        exact absurd trivial repeated
  | cons call calls induction =>
      obtain ⟨next, performed, ⟨kept, window⟩ | ⟨gap, repeated⟩⟩ :=
        perform_level reliable level call
      · obtain ⟨later, ran, levelLater, gapLater⟩ := induction kept
        rw [window]
        refine ⟨later,
          Automaton.run_cons_eq_some_iff.mpr ⟨next, performed, ran⟩, ?_,
          gapLater⟩
        intro fresh
        apply (levelLater fresh).mono
        cases call <;> simp [queued]
      · obtain ⟨later, ran, ended⟩ := run_gap reliable gap calls
        exact ⟨later,
          Automaton.run_cons_eq_some_iff.mpr ⟨next, performed, ran⟩,
          fun fresh => absurd fresh (repeated calls), fun _ => ended⟩

theorem close_level (reliable : Reliable S)
    {d : Deleter (BatchDeleter (Recorded S))}
    {keys : List (Path × OpDelete)} (level : Level keys d) :
    ∃ later, d.close 1 = some (.ok (), later) ∧
      ∀ key ∈ keys, key ∈ later.deleter.inner.handed := by
  obtain ⟨later, flushed, emptied⟩ :=
    flush_recorded reliable (Nat.le_of_eq level.curSize.symm)
  have ended := level.flushed emptied
  have nothing : later.curSize = 0 := by
    rw [ended.curSize, emptied.buffer, List.length_nil]
  refine ⟨later, by simp [close, flushed, nothing], ?_⟩
  intro key member
  rcases ended.found key member with handed | buffered
  · exact handed
  · rw [emptied.buffer] at buffered
    cases buffered

/-- The calls are performed, closing returns `Ok` after finitely many flushes
and every queued operation has been handed to the service. -/
def ClosesComplete (d : Deleter (BatchDeleter (Recorded S)))
    (calls : List Call) : Prop :=
  ∃ opened fuel closed, Automaton.run perform d calls = some opened ∧
    opened.close fuel = some (.ok (), closed) ∧
    ∀ key ∈ queued calls, key ∈ closed.deleter.inner.handed

/-- Closing a deleter that started empty is complete exactly when no
operation was queued again before a flush had taken the first one. -/
theorem closesComplete_iff (reliable : Reliable S) (service : S)
    (maxSize : Nat) (calls : List Call) :
    ClosesComplete
        (create (BatchDeleter.new ⟨service, []⟩) (some maxSize)) calls ↔
      NoneRepeated maxSize [] calls := by
  have level : Level []
      (create (BatchDeleter.new ⟨service, []⟩) (some maxSize)) := by
    constructor
    · rfl
    · intro key member
      cases member
  obtain ⟨opened, ran, whenFresh, whenRepeated⟩ :=
    run_level reliable level calls
  constructor
  · intro given
    obtain ⟨opened', fuel, closed, ran', returned, -⟩ := given
    obtain rfl : opened = opened' := Option.some.inj (ran ▸ ran')
    by_contra repeated
    have never := close_gap reliable (whenRepeated repeated) fuel
    rw [never] at returned
    cases returned
  · intro fresh
    obtain ⟨closed, returned, handed⟩ :=
      close_level reliable (whenFresh fresh)
    exact ⟨opened, 1, closed, ran, returned, handed⟩

/-- A repetition after a flush does no harm. -/
theorem closesComplete_flushBetween :
    ClosesComplete
      (create (BatchDeleter.new ⟨MemoryStore.mk [], []⟩) (some 1000))
      [.delete (.ofPath ['a']), .flush, .delete (.ofPath ['a'])] := by
  apply (closesComplete_iff MemoryStore.reliable _ _ _).mpr
  simp [NoneRepeated]

/-- The same path queued twice: the second flush of `close` and all that
follow have nothing to delete, and `curSize` stays one. -/
theorem closesComplete_fails_twice :
    ¬ ClosesComplete
      (create (BatchDeleter.new ⟨MemoryStore.mk [], []⟩) (some 1000))
      [.delete (.ofPath ['a']), .delete (.ofPath ['a'])] := by
  intro given
  obtain ⟨opened, fuel, closed, ran, returned, -⟩ := given
  have gap : opened.deleter.buffer.length < opened.curSize := by
    cases ran
    decide
  rw [close_gap MemoryStore.reliable gap fuel] at returned
  cases returned

end Deleter

end OpenDal
