import OpenDal.Layers.ConcurrentLimit

/-!
# Runs behind a `ConcurrentLimitLayer`

What a call that waits can rely on, and the guarantees of the layer in every
run.
-/

namespace OpenDal

open Automaton

/-- Where one element stands when another is taken out of a list. -/
theorem idxOf_erase {l : List Nat} {i j : Nat} (distinct : l.Nodup)
    (member : i ∈ l) (other : i ≠ j) :
    (l.erase j).idxOf i + (if l.idxOf j < l.idxOf i then 1 else 0) =
      l.idxOf i := by
  induction l with
  | nil => simp at member
  | cons first l induction =>
      obtain ⟨fresh, distinct⟩ := List.nodup_cons.mp distinct
      by_cases same : first = j
      · subst same
        have behind : first ≠ i := Ne.symm other
        simp [List.idxOf_cons_ne _ behind]
      · by_cases found : first = i
        · subst found
          simp [List.erase_cons_tail, same]
        · have rest : i ∈ l := by simpa [Ne.symm found] using member
          have inside := induction distinct rest
          rw [List.erase_cons_tail (by simpa using same)]
          simp only [List.idxOf_cons_ne _ found, List.idxOf_cons_ne _ same,
            Nat.succ_lt_succ_iff, Nat.succ_eq_add_one]
          omega

namespace ConcurrentLimitAccessor

variable {semaphore : Semaphore} {Q : Type}
  {self later : ConcurrentLimitAccessor semaphore Q}
  {permits i j : Nat} {event : LimitEvent Q} {lawful : semaphore.Lawful}

/-! ## Waiting -/

/-- What may happen to call `i` while it waits: nobody goes before it, a permit
that is there for it stays there, and every permit that is given back brings it
nearer to its own. -/
structure Advances (permits i : Nat)
    (before after : ConcurrentLimitAccessor semaphore Q) : Prop where
  waited : i ∈ before.waiting
  ahead : after.ahead i ≤ before.ahead i
  nearer : permits ≤ after.busy + after.ahead i →
    permits ≤ before.busy + before.ahead i ∧
      after.returned + after.busy + after.ahead i ≤
        before.returned + before.busy + before.ahead i

theorem Advances.trans {first : ConcurrentLimitAccessor semaphore Q}
    (start : Advances permits i first self)
    (rest : Advances permits i self later) :
    Advances permits i first later where
  waited := start.waited
  ahead := Nat.le_trans rest.ahead start.ahead
  nearer := by
    intro full
    obtain ⟨between, fewer⟩ := rest.nearer full
    obtain ⟨initially, less⟩ := start.nearer between
    exact ⟨initially, Nat.le_trans fewer less⟩

theorem Effect.advances (effect : Effect permits self later)
    (old : i < self.calls.length) (waits : i ∈ later.waiting) :
    Advances permits i self later := by
  cases effect with
  | none busy waiting returned =>
      rw [waiting] at waits
      have ahead : later.ahead i = self.ahead i := by
        rw [ConcurrentLimitAccessor.ahead, ConcurrentLimitAccessor.ahead,
          waiting]
      exact ⟨waits, by omega, by omega⟩
  | joined full busy waiting returned =>
      rw [waiting] at waits
      have earlier : i ∈ self.waiting := by
        rcases List.mem_append.mp waits with earlier | last
        · exact earlier
        · exact absurd (List.mem_singleton.mp last) (Nat.ne_of_lt old)
      have ahead : later.ahead i = self.ahead i := by
        rw [ConcurrentLimitAccessor.ahead, ConcurrentLimitAccessor.ahead,
          waiting, List.idxOf_append_of_mem earlier]
      exact ⟨earlier, by omega, by omega⟩
  | granted left busy waiting returned =>
      rw [waiting] at waits
      have ahead : later.ahead i = self.ahead i := by
        rw [ConcurrentLimitAccessor.ahead, ConcurrentLimitAccessor.ahead,
          waiting]
      -- the new call finds a permit that `i` does not need
      have inside : self.ahead i < self.waiting.length :=
        List.idxOf_lt_length_of_mem waits
      exact ⟨waits, by omega, by omega⟩
  | served j member left busy waiting returned =>
      rw [waiting, (nodup_waiting self).mem_erase_iff] at waits
      have ahead : later.ahead i +
          (if self.ahead j < self.ahead i then 1 else 0) = self.ahead i := by
        rw [ConcurrentLimitAccessor.ahead, waiting]
        exact idxOf_erase (nodup_waiting self) waits.2 waits.1
      split at ahead
      · exact ⟨waits.2, by omega, by omega⟩
      · next behind =>
          have different : self.ahead i ≠ self.ahead j := by
            intro same
            exact waits.1 ((List.idxOf_inj waits.2).mp same)
          exact ⟨waits.2, by omega, by omega⟩
  | returned busy waiting returned =>
      rw [waiting] at waits
      have ahead : later.ahead i = self.ahead i := by
        rw [ConcurrentLimitAccessor.ahead, ConcurrentLimitAccessor.ahead,
          waiting]
      exact ⟨waits, by omega, by omega⟩
  | cancelled j member busy waiting returned =>
      rw [waiting, (nodup_waiting self).mem_erase_iff] at waits
      have ahead : later.ahead i +
          (if self.ahead j < self.ahead i then 1 else 0) = self.ahead i := by
        rw [ConcurrentLimitAccessor.ahead, waiting]
        exact idxOf_erase (nodup_waiting self) waits.2 waits.1
      exact ⟨waits.2, by omega, by omega⟩

theorem length_le_of_outcome
    (outcome : Outcome lawful permits self event later) :
    self.calls.length ≤ later.calls.length := by
  cases outcome with
  | free _ function request asked free => simp [start]
  | granted _ function request asked takes left state account =>
      simp [start]
  | joined function request takes full state account => simp [push]
  | panicked function request takes full => simp
  | served i function request found left state account => simp [send, enter]
  | refused i waits full state account => exact Nat.le_refl _
  | opened i function request found keeps => simp [enter]
  | finished _ i call asked found active =>
      rw [(dropPermit_eq _ call).1]
      simp [enter]
  | cancelled i function request found => simp [enter]

theorem advances_run {events : List (LimitEvent Q)}
    (sound : Sound lawful permits self) (waits : i ∈ self.waiting)
    (ran : run step self events = some later) (still : i ∈ later.waiting) :
    Advances permits i self later := by
  have old : i < self.calls.length :=
    List.mem_range.mp (List.mem_filter.mp waits).1
  have preserved : ∀ {before after : ConcurrentLimitAccessor semaphore Q}
      {event : LimitEvent Q},
      Sound lawful permits before ∧ i < before.calls.length ∧
        (i ∈ before.waiting → Advances permits i self before) →
      before.step event = some after →
      Sound lawful permits after ∧ i < after.calls.length ∧
        (i ∈ after.waiting → Advances permits i self after) := by
    intro before after event ⟨sound, old, advances⟩ stepped
    have happened := outcome sound stepped
    refine ⟨sound.step stepped,
      Nat.lt_of_lt_of_le old (length_le_of_outcome happened), ?_⟩
    intro still
    have further := (happened.effect sound).1.advances old still
    exact (advances further.waited).trans further
  have initially : Advances permits i self self :=
    ⟨waits, Nat.le_refl _, fun full => ⟨full, Nat.le_refl _⟩⟩
  exact (run_invariant_of_forall preserved ⟨sound, old, fun _ => initially⟩
    ran).2.2 still

/-! ## The guarantees -/

/-- The guarantees of the layer about a state. -/
structure Limits (lawful : semaphore.Lawful) (permits : Nat)
    (state : ConcurrentLimitAccessor semaphore Q) : Prop where
  bounded : state.busy ≤ permits
  /-- Every permit that is out belongs to one call or one handle. -/
  held : (lawful.view state.semaphore).held = state.busy
  /-- The service is asked once for every call that has got through. -/
  sent : state.sent.Perm state.served
  call : ∀ function request, ∃ later,
    state.step (.call function request) = some later ∧
      later.phase? state.calls.length = some
        (if function.takesPermit = true ∧
            permits ≤ state.busy + state.waiting.length then
          .waiting
        else
          .running)
  poll : ∀ i ∈ state.waiting, ∃ later, state.step (.poll i) = some later ∧
    later.phase? i = some
      (if permits ≤ state.busy + state.ahead i then .waiting else .running)
  blocking : ∀ function request later,
    state.step (.blockingCall function request) = some later →
    later.phase? state.calls.length = some
      (if function.takesPermit = true ∧
          permits ≤ state.busy + state.waiting.length then
        .panicked
      else
        .running)

theorem limits_of_sound (sound : Sound lawful permits self) :
    Limits lawful permits self where
  bounded := sound.bounded
  held := by rw [sound.account, ledger]
  sent := sound.sent
  call := by
    intro function request
    by_cases takes : function.takesPermit = true
    · rcases call_spec function request sound takes with
        ⟨left, state, called, _⟩ | ⟨full, state, called, _⟩
      · refine ⟨_, called, ?_⟩
        simp [phase?, start, Nat.not_le_of_lt left]
      · refine ⟨_, called, ?_⟩
        rw [if_pos ⟨takes, full⟩]
        exact (phase?_push self).trans (if_pos rfl)
    · refine ⟨self.start function request self.semaphore, ?_, ?_⟩
      · simp [step, takes, push_send_self]
      · simp [phase?, start, takes]
  poll := by
    intro i waits
    rcases poll_spec sound waits with
      ⟨left, state, polled, _⟩ | ⟨full, state, polled, _⟩
    · have moved : (self.enter i .running).phase? i = some .running := by
        rw [phase?_enter, if_pos rfl, mem_waiting_iff.mp waits]
        rfl
      exact ⟨_, polled, by rw [if_neg (Nat.not_le_of_lt left)]; exact moved⟩
    · exact ⟨_, polled, by rw [if_pos full]; exact mem_waiting_iff.mp waits⟩
  blocking := by
    intro function request later stepped
    have happened := outcome sound stepped
    cases happened with
    | free _ other _ asked free =>
        rcases asked with same | same
        · cases same
        · cases same
          simp [phase?, start, free]
    | granted _ other _ asked takes left state account =>
        rcases asked with same | same
        · cases same
        · cases same
          simp [phase?, start, Nat.not_le_of_lt left]
    | panicked _ _ takes full => simp [phase?, takes, full]
    | finished _ i call asked found active =>
        rcases asked with ⟨_, same⟩ | same <;> cases same

/-- The layer in every run, in front of every service and with every lawful
semaphore.  At most as many calls and handles are active as there are permits,
each with a permit of its own that is given back when it ends; the service is
asked once for every call that has got through.  A call waits, and a blocking
call panics, exactly when the calls and handles that are active and the calls
that wait before it are as many as the permits; `copy`, `rename` and `presign`
do neither.  Nobody overtakes a call that waits, a permit that is there for it
stays there, and every permit that is given back brings it nearer. -/
theorem limits {events continued : List (LimitEvent Q)}
    {state later : ConcurrentLimitAccessor semaphore Q}
    (lawful : semaphore.Lawful)
    (ran : run step (new semaphore permits) events = some state)
    (resumed : run step state continued = some later) :
    state.Limits lawful permits ∧
      ∀ i ∈ state.waiting, i ∈ later.waiting →
        Advances permits i state later := by
  have sound : Sound lawful permits state := sound_run ran
  refine ⟨limits_of_sound sound, ?_⟩
  intro i waits still
  exact advances_run sound waits resumed still

/-- With one permit the third call waits behind the second.  It is served when
the second has left and the handle of the first has been dropped; a blocking
call before that panics, and `rename` is not held up. -/
theorem limits_one_permit :
    ∃ state later : ConcurrentLimitAccessor Semaphore.fair Nat,
      run step (new Semaphore.fair 1) [.call .read 10, .answer 0 true,
          .call .write 11, .call .stat 12, .blockingCall .list 13,
          .call .rename 14] = some state ∧
        state.Limits Semaphore.lawfulFair 1 ∧ state.sent = [10, 14] ∧
        state.phase? 3 = some .panicked ∧
        run step state [.drop 1, .poll 2] = some later ∧
        Advances 1 2 state later ∧
        (later.step (.drop 0)).bind (fun next => (next.step (.poll 2)).bind
          fun last => last.phase? 2) = some .running := by
  obtain ⟨state, ran, sent, panicked, waits⟩ :
      ∃ state : ConcurrentLimitAccessor Semaphore.fair Nat,
        run step (new Semaphore.fair 1) [.call .read 10, .answer 0 true,
          .call .write 11, .call .stat 12, .blockingCall .list 13,
          .call .rename 14] = some state ∧ state.sent = [10, 14] ∧
        state.phase? 3 = some .panicked ∧ 2 ∈ state.waiting :=
    ⟨_, rfl, rfl, rfl, by decide⟩
  obtain ⟨later, resumed, still, served⟩ :
      ∃ later : ConcurrentLimitAccessor Semaphore.fair Nat,
        run step state [.drop 1, .poll 2] = some later ∧
        2 ∈ later.waiting ∧
        (later.step (.drop 0)).bind (fun next => (next.step (.poll 2)).bind
          fun last => last.phase? 2) = some .running := by
    cases ran
    exact ⟨_, rfl, by decide, rfl⟩
  have guaranteed := limits Semaphore.lawfulFair ran resumed
  exact ⟨state, later, ran, guaranteed.1, sent, panicked, resumed,
    guaranteed.2 2 waits still, served⟩

end ConcurrentLimitAccessor

end OpenDal
