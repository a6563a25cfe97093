import OpenDal.Raw.BlockSession

/-!
# What an abort of a block writer names

Only `close` moves ids into `block_ids`: the ids of the blocks that `write`
has submitted stay in the task queue, and `abort` clears the queue before it
reads `block_ids`.  So an `abort` that follows writes names no block, whatever
has been written by then.
-/

namespace OpenDal.BlockSession

open BlockWriter WriterSession

variable {U : Type}

/-- Every block that has been written is named in an abort. -/
def Purged (log : List (ServiceCall U)) : Prop :=
  ∀ input, Written log input →
    ∃ blockIds answer, ServiceCall.abortBlock blockIds answer ∈ log ∧
      input.blockId ∈ blockIds

/-- No abort of the log names a block. -/
def NamesNone (log : List (ServiceCall U)) : Prop :=
  ∀ blockIds answer, ServiceCall.abortBlock blockIds answer ∈ log →
    blockIds = []

theorem NamesNone.append {log extra : List (ServiceCall U)}
    (names : NamesNone log) (more : NamesNone extra) :
    NamesNone (log ++ extra) := by
  intro blockIds answer member
  rcases List.mem_append.mp member with earlier | later
  · exact names blockIds answer earlier
  · exact more blockIds answer later

theorem NamesNone.of_subset {log larger : List (ServiceCall U)}
    (names : NamesNone larger) (subset : log ⊆ larger) : NamesNone log :=
  fun blockIds answer member => names blockIds answer (subset member)

theorem namesNone_writeBlock (input : BlockInput U) (reply : WriteReply) :
    NamesNone [ServiceCall.writeBlock input reply] := by
  intro blockIds answer member
  cases List.mem_singleton.mp member

theorem NamesNone.purged_iff {log : List (ServiceCall U)}
    (names : NamesNone log) :
    Purged log ↔ ∀ input, ¬ Written log input := by
  constructor
  · intro purged input written
    obtain ⟨blockIds, answer, aborted, named⟩ := purged input written
    rw [names blockIds answer aborted] at named
    cases named
  · intro unwritten input written
    exact absurd written (unwritten input)

/-! ## Writes collect nothing -/

/-- The call in flight is no `close`, and an `abort` names no block. -/
def Collects : CallFuture (WriteFuture U) (CloseFuture U) (AbortFuture U) →
    Prop
  | .write _ _ => False
  | .close _ => True
  | .abort .unresumed => False
  | .abort (.aborting blockIds _) => blockIds ≠ []

/-- Nothing has been collected yet. -/
structure Uncollected (session : Session U) : Prop where
  writer : ∀ state, session.writer.inner = some state →
    state.writer.blockIds = []
  call : ∀ call, session.call = some call → ¬ Collects call
  log : NamesNone (serviceLog session.history)

theorem blockIds_fillCache (writer : BlockWriter U) (bs : Buffer) :
    (writer.fillCache bs).1.blockIds = writer.blockIds := by
  unfold fillCache
  cases writer.cache with
  | none => rfl
  | some cache => rfl

theorem blockIds_pollWrite {writer later : BlockWriter U} {fresh : U}
    {future : WriteFuture U} {progress : WriteProgress U}
    (polled : writer.pollWrite fresh future = some (later, progress)) :
    later.blockIds = writer.blockIds := by
  cases future with
  | unresumed bs =>
      simp only [pollWrite] at polled
      split at polled
      · have filled := blockIds_fillCache writer bs
        rw [Option.some.inj polled] at filled
        exact filled
      · cases cached : writer.cache with
        | none =>
            simp only [cached] at polled
            cases polled
            rfl
        | some bytes =>
            simp only [cached] at polled
            cases polled
            rfl
  | executing bs future =>
      simp only [pollWrite, Option.bind_eq_bind, Option.bind_eq_some_iff]
        at polled
      obtain ⟨⟨tasks, executed⟩, _, same⟩ := polled
      cases executed with
      | suspended future =>
          cases same
          rfl
      | returned result =>
          cases result with
          | ok done =>
              have filled := blockIds_fillCache
                { writer with tasks, cache := none } bs
              rw [Option.some.inj same] at filled
              exact filled
          | error err =>
              cases same
              rfl
      | panicked message =>
          cases same
          rfl

section Steps

variable {uuid : Nat → U} {state later : Drawing U}
  {served : Option (ServiceCall U)} {event : Event}

theorem resumeWrite_uncollected [ToString U] {future : WriteFuture U}
    {progress : WriteProgress U}
    (resumed : resumeWrite uuid state future event =
      some (later, progress, served)) :
    later.writer.blockIds = state.writer.blockIds ∧
      NamesNone served.toList := by
  unfold resumeWrite at resumed
  split at resumed
  · obtain ⟨⟨writer, after⟩, polled, same⟩ :=
      Option.map_eq_some_iff.mp resumed
    cases same
    refine ⟨blockIds_pollWrite polled, ?_⟩
    intro blockIds answer member
    cases member
  · simp only [Option.bind_eq_bind, Option.bind_eq_some_iff] at resumed
    obtain ⟨next, _, same⟩ := resumed
    cases same
    exact ⟨rfl, namesNone_writeBlock _ _⟩
  · cases resumed

theorem resumeAbort_uncollected {future : AbortFuture U}
    {progress : AbortProgress U}
    (uncollected : state.writer.blockIds = [])
    (names : ¬ Collects (.abort future))
    (resumed : resumeAbort state future event =
      some (later, progress, served)) :
    later.writer.blockIds = [] ∧ NamesNone served.toList ∧
      ∀ next, progress = .suspended next → ¬ Collects (.abort next) := by
  unfold resumeAbort at resumed
  split at resumed
  · obtain ⟨⟨writer, after⟩, polled, same⟩ :=
      Option.map_eq_some_iff.mp resumed
    cases same
    cases future with
    | aborting blockIds found => cases polled
    | unresumed =>
        have silent : NamesNone ([] : List (ServiceCall U)) := by
          intro blockIds answer member
          cases member
        simp only [pollAbort] at polled
        split at polled
        · cases polled
          refine ⟨uncollected, silent, ?_⟩
          intro next same
          cases same
        · cases polled
          refine ⟨uncollected, silent, ?_⟩
          intro next same
          cases same
          simp [Collects, uncollected]
  · cases resumed
    refine ⟨uncollected, ?_, ?_⟩
    · intro blockIds answer member
      cases List.mem_singleton.mp member
      exact not_not.mp names
    · intro next same
      cases same
  · cases resumed

/-! ## All sessions of writes -/

variable {session next : Session U}

theorem Uncollected.afterWrite (uncollected : Uncollected session)
    {bs : Buffer} {progress : WriteProgress U}
    (ids : later.writer.blockIds = []) (names : NamesNone served.toList) :
    Uncollected (session.afterWrite bs (later, progress, served)) := by
  have logged : NamesNone (serviceLog (session.serve served)) := by
    rw [serviceLog_serve]
    exact uncollected.log.append names
  cases progress with
  | suspended future =>
      constructor
      · intro inner same
        cases same
        exact ids
      · intro call same
        cases same
        exact not_false
      · exact logged
  | returned result =>
      constructor
      · intro inner same
        cases same
        exact ids
      · intro call same
        cases same
      · simpa [WriterSession.afterWrite, HistoryEntry.served?] using logged
  | panicked message =>
      constructor
      · intro inner same
        cases same
        exact ids
      · intro call same
        cases same
      · exact logged

theorem Uncollected.afterAbort (uncollected : Uncollected session)
    {progress : AbortProgress U}
    (ids : later.writer.blockIds = []) (names : NamesNone served.toList)
    (suspends : ∀ future, progress = .suspended future →
      ¬ Collects (.abort future)) :
    Uncollected (session.afterAbort (later, progress, served)) := by
  have logged : NamesNone (serviceLog (session.serve served)) := by
    rw [serviceLog_serve]
    exact uncollected.log.append names
  cases progress with
  | suspended future =>
      constructor
      · intro inner same
        cases same
        exact ids
      · intro call same
        cases same
        exact suspends future rfl
      · exact logged
  | returned result =>
      cases result with
      | ok done =>
          constructor
          · intro inner same
            cases same
          · intro call same
            cases same
          · simpa [WriterSession.afterAbort, HistoryEntry.served?]
              using logged
      | error err =>
          constructor
          · intro inner same
            cases same
            exact ids
          · intro call same
            cases same
          · simpa [WriterSession.afterAbort, HistoryEntry.served?]
              using logged
  | panicked message =>
      constructor
      · intro inner same
        cases same
        exact ids
      · intro call same
        cases same
      · exact logged

/-- A call of the caller that is no `close`. -/
def NotClose : SessionEvent Event → Prop
  | .call .close => False
  | _ => True

theorem Uncollected.step [ToString U] {event : SessionEvent Event}
    (uncollected : Uncollected session) (notClose : NotClose event)
    (stepped : WriterSession.step (model uuid) session event = some next) :
    Uncollected next := by
  cases event with
  | call call =>
      simp only [WriterSession.step] at stepped
      split at stepped
      · cases stepped
      · cases present : session.writer.inner with
        | none =>
            simp only [present] at stepped
            cases stepped
            constructor
            · exact uncollected.writer
            · exact uncollected.call
            · cases call with
              | write bs =>
                  simpa [WriteCall.returned, HistoryEntry.served?]
                    using uncollected.log
              | close => exact notClose.elim
              | abort =>
                  simpa [WriteCall.returned, HistoryEntry.served?]
                    using uncollected.log
        | some state =>
            simp only [present] at stepped
            cases stepped
            constructor
            · exact uncollected.writer
            · intro started same
              cases same
              cases call with
              | write bs => exact not_false
              | close => exact notClose.elim
              | abort => exact not_false
            · exact uncollected.log
  | resume event =>
      simp only [WriterSession.step] at stepped
      split at stepped
      · rename_i state bs future present called
        obtain ⟨⟨later, progress, served⟩, resumed, same⟩ :=
          Option.map_eq_some_iff.mp stepped
        obtain ⟨ids, names⟩ := resumeWrite_uncollected resumed
        rw [← same]
        exact uncollected.afterWrite
          (ids.trans (uncollected.writer state present)) names
      · rename_i state future present called
        exact absurd trivial (uncollected.call _ called)
      · rename_i state future present called
        obtain ⟨⟨later, progress, served⟩, resumed, same⟩ :=
          Option.map_eq_some_iff.mp stepped
        obtain ⟨ids, names, suspends⟩ := resumeAbort_uncollected
          (uncollected.writer state present) (uncollected.call _ called)
          resumed
        rw [← same]
        exact uncollected.afterAbort ids names suspends
      · cases stepped
  | background event =>
      simp only [WriterSession.step] at stepped
      split at stepped
      · rename_i state _ present
        obtain ⟨⟨later, served⟩, moved, same⟩ :=
          Option.map_eq_some_iff.mp stepped
        obtain ⟨position, reply, input, tasks, _, _, rfl, rfl⟩ :=
          background_eq_some moved
        rw [← same]
        constructor
        · intro inner present'
          cases present'
          exact uncollected.writer state present
        · exact uncollected.call
        · rw [serviceLog_serve]
          exact uncollected.log.append (namesNone_writeBlock input reply)
      · cases stepped

theorem uncollected_new (capacity : Nat) :
    Uncollected (WriterSession.new (BlockSession.new capacity) :
      Session U) := by
  constructor
  · intro state same
    cases same
    rfl
  · intro call same
    cases same
  · intro blockIds answer member
    cases member

theorem uncollected_of_run [ToString U] {capacity : Nat}
    {events : List (SessionEvent Event)}
    (writes : ∀ event ∈ events, NotClose event)
    (ran : Automaton.run (WriterSession.step (model uuid))
      (WriterSession.new (BlockSession.new capacity)) events =
        some session) : Uncollected session := by
  apply Automaton.run_invariant _ (uncollected_new capacity) writes ran
  intro state event next uncollected notClose stepped
  exact uncollected.step notClose stepped

/-- Of a session without `close`: what an abort that has returned `Ok` has
named. -/
theorem purged_iff_of_run [ToString U] {capacity : Nat}
    {events : List (SessionEvent Event)}
    (writes : ∀ event ∈ events, NotClose event)
    (ran : Automaton.run (WriterSession.step (model uuid))
      (WriterSession.new (BlockSession.new capacity)) events = some session)
    {before after : List (HistoryEntry (ServiceCall U))}
    (aborted : session.history = before ++ .aborted (.ok ()) :: after) :
    Purged (serviceLog before) ↔
      ∀ input, ¬ Written (serviceLog before) input := by
  apply NamesNone.purged_iff
  apply (uncollected_of_run writes ran).log.of_subset
  rw [aborted, serviceLog_append]
  exact List.subset_append_left _ _

end Steps

end OpenDal.BlockSession
