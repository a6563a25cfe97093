import OpenDal.Raw.TaskClient

/-!
# A queue after a fatal error

A task that fails for good takes the queue down: `errored` is set, and from
then on every call fails.  This is recorded by every path that looks at a task
in the queue, and by them only.  The short path of a queue that is not
concurrent runs the task by itself and records nothing, so the next call finds
a healthy queue.
-/

namespace OpenDal

open Automaton

variable {I O Ω : Type}

namespace ConcurrentTasks

variable {queue later : ConcurrentTasks I O} {err : Error}

/-! ## What the calls do to the flag -/

theorem failFront_errored (input : I) (fatal : err.isTemporary = false) :
    (queue.failFront input err).errored = true := by
  simp [failFront, fatal]

theorem failFront_capacity (input : I) :
    (queue.failFront input err).capacity = queue.capacity := by
  unfold failFront
  split <;> rfl

/-- What a round of `execute` does to the queue: it stays in the queue, and a
fatal error is recorded. -/
structure Recorded (queue later : ConcurrentTasks I O)
    (progress : Progress (ExecuteFuture I O) (Except Error Unit)) : Prop where
  capacity : later.capacity = queue.capacity
  outside : ∀ task, progress ≠ .suspended (.awaitingTask task)
  waiting : ∀ future, progress = .suspended future →
    later.errored = queue.errored
  fatal : ∀ err, progress = .returned (.error err) →
    err.isTemporary = false → later.errored = true

theorem pushOrWait_recorded {input : I}
    {progress : Progress (ExecuteFuture I O) (Except Error Unit)}
    (pushed : queue.pushOrWait input = (later, progress)) :
    Recorded queue later progress := by
  unfold pushOrWait at pushed
  split at pushed
  · cases pushed
    exact ⟨rfl, by simp, by simp, by simp⟩
  · split at pushed
    · cases pushed
      exact ⟨rfl, by simp, by simp, by simp⟩
    · cases pushed
      exact ⟨rfl, by simp, fun _ _ => rfl, by simp⟩

theorem failFront_recorded (input : I) :
    Recorded queue (queue.failFront input err) (.returned (.error err)) where
  capacity := failFront_capacity input
  outside := by simp
  waiting := by simp
  fatal := by
    intro other same fatal
    cases same
    exact failFront_errored input fatal

theorem executeLoop_recorded {input : I}
    {progress : Progress (ExecuteFuture I O) (Except Error Unit)}
    (looped : queue.executeLoop input = (later, progress)) :
    Recorded queue later progress := by
  unfold executeLoop at looped
  split at looped
  · have recorded := pushOrWait_recorded looped
    exact ⟨recorded.capacity, recorded.outside, recorded.waiting,
      recorded.fatal⟩
  · cases looped
    exact failFront_recorded _
  · exact pushOrWait_recorded looped

theorem pollExecute_recorded {future : ExecuteFuture I O}
    {progress : Progress (ExecuteFuture I O) (Except Error Unit)}
    (concurrent : 1 < queue.capacity)
    (outside : ∀ task, future ≠ .awaitingTask task)
    (polled : queue.pollExecute future = some (later, progress)) :
    Recorded queue later progress := by
  cases future with
  | unresumed input =>
      simp only [pollExecute] at polled
      split at polled
      · rename_i errored
        cases polled
        exact ⟨rfl, by simp, by simp, fun _ _ _ => errored⟩
      · simp only [isConcurrent, concurrent, decide_true, Bool.not_true,
          Bool.false_eq_true, if_false, Option.some.injEq] at polled
        exact executeLoop_recorded polled
  | awaitingTask task => exact absurd rfl (outside task)
  | awaitingFront input =>
      simp only [pollExecute] at polled
      split at polled
      · rw [Option.some.injEq] at polled
        have recorded := executeLoop_recorded polled
        exact ⟨recorded.capacity, recorded.outside, recorded.waiting,
          recorded.fatal⟩
      · cases polled
        exact failFront_recorded _
      · cases polled

theorem pollNext_recorded {future : NextFuture}
    {progress : Progress NextFuture (Option (Except Error O))}
    (polled : queue.pollNext future = some (later, progress)) :
    later.capacity = queue.capacity ∧
      (∀ future, progress = .suspended future →
        later.errored = queue.errored) ∧
      ∀ err, progress = .returned (some (.error err)) →
        err.isTemporary = false → later.errored = true := by
  cases future with
  | unresumed =>
      simp only [pollNext] at polled
      split at polled
      · rename_i errored
        cases polled
        exact ⟨rfl, by simp, fun _ _ _ => errored⟩
      · split at polled
        · cases polled
          exact ⟨rfl, by simp, by simp⟩
        · split at polled
          · cases polled
            exact ⟨rfl, by simp, by simp⟩
          · cases polled
            exact ⟨rfl, fun _ _ => rfl, by simp⟩
  | awaitingFront =>
      simp only [pollNext] at polled
      split at polled
      · cases polled
        exact ⟨rfl, by simp, by simp⟩
      · cases polled
        refine ⟨failFront_capacity _, by simp, ?_⟩
        intro err failed fatal
        cases failed
        exact failFront_errored _ fatal
      · cases polled

end ConcurrentTasks

namespace TaskClient

/-! ## Results of the calls -/

/-- What a call has returned. -/
inductive CallResult (O : Type) where
  | executed (result : Except Error Unit)
  | nexted (result : Option (Except Error O))

namespace CallResult

/-- `execute` returned `Err`, or `next` returned `Some(Err(_))`. -/
def Failed : CallResult O → Prop
  | .executed (.error _) => True
  | .nexted (some (.error _)) => True
  | _ => False

/-- The error is one that retrying does not help against. -/
def Fatal : CallResult O → Prop
  | .executed (.error err) => err.isTemporary = false
  | .nexted (some (.error err)) => err.isTemporary = false
  | _ => False

end CallResult

/-- A client together with everything its calls have returned. -/
structure Session (I O : Type) where
  client : Client I O
  results : List (CallResult O)

namespace Session

def new (capacity : Nat) : Session I O :=
  { client := TaskClient.new capacity
    results := [] }

/-- The result with which resuming the call in flight ends it. -/
def result (client : Client I O) : Option (CallResult O) :=
  match client.call with
  | none => none
  | some (.execute _ future) =>
      match client.queue.pollExecute future with
      | some (_, .returned result) => some (.executed result)
      | _ => none
  | some (.next future) =>
      match client.queue.pollNext future with
      | some (_, .returned result) => some (.nexted result)
      | _ => none

def step (factory : I → Ω → Option (I × Except Error O))
    (session : Session I O) (event : Event I Ω) : Option (Session I O) := do
  let client ← TaskClient.step factory session.client event
  match event with
  | .poll =>
      some { client
             results := session.results ++ (result session.client).toList }
  | _ => some { session with client }

/-- Nothing succeeds after a fatal error. -/
def Dead (session : Session I O) : Prop :=
  session.results.Pairwise fun earlier later =>
    earlier.Fatal → later.Failed

/-! ## The invariant -/

/-- A call that has just been made. -/
def Fresh : Call I O → Prop
  | .execute _ (.unresumed _) => True
  | .next .unresumed => True
  | _ => False

structure Consistent (capacity : Nat) (session : Session I O) : Prop where
  reserved : session.client.queue.capacity = capacity
  /-- The short path is not taken. -/
  queued : ∀ input task,
    session.client.call ≠ some (.execute input (.awaitingTask task))
  /-- The queue goes down only when a call returns. -/
  fresh : session.client.queue.errored = true → ∀ call,
    session.client.call = some call → Fresh call
  recorded : ∀ result ∈ session.results, result.Fatal →
    session.client.queue.errored = true
  dead : session.Dead

theorem consistent_new (capacity : Nat) :
    Consistent capacity (new capacity : Session I O) where
  reserved := rfl
  queued := fun input task => by simp [new, TaskClient.new]
  fresh := fun errored => by cases errored
  recorded := fun result member => by cases member
  dead := List.Pairwise.nil

variable {capacity : Nat} {session later : Session I O}
  {factory : I → Ω → Option (I × Except Error O)}

theorem Consistent.pollExecute_errored
    (consistent : session.Consistent capacity)
    (errored : session.client.queue.errored = true)
    {input : I} {future : ExecuteFuture I O}
    (called : session.client.call = some (.execute input future)) :
    session.client.queue.pollExecute future =
      some (session.client.queue,
        .returned (.error ConcurrentTasks.unrecoverable)) := by
  have fresh := consistent.fresh errored _ called
  cases future with
  | unresumed started => simp [ConcurrentTasks.pollExecute, errored]
  | awaitingTask task => exact fresh.elim
  | awaitingFront waiting => exact fresh.elim

theorem Consistent.pollNext_errored
    (consistent : session.Consistent capacity)
    (errored : session.client.queue.errored = true) {future : NextFuture}
    (called : session.client.call = some (.next future)) :
    session.client.queue.pollNext future =
      some (session.client.queue,
        .returned (some (.error ConcurrentTasks.unrecoverable))) := by
  have fresh := consistent.fresh errored _ called
  cases future with
  | unresumed => simp [ConcurrentTasks.pollNext, errored]
  | awaitingFront => exact fresh.elim

theorem Consistent.result_failed (consistent : session.Consistent capacity)
    (errored : session.client.queue.errored = true) {outcome : CallResult O}
    (returned : result session.client = some outcome) : outcome.Failed := by
  unfold result at returned
  cases called : session.client.call with
  | none =>
      rw [called] at returned
      cases returned
  | some call =>
      rw [called] at returned
      cases call with
      | execute input future =>
          simp only [consistent.pollExecute_errored errored called,
            Option.some.injEq] at returned
          subst returned
          trivial
      | next future =>
          simp only [consistent.pollNext_errored errored called,
            Option.some.injEq] at returned
          subst returned
          trivial

/-- What resuming the call in flight does to the client. -/
structure Resumed (capacity : Nat) (client later : Client I O) : Prop where
  reserved : later.queue.capacity = capacity
  queued : ∀ input task,
    later.call ≠ some (.execute input (.awaitingTask task))
  fresh : later.queue.errored = true → ∀ call, later.call = some call →
    Fresh call
  stays : client.queue.errored = true → later.queue.errored = true
  fatal : ∀ outcome, result client = some outcome → outcome.Fatal →
    later.queue.errored = true

theorem Consistent.pollExecute (consistent : session.Consistent capacity)
    (concurrent : 1 < capacity) {input : I} {future : ExecuteFuture I O}
    (called : session.client.call = some (.execute input future))
    {client : Client I O}
    (polled : TaskClient.pollExecute session.client input future =
      some client) :
    Resumed capacity session.client client := by
  simp only [TaskClient.pollExecute, Option.bind_eq_bind,
    Option.bind_eq_some_iff] at polled
  obtain ⟨⟨queue, progress⟩, resumed, same⟩ := polled
  have outside : ∀ task, future ≠ .awaitingTask task := by
    intro task awaits
    exact consistent.queued input task (by rw [called, awaits])
  have recorded := ConcurrentTasks.pollExecute_recorded
    (by rw [consistent.reserved]; exact concurrent) outside resumed
  have reserved : queue.capacity = capacity :=
    recorded.capacity.trans consistent.reserved
  have down : session.client.queue.errored = true →
      queue = session.client.queue ∧
        progress = .returned (.error ConcurrentTasks.unrecoverable) := by
    intro errored
    rw [consistent.pollExecute_errored errored called, Option.some.injEq,
      Prod.mk.injEq] at resumed
    exact ⟨resumed.1.symm, resumed.2.symm⟩
  have stays : session.client.queue.errored = true →
      queue.errored = true := by
    intro errored
    rw [(down errored).1]
    exact errored
  cases progress with
  | suspended waiting =>
      cases same
      refine ⟨reserved, ?_, ?_, stays, ?_⟩
      · intro other task awaits
        cases awaits
        exact recorded.outside task rfl
      · intro errored
        rw [recorded.waiting waiting rfl] at errored
        cases (down errored).2
      · intro outcome returned
        simp [result, called, resumed] at returned
  | returned value =>
      have fatal : ∀ outcome, result session.client = some outcome →
          outcome.Fatal → queue.errored = true := by
        intro outcome returned fatal
        simp only [result, called, resumed, Option.some.injEq] at returned
        subst returned
        cases value with
        | ok done => exact fatal.elim
        | error err => exact recorded.fatal err rfl fatal
      cases value with
      | ok done =>
          cases same
          exact ⟨reserved, by simp, by simp, stays, fatal⟩
      | error err =>
          cases same
          exact ⟨reserved, by simp, by simp, stays, fatal⟩
  | panicked message =>
      cases same
      refine ⟨reserved, by simp, by simp, stays, ?_⟩
      intro outcome returned
      simp [result, called, resumed] at returned

theorem Consistent.pollNext (consistent : session.Consistent capacity)
    {future : NextFuture}
    (called : session.client.call = some (.next future))
    {client : Client I O}
    (polled : TaskClient.pollNext session.client future = some client) :
    Resumed capacity session.client client := by
  simp only [TaskClient.pollNext, Option.bind_eq_bind,
    Option.bind_eq_some_iff] at polled
  obtain ⟨⟨queue, progress⟩, resumed, same⟩ := polled
  obtain ⟨kept, waits, failed⟩ := ConcurrentTasks.pollNext_recorded resumed
  have reserved : queue.capacity = capacity := kept.trans consistent.reserved
  have down : session.client.queue.errored = true →
      queue = session.client.queue ∧
        progress =
          .returned (some (.error ConcurrentTasks.unrecoverable)) := by
    intro errored
    rw [consistent.pollNext_errored errored called, Option.some.injEq,
      Prod.mk.injEq] at resumed
    exact ⟨resumed.1.symm, resumed.2.symm⟩
  have stays : session.client.queue.errored = true →
      queue.errored = true := by
    intro errored
    rw [(down errored).1]
    exact errored
  cases progress with
  | suspended waiting =>
      cases same
      refine ⟨reserved, by simp, ?_, stays, ?_⟩
      · intro errored
        rw [waits waiting rfl] at errored
        cases (down errored).2
      · intro outcome returned
        simp [result, called, resumed] at returned
  | returned value =>
      have fatal : ∀ outcome, result session.client = some outcome →
          outcome.Fatal → queue.errored = true := by
        intro outcome returned fatal
        simp only [result, called, resumed, Option.some.injEq] at returned
        subst returned
        cases value with
        | none => cases fatal
        | some result =>
            cases result with
            | ok output => cases fatal
            | error err => exact failed err rfl fatal
      cases value with
      | none =>
          cases same
          exact ⟨reserved, by simp, by simp, stays, fatal⟩
      | some result =>
          cases result with
          | ok output =>
              cases same
              exact ⟨reserved, by simp, by simp, stays, fatal⟩
          | error err =>
              cases same
              exact ⟨reserved, by simp, by simp, stays, fatal⟩
  | panicked message =>
      cases same
      refine ⟨reserved, by simp, by simp, stays, ?_⟩
      intro outcome returned
      simp [result, called, resumed] at returned

theorem Consistent.resumed (consistent : session.Consistent capacity)
    {client : Client I O}
    (resumed : Resumed capacity session.client client) :
    Consistent capacity
      { client, results := session.results ++
          (result session.client).toList } where
  reserved := resumed.reserved
  queued := resumed.queued
  fresh := resumed.fresh
  recorded := by
    intro outcome member fatal
    rcases List.mem_append.mp member with earlier | now
    · exact resumed.stays (consistent.recorded outcome earlier fatal)
    · exact resumed.fatal outcome (Option.mem_toList.mp now) fatal
  dead := by
    refine List.pairwise_append.mpr ⟨consistent.dead, ?_, ?_⟩
    · cases result session.client with
      | none => exact List.Pairwise.nil
      | some outcome => exact List.pairwise_singleton _ outcome
    · intro earlier member outcome now fatal
      have errored := consistent.recorded earlier member fatal
      exact consistent.result_failed errored (Option.mem_toList.mp now)

theorem Consistent.step {event : Event I Ω} (concurrent : 1 < capacity)
    (consistent : session.Consistent capacity)
    (stepped : session.step factory event = some later) :
    later.Consistent capacity := by
  simp only [Session.step, Option.bind_eq_bind,
    Option.bind_eq_some_iff] at stepped
  obtain ⟨client, moved, same⟩ := stepped
  cases event with
  | execute input =>
      simp only [TaskClient.step] at moved
      split at moved
      · cases moved
        cases same
        refine ⟨consistent.reserved, by simp, ?_, consistent.recorded,
          consistent.dead⟩
        intro _ call called
        cases called
        trivial
      · cases moved
  | next =>
      simp only [TaskClient.step] at moved
      split at moved
      · cases moved
        cases same
        refine ⟨consistent.reserved, by simp, ?_, consistent.recorded,
          consistent.dead⟩
        intro _ call called
        cases called
        trivial
      · cases moved
  | poll =>
      cases same
      apply consistent.resumed
      simp only [TaskClient.step] at moved
      split at moved
      · cases moved
      · rename_i called
        exact consistent.pollExecute concurrent called moved
      · rename_i called
        exact consistent.pollNext called moved
  | drop =>
      simp only [TaskClient.step] at moved
      split at moved
      · cases moved
      · cases moved
        cases same
        exact ⟨consistent.reserved, by simp, by simp, consistent.recorded,
          consistent.dead⟩
  | finish position ω =>
      simp only [TaskClient.step, Option.bind_eq_bind,
        Option.bind_eq_some_iff, Option.some.injEq] at moved
      obtain ⟨queue, finished, changed⟩ := moved
      subst changed
      cases same
      obtain ⟨capacityKept, erroredKept⟩ := ConcurrentTasks.finish_keeps finished
      refine ⟨capacityKept.trans consistent.reserved, consistent.queued, ?_,
        ?_, consistent.dead⟩
      · intro errored
        exact consistent.fresh (erroredKept.symm.trans errored)
      · intro outcome member fatal
        exact erroredKept.trans (consistent.recorded outcome member fatal)
  | finishAwaited ω =>
      simp only [TaskClient.step] at moved
      split at moved
      · rename_i input future called
        cases future with
        | awaitingTask task => exact absurd called (consistent.queued input task)
        | unresumed started => cases moved
        | awaitingFront waiting => cases moved
      · cases moved

/-! ## The short path -/

/-- An `execute` that fails for good, one after it that succeeds, and the
result of the second. -/
def shortPathEvents (input : I) (err : Error) (output : O) :
    List (Event I (I × Except Error O)) :=
  [.execute input, .poll, .finishAwaited (input, .error err), .poll,
    .execute input, .poll, .finishAwaited (input, .ok output), .poll,
    .next, .poll]

/-- The environment decides how a task ends. -/
def anyEnd : I → I × Except Error O → Option (I × Except Error O) :=
  fun _ ended => some ended

/-- Without concurrency the fatal error is not recorded. -/
theorem shortPath_results (sequential : capacity ≤ 1) (input : I)
    (err : Error) (output : O) :
    ∃ session, run (Session.step anyEnd) (new capacity)
        (shortPathEvents input err output) = some session ∧
      session.results = [.executed (.error err), .executed (.ok ()),
        .nexted (some (.ok output))] := by
  refine ⟨{ client :=
              { (TaskClient.new capacity : Client I O) with
                accepted := [input]
                returned := [output] }
            results := [.executed (.error err), .executed (.ok ()),
              .nexted (some (.ok output))] }, ?_, rfl⟩
  simp [run, shortPathEvents, Session.step, TaskClient.step, new,
    TaskClient.new, TaskClient.pollExecute, TaskClient.pollNext, result,
    ConcurrentTasks.new, ConcurrentTasks.pollExecute,
    ConcurrentTasks.pollNext, ConcurrentTasks.isConcurrent,
    sequential, ExecuteFuture.finish, Task.finish, anyEnd]

theorem not_dead_of_results {err : Error} (fatal : err.isTemporary = false)
    {rest : List (CallResult O)} {session : Session I O}
    (results : session.results =
      .executed (.error err) :: .executed (.ok ()) :: rest) :
    ¬ session.Dead := by
  intro dead
  rw [Dead, results, List.pairwise_cons] at dead
  exact dead.1 (.executed (.ok ())) (by simp) fatal

/-- The queue is dead after a fatal error, in every run of every client,
exactly when it is concurrent. -/
theorem dead_iff_concurrent [Inhabited I] [Inhabited O] (capacity : Nat) :
    (∀ (Ω : Type) (factory : I → Ω → Option (I × Except Error O))
      (events : List (Event I Ω)) (session : Session I O),
      run (Session.step factory) (new capacity) events = some session →
        session.Dead) ↔
      1 < capacity := by
  constructor
  · intro always
    by_contra short
    obtain ⟨session, ran, results⟩ :=
      shortPath_results (Nat.le_of_not_lt short) (default : I)
        ConcurrentTasks.unrecoverable (default : O)
    exact not_dead_of_results rfl results
      (always _ anyEnd _ session ran)
  · intro concurrent Ω factory events session ran
    have consistent : session.Consistent capacity :=
      run_invariant_of_forall
        (fun consistent stepped =>
          Consistent.step concurrent consistent stepped)
        (consistent_new capacity) ran
    exact consistent.dead

/-- A part upload that fails for good, with concurrency one: the next upload
is accepted and its output is the only one that is ever returned. -/
theorem dead_fails_sequential :
    ¬ ∀ (events : List (Event Nat (Nat × Except Error String)))
      (session : Session Nat String),
      run (Session.step anyEnd) (new 1) events = some session →
        session.Dead := by
  intro always
  obtain ⟨session, ran, results⟩ :=
    shortPath_results (Nat.le_refl 1) 7
      (Error.new .permissionDenied "denied") "etag"
  exact not_dead_of_results rfl results (always _ session ran)

end Session

end TaskClient

end OpenDal
