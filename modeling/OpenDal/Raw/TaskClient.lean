import OpenDal.Raw.TaskOrder

/-!
# Any client of a task queue

A client calls `execute` and `next` in any order, resumes or drops the call in
flight at any suspension point, while the tasks come to their ends in any
order.  The history records the inputs whose `execute` returned `Ok` and the
outputs that `next` returned.
-/

namespace OpenDal.TaskClient

variable {I O Ω : Type}

/-- The call in flight. -/
inductive Call (I O : Type) where
  | execute (input : I) (future : ExecuteFuture I O)
  | next (future : NextFuture)

structure Client (I O : Type) where
  queue : ConcurrentTasks I O
  call : Option (Call I O)
  accepted : List I
  returned : List O
  panicked : Bool

inductive Event (I Ω : Type) where
  | execute (input : I)
  | next
  /-- Resume the call in flight. -/
  | poll
  /-- Drop the future of the call in flight. -/
  | drop
  /-- The task at a position of the queue comes to its end. -/
  | finish (position : Nat) (ω : Ω)
  /-- The task that `execute` awaits directly comes to its end. -/
  | finishAwaited (ω : Ω)

def new (capacity : Nat) : Client I O :=
  { queue := .new capacity
    call := none
    accepted := []
    returned := []
    panicked := false }

def pollExecute (client : Client I O) (input : I)
    (future : ExecuteFuture I O) : Option (Client I O) := do
  match ← client.queue.pollExecute future with
  | (queue, .suspended future) =>
      some { client with queue, call := some (.execute input future) }
  | (queue, .returned (.ok ())) =>
      some { client with
        queue
        call := none
        accepted := client.accepted ++ [input] }
  | (queue, .returned (.error _)) => some { client with queue, call := none }
  | (queue, .panicked _) =>
      some { client with queue, call := none, panicked := true }

def pollNext (client : Client I O) (future : NextFuture) :
    Option (Client I O) := do
  match ← client.queue.pollNext future with
  | (queue, .suspended future) =>
      some { client with queue, call := some (.next future) }
  | (queue, .returned (some (.ok output))) =>
      some { client with
        queue
        call := none
        returned := client.returned ++ [output] }
  | (queue, .returned (some (.error _))) =>
      some { client with queue, call := none }
  | (queue, .returned none) => some { client with queue, call := none }
  | (queue, .panicked _) =>
      some { client with queue, call := none, panicked := true }

def step (factory : I → Ω → Option (I × Except Error O))
    (client : Client I O) : Event I Ω → Option (Client I O)
  | .execute input =>
      match client.call with
      | none => some { client with call := some (.execute input (.unresumed input)) }
      | some _ => none
  | .next =>
      match client.call with
      | none => some { client with call := some (.next .unresumed) }
      | some _ => none
  | .poll =>
      match client.call with
      | none => none
      | some (.execute input future) => pollExecute client input future
      | some (.next future) => pollNext client future
  | .drop =>
      match client.call with
      | none => none
      | some _ => some { client with call := none }
  | .finish position ω => do
      let queue ← client.queue.finish factory position ω
      some { client with queue }
  | .finishAwaited ω =>
      match client.call with
      | some (.execute input future) => do
          let future ← future.finish factory ω
          some { client with call := some (.execute input future) }
      | _ => none

/-! ## Outputs of an input -/

/-- The input a task for `input` may be started with, after any number of
temporary failures. -/
inductive Retried (factory : I → Ω → Option (I × Except Error O)) (input : I) :
    I → Prop where
  | first : Retried factory input input
  | again {current handedBack : I} {ω : Ω} {err : Error} :
      Retried factory input current →
      factory current ω = some (handedBack, .error err) →
      Retried factory input handedBack

/-- The output of a task for `input` that has succeeded, after any number of
temporary failures. -/
def Outputs (factory : I → Ω → Option (I × Except Error O)) (input : I)
    (output : O) : Prop :=
  ∃ current handedBack ω, Retried factory input current ∧
    factory current ω = some (handedBack, .ok output)

/-- Tasks fail only temporarily. -/
def OnlyTemporary (factory : I → Ω → Option (I × Except Error O)) : Prop :=
  ∀ input ω handedBack err,
    factory input ω = some (handedBack, .error err) → err.isTemporary = true

/-- An order is the accepted input itself. -/
def contract (factory : I → Ω → Option (I × Except Error O)) :
    Contract I I O where
  serves := Retried factory
  delivers := Outputs factory
  fails := fun order handedBack err =>
    Retried factory order handedBack ∧ err.isTemporary = true

theorem contract_respects
    {factory : I → Ω → Option (I × Except Error O)}
    (temporary : OnlyTemporary factory)
    {order input handedBack : I} {ω : Ω} {result : Except Error O}
    (serves : Retried factory order input)
    (produced : factory input ω = some (handedBack, result)) :
    Task.Fulfils (contract factory) order (.ready handedBack result) := by
  cases result with
  | ok output => exact ⟨input, handedBack, ω, serves, produced⟩
  | error err =>
      exact ⟨.again serves produced, temporary input ω handedBack err produced⟩

/-! ## The invariant -/

/-- The call in flight is at a place where it can be. -/
def CallFits (factory : I → Ω → Option (I × Except Error O)) (capacity : Nat)
    (queue : ConcurrentTasks I O) : Call I O → Prop
  | .execute input future => future.Places (contract factory) capacity input
  | .next future => future.Waits queue

structure Consistent (factory : I → Ω → Option (I × Except Error O))
    (capacity : Nat) (client : Client I O) : Prop where
  sound : client.panicked = false
  call : ∀ call, client.call = some call →
    CallFits factory capacity client.queue call
  history : ∃ done open_, client.accepted = done ++ open_ ∧
    List.Forall₂ (Outputs factory) done client.returned ∧
    client.queue.Aligned (contract factory) capacity open_

theorem consistent_new (factory : I → Ω → Option (I × Except Error O))
    (capacity : Nat) : Consistent factory capacity (new capacity) where
  sound := rfl
  call := by simp [new]
  history := ⟨[], [], rfl, .nil, ConcurrentTasks.aligned_new _ capacity⟩

variable {factory : I → Ω → Option (I × Except Error O)} {capacity : Nat}
  {client later : Client I O}

theorem Consistent.pollExecute {input : I} {future : ExecuteFuture I O}
    (consistent : Consistent factory capacity client)
    (called : client.call = some (.execute input future))
    (polled : TaskClient.pollExecute client input future = some later) :
    Consistent factory capacity later := by
  obtain ⟨done, open_, accepted, returned, aligned⟩ := consistent.history
  simp only [TaskClient.pollExecute, Option.bind_eq_bind,
    Option.bind_eq_some_iff] at polled
  obtain ⟨⟨queue, progress⟩, resumed, same⟩ := polled
  have outcome := aligned.pollExecute (consistent.call _ called) resumed
  cases outcome with
  | accepted kept =>
      cases same
      exact
        { sound := consistent.sound
          call := by simp
          history := ⟨done, open_ ++ [input], by simp [accepted], returned,
            kept⟩ }
  | refused fails kept =>
      cases same
      exact
        { sound := consistent.sound
          call := by simp
          history := ⟨done, open_, accepted, returned, kept fails.1⟩ }
  | gaveUp fails fatal _ => exact absurd (fails.2.symm.trans fatal) (by simp)
  | suspended kept places =>
      cases same
      exact
        { sound := consistent.sound
          call := by
            intro call current
            cases current
            exact places
          history := ⟨done, open_, accepted, returned, kept⟩ }

theorem Consistent.pollNext {future : NextFuture}
    (consistent : Consistent factory capacity client)
    (called : client.call = some (.next future))
    (polled : TaskClient.pollNext client future = some later) :
    Consistent factory capacity later := by
  obtain ⟨done, open_, accepted, returned, aligned⟩ := consistent.history
  simp only [TaskClient.pollNext, Option.bind_eq_bind,
    Option.bind_eq_some_iff] at polled
  obtain ⟨⟨queue, progress⟩, resumed, same⟩ := polled
  have outcome := aligned.pollNext (consistent.call _ called) resumed
  cases outcome with
  | @delivered order rest output oldest delivers kept =>
      cases same
      exact
        { sound := consistent.sound
          call := by simp
          history := ⟨done ++ [order], rest, by simp [accepted, oldest],
            List.rel_append returned (.cons delivers .nil), kept⟩ }
  | failed fails kept =>
      cases same
      exact
        { sound := consistent.sound
          call := by simp
          history := ⟨done, open_, accepted, returned, kept fails.1⟩ }
  | gaveUp fails fatal _ => exact absurd (fails.2.symm.trans fatal) (by simp)
  | drained _ kept =>
      cases same
      exact
        { sound := consistent.sound
          call := by simp
          history := ⟨done, open_, accepted, returned, kept⟩ }
  | suspended kept waits =>
      cases same
      exact
        { sound := consistent.sound
          call := by
            intro call current
            cases current
            exact waits
          history := ⟨done, open_, accepted, returned, kept⟩ }

/-- Every event keeps the history and the queue together. -/
theorem Consistent.step (temporary : OnlyTemporary factory)
    {event : Event I Ω}
    (consistent : Consistent factory capacity client)
    (stepped : TaskClient.step factory client event = some later) :
    Consistent factory capacity later := by
  cases event with
  | execute input =>
      cases called : client.call with
      | some call => simp [TaskClient.step, called] at stepped
      | none =>
          simp only [TaskClient.step, called, Option.some.injEq] at stepped
          subst stepped
          refine { consistent with call := ?_ }
          intro call current
          cases current
          exact .first
  | next =>
      cases called : client.call with
      | some call => simp [TaskClient.step, called] at stepped
      | none =>
          simp only [TaskClient.step, called, Option.some.injEq] at stepped
          subst stepped
          refine { consistent with call := ?_ }
          intro call current
          cases current
          trivial
  | poll =>
      cases called : client.call with
      | none => simp [TaskClient.step, called] at stepped
      | some call =>
          cases call with
          | execute input future =>
              simp only [TaskClient.step, called] at stepped
              exact consistent.pollExecute called stepped
          | next future =>
              simp only [TaskClient.step, called] at stepped
              exact consistent.pollNext called stepped
  | drop =>
      cases called : client.call with
      | none => simp [TaskClient.step, called] at stepped
      | some call =>
          simp only [TaskClient.step, called, Option.some.injEq] at stepped
          subst stepped
          exact { consistent with call := by simp }
  | finish position ω =>
      simp only [TaskClient.step, Option.bind_eq_bind,
        Option.bind_eq_some_iff] at stepped
      obtain ⟨queue, finished, same⟩ := stepped
      cases same
      obtain ⟨done, open_, accepted, returned, aligned⟩ := consistent.history
      have kept := aligned.finish finished
        fun _ serves produced => contract_respects temporary serves produced
      refine
        { sound := consistent.sound
          call := ?_
          history := ⟨done, open_, accepted, returned, kept⟩ }
      intro call current
      have fits := consistent.call call current
      cases call with
      | execute input future => exact fits
      | next future => exact NextFuture.Waits.finish fits finished
  | finishAwaited ω =>
      cases called : client.call with
      | none => simp [TaskClient.step, called] at stepped
      | some call =>
          cases call with
          | next future => simp [TaskClient.step, called] at stepped
          | execute input future =>
              simp only [TaskClient.step, called, Option.bind_eq_bind,
                Option.bind_eq_some_iff] at stepped
              obtain ⟨ended, finished, same⟩ := stepped
              cases same
              refine { consistent with call := ?_ }
              intro call current
              cases current
              exact ExecuteFuture.Places.finish (consistent.call _ called)
                finished fun _ serves produced =>
                  contract_respects temporary serves produced

theorem consistent_of_run (temporary : OnlyTemporary factory)
    {events : List (Event I Ω)}
    (ran : Automaton.run (TaskClient.step factory) (new capacity) events =
      some client) :
    Consistent factory capacity client :=
  Automaton.run_invariant_of_forall
    (fun consistent stepped => consistent.step temporary stepped)
    (consistent_new factory capacity) ran

/-- The queue is ordered and loses nothing.  At any point of any run the
outputs returned so far, then the collected results, then the tasks in the
queue belong to the accepted inputs one by one and in the order of
acceptance; `next` returns `None` only when every accepted input's output has
been returned; and the tasks never exceed the capacity.

Inputs and outputs are arbitrary, so they may carry serial numbers that the
factory passes on: the correspondence is then one of occurrences. -/
theorem ordered_lossFree (factory : I → Ω → Option (I × Except Error O))
    (temporary : OnlyTemporary factory) (capacity : Nat)
    {events : List (Event I Ω)} {client : Client I O}
    (ran : Automaton.run (TaskClient.step factory) (new capacity) events =
      some client) :
    client.panicked = false ∧
    (∃ delivered waiting, client.accepted = delivered ++ waiting ∧
      List.Forall₂ (Outputs factory) delivered
        (client.returned ++ client.queue.results) ∧
      List.Forall₂ (Task.Fulfils (contract factory)) waiting
        client.queue.tasks) ∧
    (∀ future queue, client.call = some (.next future) →
      client.queue.pollNext future = some (queue, .returned none) →
      List.Forall₂ (Outputs factory) client.accepted client.returned) ∧
    client.queue.tasks.length ≤ capacity := by
  have consistent := consistent_of_run temporary ran
  obtain ⟨done, open_, accepted, returned, aligned⟩ := consistent.history
  refine ⟨consistent.sound, ?_, ?_, aligned.bounded⟩
  · obtain ⟨delivered, waiting, split, results, tasks⟩ := aligned.sequence
    exact ⟨done ++ delivered, waiting, by simp [accepted, split],
      List.rel_append returned results, tasks⟩
  · intro future queue called resumed
    have outcome := aligned.pollNext (consistent.call _ called) resumed
    cases outcome with
    | drained empty _ =>
        rw [accepted, empty, List.append_nil]
        exact returned

/-- A factory that multiplies by ten or fails for the time being. -/
def unsteady (input : Nat) (succeeds : Bool) :
    Option (Nat × Except Error Nat) :=
  if succeeds then
    some (input, .ok (10 * input))
  else
    some (input, .error (Error.new .unexpected "try again").setTemporary)

/-- The second task ends first, the first one fails once. -/
def unsteadySchedule : List (Event Nat Bool) :=
  [.execute 1, .poll, .execute 2, .poll, .finish 1 true, .finish 0 false,
    .next, .poll, .poll, .finish 0 true, .next, .poll, .poll]

theorem ordered_lossFree_unsteady :
    ∃ client : Client Nat Nat,
      Automaton.run (TaskClient.step unsteady) (new 2) unsteadySchedule =
        some client ∧
      client.returned = [10] ∧ client.queue.tasks.length ≤ 2 := by
  have temporary : OnlyTemporary unsteady := by
    intro input ω handedBack err produced
    cases ω with
    | true => simp [unsteady] at produced
    | false =>
        simp only [unsteady, Bool.false_eq_true, if_false, Option.some.injEq,
          Prod.mk.injEq, Except.error.injEq] at produced
        rw [← produced.2]
        rfl
  obtain ⟨client, ran, returned⟩ :
      ∃ client : Client Nat Nat,
        Automaton.run (TaskClient.step unsteady) (new 2) unsteadySchedule =
          some client ∧ client.returned = [10] := ⟨_, rfl, rfl⟩
  exact ⟨client, ran, returned,
    (ordered_lossFree unsteady temporary 2 ran).2.2.2⟩

end OpenDal.TaskClient
