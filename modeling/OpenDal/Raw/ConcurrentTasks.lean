import Mathlib.Data.List.Forall2
import OpenDal.Automaton
import OpenDal.Types.Error

/-!
# `ConcurrentTasks`

Tasks run in the background while their handle waits in a queue.  The factory
is a function of the input and of everything the environment decides, `ω`;
`none` means that the task has not come to its end yet.  It hands its input
back together with the result, so that a failed task can be started again.

`execute` and `next` are futures.  Their state between two polls is a data
type, and `pollExecute` and `pollNext` resume it up to the next place where
the outcome depends on a background task; `none` means that the future is
still pending.  All background tasks may make progress between two such
resumptions, and the future may be dropped there.
-/

namespace OpenDal

/-- The handle of a task: running, or finished with what the factory
returned. -/
inductive Task (I O : Type) where
  | running (input : I)
  | ready (input : I) (result : Except Error O)

/-- How far a future has come when it is resumed. -/
inductive Progress (F α : Type) where
  | suspended (future : F)
  | returned (value : α)
  | panicked (message : String)

structure ConcurrentTasks (I O : Type) where
  /-- Ongoing tasks, front first. -/
  tasks : List (Task I O)
  /-- `tasks.capacity()`.  A task is pushed only below the capacity, so it
  never changes. -/
  capacity : Nat
  results : List O
  errored : Bool

/-- Where `execute` is suspended. -/
inductive ExecuteFuture (I O : Type) where
  | unresumed (input : I)
  /-- The short path awaits the task itself, which is not in the queue. -/
  | awaitingTask (task : Task I O)
  | awaitingFront (input : I)

/-- Where `next` is suspended. -/
inductive NextFuture where
  | unresumed
  | awaitingFront
deriving DecidableEq

namespace Task

variable {I O Ω : Type}

/-- The background run of a task comes to its end. -/
def finish (factory : I → Ω → Option (I × Except Error O)) (ω : Ω) :
    Task I O → Option (Task I O)
  | .running input => (factory input ω).map fun (input, result) =>
      .ready input result
  | .ready _ _ => none

end Task

namespace ConcurrentTasks

variable {I O Ω : Type}

/-- `ConcurrentTasks::new`; `capacity` is what `VecDeque::with_capacity`
reserves for the requested concurrency. -/
def new (capacity : Nat) : ConcurrentTasks I O :=
  { tasks := []
    capacity
    results := []
    errored := false }

def isConcurrent (self : ConcurrentTasks I O) : Bool :=
  1 < self.capacity

def clear (self : ConcurrentTasks I O) : ConcurrentTasks I O :=
  { self with tasks := [], results := [] }

def hasRemaining (self : ConcurrentTasks I O) : Bool :=
  self.tasks.length < self.capacity

def hasResult (self : ConcurrentTasks I O) : Bool :=
  !self.results.isEmpty

def unrecoverable : Error :=
  .new .unexpected "concurrent tasks met an unrecoverable error"

/-- What all paths do when the front task has failed: start it again, or give
up on everything. -/
def failFront (self : ConcurrentTasks I O) (input : I) (err : Error) :
    ConcurrentTasks I O :=
  if err.isTemporary then
    { self with tasks := .running input :: self.tasks.tail }
  else
    { self.clear with errored := true }

/-- The second half of the loop of `execute`: push the new task if there is
space, otherwise wait for the front task. -/
def pushOrWait (self : ConcurrentTasks I O) (input : I) :
    ConcurrentTasks I O × Progress (ExecuteFuture I O) (Except Error Unit) :=
  if self.tasks.length < self.capacity then
    ({ self with tasks := self.tasks ++ [.running input] }, .returned (.ok ()))
  else
    match self.tasks with
    | [] => (self, .panicked "tasks must have at least one task")
    | _ :: _ => (self, .suspended (.awaitingFront input))

/-- The loop of `execute` from its head up to the wait for the front task. -/
def executeLoop (self : ConcurrentTasks I O) (input : I) :
    ConcurrentTasks I O × Progress (ExecuteFuture I O) (Except Error Unit) :=
  match self.tasks with
  | .ready _ (.ok output) :: rest =>
      { self with tasks := rest, results := self.results ++ [output] }.pushOrWait
        input
  | .ready failed (.error err) :: _ =>
      (self.failFront failed err, .returned (.error err))
  | _ => self.pushOrWait input

def pollExecute (self : ConcurrentTasks I O) :
    ExecuteFuture I O →
      Option (ConcurrentTasks I O ×
        Progress (ExecuteFuture I O) (Except Error Unit))
  | .unresumed input =>
      if self.errored then
        some (self, .returned (.error unrecoverable))
      else if !self.isConcurrent then
        some (self, .suspended (.awaitingTask (.running input)))
      else
        some (self.executeLoop input)
  | .awaitingTask (.running _) => none
  | .awaitingTask (.ready _ (.ok output)) =>
      some ({ self with results := self.results ++ [output] },
        .returned (.ok ()))
  | .awaitingTask (.ready _ (.error err)) =>
      some (self, .returned (.error err))
  | .awaitingFront input =>
      match self.tasks with
      | .ready _ (.ok output) :: rest =>
          some ({ self with
            tasks := rest
            results := self.results ++ [output] }.executeLoop input)
      | .ready failed (.error err) :: _ =>
          some (self.failFront failed err, .returned (.error err))
      | _ => none

def pollNext (self : ConcurrentTasks I O) :
    NextFuture →
      Option (ConcurrentTasks I O ×
        Progress NextFuture (Option (Except Error O)))
  | .unresumed =>
      if self.errored then
        some (self, .returned (some (.error unrecoverable)))
      else
        match self.results with
        | output :: rest =>
            some ({ self with results := rest }, .returned (some (.ok output)))
        | [] =>
            match self.tasks with
            | [] => some (self, .returned none)
            | _ :: _ => some (self, .suspended .awaitingFront)
  | .awaitingFront =>
      match self.tasks with
      | .ready _ (.ok output) :: rest =>
          some ({ self with tasks := rest }, .returned (some (.ok output)))
      | .ready failed (.error err) :: _ =>
          some (self.failFront failed err, .returned (some (.error err)))
      | _ => none

/-- The task at position `position` of the queue comes to its end. -/
def finish (factory : I → Ω → Option (I × Except Error O))
    (self : ConcurrentTasks I O) (position : Nat) (ω : Ω) :
    Option (ConcurrentTasks I O) := do
  let task ← self.tasks[position]?
  let finished ← task.finish factory ω
  some { self with tasks := self.tasks.set position finished }

end ConcurrentTasks

namespace ExecuteFuture

variable {I O Ω : Type}

/-- The task that a suspended `execute` awaits by itself comes to its end. -/
def finish (factory : I → Ω → Option (I × Except Error O)) (ω : Ω) :
    ExecuteFuture I O → Option (ExecuteFuture I O)
  | .awaitingTask task => (task.finish factory ω).map .awaitingTask
  | _ => none

end ExecuteFuture

end OpenDal
