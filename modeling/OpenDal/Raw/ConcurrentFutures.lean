import Mathlib.Logic.Function.Basic
import OpenDal.Automaton
import OpenDal.Types.Buffer
import OpenDal.Types.Error

/-!
# `ConcurrentFutures`

A queue of futures whose outputs come out in the order of the queue.  It is a
single slot for a concurrency of at most one, a queue that polls all of its
futures and parks the finished ones in place up to a concurrency of eight, and
`FuturesOrdered` of the `futures` crate above that.

A future is known by its name, and `completed` says which futures have become
ready and with which output: polling one is looking it up.  Every operation
that polls also returns the polls it made.

`FuturesOrdered` is a parameter.  `FuturesOrdered.Lawful` is what its
documentation promises, relative to the list of its elements: it polls some of
the futures that have not finished, and hands out the front one as soon as
that has.
-/

namespace OpenDal

inductive TaskResult (F O : Type) where
  | polling (future : F)
  | ready (output : O)
deriving DecidableEq, Repr

/-- The future that an element still polls. -/
def TaskResult.future? {F O : Type} : TaskResult F O → Option F
  | .polling f => some f
  | .ready _ => none

/-- The polls that an operation made, with what each of them answered. -/
abbrev Polls (F O : Type) := List (F × Option O)

/-- The operations of `FuturesOrdered` that the queue uses. -/
structure FuturesOrdered (F O : Type) where
  Queue : Type
  new : Queue
  len : Queue → Nat
  pushBack : Queue → F → Queue
  pushFront : Queue → F → Queue
  pollNext : (F → Option O) → Queue → Queue × Polls F O × Poll (Option O)

/-- The entire task queue. -/
inductive Tasks (F O Queue : Type) where
  | once (fut : Option F)
  | small (tasks : List (TaskResult F O))
  | large (tasks : Queue)

structure ConcurrentFutures (F O Queue : Type) where
  tasks : Tasks F O Queue
  concurrent : Nat

def concurrentLargeThreshold : Nat := 8

namespace ConcurrentFutures

variable {F O : Type}

def new (ordered : FuturesOrdered F O) (concurrent : Nat) :
    ConcurrentFutures F O ordered.Queue :=
  if concurrent < 2 then
    { tasks := .once none, concurrent }
  else if concurrent ≤ concurrentLargeThreshold then
    { tasks := .small [], concurrent }
  else
    { tasks := .large ordered.new, concurrent }

/-- Drop all tasks. -/
def clear (ordered : FuturesOrdered F O)
    (self : ConcurrentFutures F O ordered.Queue) :
    ConcurrentFutures F O ordered.Queue :=
  match self.tasks with
  | .once _ => { self with tasks := .once none }
  | .small _ => { self with tasks := .small [] }
  | .large _ => { self with tasks := .large ordered.new }

def len (ordered : FuturesOrdered F O)
    (self : ConcurrentFutures F O ordered.Queue) : Nat :=
  match self.tasks with
  | .once fut => if fut.isSome then 1 else 0
  | .small tasks => tasks.length
  | .large tasks => ordered.len tasks

/-- The remaining space; `none` is a subtraction that overflows. -/
def remaining (ordered : FuturesOrdered F O)
    (self : ConcurrentFutures F O ordered.Queue) : Option Nat :=
  checkedSub self.concurrent (self.len ordered)

def hasRemaining (ordered : FuturesOrdered F O)
    (self : ConcurrentFutures F O ordered.Queue) : Option Bool := do
  let remaining ← self.remaining ordered
  some (0 < remaining)

def pushBack (ordered : FuturesOrdered F O)
    (self : ConcurrentFutures F O ordered.Queue) (f : F) :
    ConcurrentFutures F O ordered.Queue :=
  match self.tasks with
  | .once _ => { self with tasks := .once (some f) }
  | .small tasks => { self with tasks := .small (tasks ++ [.polling f]) }
  | .large tasks => { self with tasks := .large (ordered.pushBack tasks f) }

/-- The pushed task will be exactly the next one to poll. -/
def pushFront (ordered : FuturesOrdered F O)
    (self : ConcurrentFutures F O ordered.Queue) (f : F) :
    ConcurrentFutures F O ordered.Queue :=
  match self.tasks with
  | .once _ => { self with tasks := .once (some f) }
  | .small tasks => { self with tasks := .small (.polling f :: tasks) }
  | .large tasks => { self with tasks := .large (ordered.pushFront tasks f) }

/-- Poll all tasks together and replace the resolved ones by their output. -/
def pollAll (completed : F → Option O) :
    List (TaskResult F O) → List (TaskResult F O) × Polls F O
  | [] => ([], [])
  | .ready output :: rest =>
      let (tasks, polls) := pollAll completed rest
      (.ready output :: tasks, polls)
  | .polling f :: rest =>
      let (tasks, polls) := pollAll completed rest
      match completed f with
      | none => (.polling f :: tasks, (f, none) :: polls)
      | some res => (.ready res :: tasks, (f, some res) :: polls)

/-- Pick the first one to check. -/
def pickFront :
    List (TaskResult F O) → List (TaskResult F O) × Poll (Option O)
  | [] => ([], .ready none)
  | .polling f :: rest => (.polling f :: rest, .pending)
  | .ready res :: rest => (rest, .ready (some res))

/-- `Stream::poll_next`. -/
def pollNext (ordered : FuturesOrdered F O) (completed : F → Option O)
    (self : ConcurrentFutures F O ordered.Queue) :
    ConcurrentFutures F O ordered.Queue × Polls F O × Poll (Option O) :=
  match self.tasks with
  | .once none => (self, [], .ready none)
  | .once (some x) =>
      match completed x with
      | none => (self, [(x, none)], .pending)
      | some v =>
          ({ self with tasks := .once none }, [(x, some v)], .ready (some v))
  | .small tasks =>
      let (polled, polls) := pollAll completed tasks
      let (rest, outcome) := pickFront polled
      ({ self with tasks := .small rest }, polls, outcome)
  | .large tasks =>
      let (rest, polls, outcome) := ordered.pollNext completed tasks
      ({ self with tasks := .large rest }, polls, outcome)

end ConcurrentFutures

/-! ## What a poll of an ordered queue may do -/

/-- An element after the given polls. -/
def TaskResult.settle [DecidableEq F] (completed : F → Option O)
    (polls : Polls F O) : TaskResult F O → TaskResult F O
  | .ready output => .ready output
  | .polling f =>
      if f ∈ polls.map Prod.fst then
        match completed f with
        | none => .polling f
        | some output => .ready output
      else
        .polling f

/-- A poll of the queue polls unfinished futures, each at most until it is
ready, and hands out the front one when it has finished. -/
structure PollSpec [DecidableEq F] (completed : F → Option O)
    (view : List (TaskResult F O)) (polls : Polls F O)
    (outcome : Poll (Option O)) (after : List (TaskResult F O)) : Prop where
  asked : ∀ poll ∈ polls,
    .polling poll.1 ∈ view ∧ poll.2 = completed poll.1
  notAgain : polls.Pairwise fun earlier later =>
    earlier.2.isSome → later.1 ≠ earlier.1
  picked : ConcurrentFutures.pickFront
    (view.map (TaskResult.settle completed polls)) = (after, outcome)

/-- The documented behaviour of `FuturesOrdered`, stated on the list of its
elements. -/
structure FuturesOrdered.Lawful [DecidableEq F] (ordered : FuturesOrdered F O)
    where
  view : ordered.Queue → List (TaskResult F O)
  new : view ordered.new = []
  len : ∀ queue, ordered.len queue = (view queue).length
  pushBack : ∀ queue f,
    view (ordered.pushBack queue f) = view queue ++ [.polling f]
  pushFront : ∀ queue f,
    view (ordered.pushFront queue f) = .polling f :: view queue
  /-- Its futures are distinct: each of them was moved into the queue. -/
  pollNext : ∀ completed queue,
    ((view queue).filterMap TaskResult.future?).Nodup →
    PollSpec completed (view queue) (ordered.pollNext completed queue).2.1
      (ordered.pollNext completed queue).2.2
      (view (ordered.pollNext completed queue).1)

/-- Every poll of the queue polls the front future while it is unfinished. -/
def FuturesOrdered.Lawful.Prompt [DecidableEq F]
    {ordered : FuturesOrdered F O} (lawful : ordered.Lawful) : Prop :=
  ∀ completed queue f rest, lawful.view queue = .polling f :: rest →
    f ∈ (ordered.pollNext completed queue).2.1.map Prod.fst

/-! ## Runs -/

/-- What a caller does to the queue, and futures that become ready. -/
inductive FuturesEvent (F O : Type) where
  | pushBack (f : F)
  | pushFront (f : F)
  | clear
  | pollNext
  | complete (f : F) (output : O)
deriving DecidableEq, Repr

/-- A call that the caller made, with the answer. -/
inductive FuturesCall (F O : Type) where
  | pushBack (f : F)
  | pushFront (f : F)
  | clear
  | polled (outcome : Poll (Option O))
deriving DecidableEq, Repr

/-- The queue, the futures that have become ready, and what happened so far. -/
structure FuturesSystem (F O Queue : Type) where
  futures : ConcurrentFutures F O Queue
  completed : F → Option O
  pushed : List F
  calls : List (FuturesCall F O)
  polls : Polls F O

namespace FuturesSystem

variable {F O : Type} [DecidableEq F]

def start (ordered : FuturesOrdered F O) (concurrent : Nat) :
    FuturesSystem F O ordered.Queue :=
  { futures := .new ordered concurrent
    completed := fun _ => none
    pushed := []
    calls := []
    polls := [] }

/-- One event.  A future is moved into the queue, so it is pushed once, and
only when there is remaining space; it becomes ready once. -/
def step (ordered : FuturesOrdered F O)
    (state : FuturesSystem F O ordered.Queue) :
    FuturesEvent F O → Option (FuturesSystem F O ordered.Queue)
  | .pushBack f =>
      if f ∉ state.pushed ∧ state.futures.hasRemaining ordered = some true then
        some { state with
          futures := state.futures.pushBack ordered f
          pushed := state.pushed ++ [f]
          calls := state.calls ++ [.pushBack f] }
      else
        none
  | .pushFront f =>
      if f ∉ state.pushed ∧ state.futures.hasRemaining ordered = some true then
        some { state with
          futures := state.futures.pushFront ordered f
          pushed := state.pushed ++ [f]
          calls := state.calls ++ [.pushFront f] }
      else
        none
  | .clear =>
      some { state with
        futures := state.futures.clear ordered
        calls := state.calls ++ [.clear] }
  | .pollNext =>
      let (futures, polls, outcome) :=
        state.futures.pollNext ordered state.completed
      some { state with
        futures
        calls := state.calls ++ [.polled outcome]
        polls := state.polls ++ polls }
  | .complete f output =>
      if state.completed f = none then
        some { state with
          completed := Function.update state.completed f (some output) }
      else
        none

end FuturesSystem

end OpenDal
