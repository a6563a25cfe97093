import OpenDal.Raw.ConcurrentTasks

/-!
# Task queues keep their orders

Callers think of a task queue as a list of orders: each accepted `execute`
places one at the end and each output returned by `next` takes the oldest one
off.  A `Contract` says what an order means for the inputs and outputs of the
queue, and `Aligned` says that the results and the tasks of the queue serve
the open orders one by one and in sequence.

There is one theorem for each thing that can happen to a queue: resuming
`execute`, resuming `next`, and the end of a background task.  They are all
that callers need to know about the queue.
-/

namespace OpenDal

/-- What an order `J` means for a queue with inputs `I` and outputs `O`. -/
structure Contract (J I O : Type) where
  /-- A task for the order may be started with this input. -/
  serves : J → I → Prop
  /-- This output completes the order. -/
  delivers : J → O → Prop
  /-- A task for the order may end with this error and hand this input
  back. -/
  fails : J → I → Error → Prop

variable {J I O Ω : Type} {contract : Contract J I O}

/-- The task is one for the order. -/
def Task.Fulfils (contract : Contract J I O) (order : J) : Task I O → Prop
  | .running input => contract.serves order input
  | .ready _ (.ok output) => contract.delivers order output
  | .ready input (.error err) => contract.fails order input err

/-- A contract that asks for less, for instance because it refers to a history
that has grown. -/
structure Contract.Weaker (contract weaker : Contract J I O) : Prop where
  serves : ∀ order input, contract.serves order input →
    weaker.serves order input
  delivers : ∀ order output, contract.delivers order output →
    weaker.delivers order output
  fails : ∀ order input err, contract.fails order input err →
    weaker.fails order input err

theorem Task.Fulfils.mono {weaker : Contract J I O} {order : J}
    {task : Task I O} (fulfils : task.Fulfils contract order)
    (asksLess : contract.Weaker weaker) : task.Fulfils weaker order := by
  cases task with
  | running input => exact asksLess.serves order input fulfils
  | ready input result =>
      cases result with
      | ok output => exact asksLess.delivers order output fulfils
      | error err => exact asksLess.fails order input err fulfils

/-- A suspended `execute` that is placing the order. -/
def ExecuteFuture.Places (contract : Contract J I O)
    (capacity : Nat) (order : J) : ExecuteFuture I O → Prop
  | .unresumed input => contract.serves order input
  | .awaitingTask task => task.Fulfils contract order ∧ capacity ≤ 1
  | .awaitingFront input => contract.serves order input ∧ 1 < capacity

theorem ExecuteFuture.Places.mono {weaker : Contract J I O} {capacity : Nat}
    {order : J} {future : ExecuteFuture I O}
    (places : future.Places contract capacity order)
    (asksLess : contract.Weaker weaker) :
    future.Places weaker capacity order := by
  cases future with
  | unresumed input => exact asksLess.serves order input places
  | awaitingTask task => exact ⟨places.1.mono asksLess, places.2⟩
  | awaitingFront input =>
      exact ⟨asksLess.serves order input places.1, places.2⟩

/-- A suspended `next` that waits has found no result and some task. -/
def NextFuture.Waits (queue : ConcurrentTasks I O) : NextFuture → Prop
  | .unresumed => True
  | .awaitingFront => queue.results = [] ∧ queue.tasks ≠ []

namespace ConcurrentTasks

variable {orders : List J} {order : J} {capacity : Nat}
  {queue later : ConcurrentTasks I O}

/-- The results and then the tasks of the queue serve the open orders. -/
structure Aligned (contract : Contract J I O) (capacity : Nat)
    (orders : List J) (queue : ConcurrentTasks I O) : Prop where
  healthy : queue.errored = false
  reserved : queue.capacity = capacity
  bounded : queue.tasks.length ≤ capacity
  unqueued : capacity ≤ 1 → queue.tasks = []
  sequence : ∃ delivered waiting, orders = delivered ++ waiting ∧
    List.Forall₂ contract.delivers delivered queue.results ∧
    List.Forall₂ (Task.Fulfils contract) waiting queue.tasks

theorem aligned_new (contract : Contract J I O) (capacity : Nat) :
    Aligned contract capacity [] (new capacity) where
  healthy := rfl
  reserved := rfl
  bounded := Nat.zero_le _
  unqueued := fun _ => rfl
  sequence := ⟨[], [], rfl, .nil, .nil⟩

theorem Aligned.mono {weaker : Contract J I O}
    (aligned : Aligned contract capacity orders queue)
    (asksLess : contract.Weaker weaker) :
    Aligned weaker capacity orders queue := by
  obtain ⟨delivered, waiting, split, done, open_⟩ := aligned.sequence
  exact { aligned with
    sequence := ⟨delivered, waiting, split, done.imp asksLess.delivers,
      open_.imp fun _ _ fulfils => fulfils.mono asksLess⟩ }

/-! ## Elementary changes -/

theorem Aligned.collectFront {input : I} {output : O} {rest : List (Task I O)}
    (aligned : Aligned contract capacity orders queue)
    (front : queue.tasks = .ready input (.ok output) :: rest) :
    Aligned contract capacity orders
      { queue with tasks := rest, results := queue.results ++ [output] } := by
  obtain ⟨delivered, waiting, split, done, open_⟩ := aligned.sequence
  rw [front] at open_
  obtain ⟨order, waiting, fulfils, restOpen, rfl⟩ :=
    List.forall₂_cons_right_iff.mp open_
  have bounded := aligned.bounded
  rw [front, List.length_cons] at bounded
  exact
    { healthy := aligned.healthy
      reserved := aligned.reserved
      bounded := Nat.le_of_succ_le bounded
      unqueued := fun inline => by
        have none := aligned.unqueued inline
        simp [front] at none
      sequence := ⟨delivered ++ [order], waiting, by simp [split],
        List.rel_append done (.cons fulfils .nil), restOpen⟩ }

theorem Aligned.push {input : I}
    (aligned : Aligned contract capacity orders queue)
    (space : queue.tasks.length < capacity) (concurrent : 1 < capacity)
    (serves : contract.serves order input) :
    Aligned contract capacity (orders ++ [order])
      { queue with tasks := queue.tasks ++ [.running input] } := by
  obtain ⟨delivered, waiting, split, done, open_⟩ := aligned.sequence
  exact
    { healthy := aligned.healthy
      reserved := aligned.reserved
      bounded := by
        rw [List.length_append, List.length_singleton]
        exact space
      unqueued := fun inline => absurd inline (Nat.not_le_of_gt concurrent)
      sequence := ⟨delivered, waiting ++ [order], by simp [split], done,
        List.rel_append open_ (.cons serves .nil)⟩ }

/-- The output of a task that was awaited directly becomes the last result;
the queue is empty then. -/
theorem Aligned.pushResult {output : O}
    (aligned : Aligned contract capacity orders queue)
    (empty : queue.tasks = []) (delivers : contract.delivers order output) :
    Aligned contract capacity (orders ++ [order])
      { queue with results := queue.results ++ [output] } := by
  obtain ⟨delivered, waiting, split, done, open_⟩ := aligned.sequence
  rw [empty, List.forall₂_nil_right_iff] at open_
  subst open_
  exact
    { healthy := aligned.healthy
      reserved := aligned.reserved
      bounded := aligned.bounded
      unqueued := aligned.unqueued
      sequence := ⟨delivered ++ [order], [], by simp [split],
        List.rel_append done (.cons delivers .nil), by simp [empty]⟩ }

/-- Starting a failed front task again keeps its place in the queue, if the
input that it has handed back is still good for its order; any other failure
ends the queue. -/
theorem Aligned.failFront {input : I} {err : Error}
    {rest : List (Task I O)}
    (aligned : Aligned contract capacity orders queue)
    (front : queue.tasks = .ready input (.error err) :: rest) :
    ∃ failed, contract.fails failed input err ∧
      ((contract.serves failed input →
          Aligned contract capacity orders (queue.failFront input err)) ∨
        err.isTemporary = false ∧
          (queue.failFront input err).errored = true) := by
  obtain ⟨delivered, waiting, split, done, open_⟩ := aligned.sequence
  rw [front] at open_
  obtain ⟨order, waiting, fails, restOpen, rfl⟩ :=
    List.forall₂_cons_right_iff.mp open_
  refine ⟨order, fails, ?_⟩
  by_cases temporary : err.isTemporary = true
  · left
    intro serves
    rw [ConcurrentTasks.failFront, if_pos temporary, front]
    have bounded := aligned.bounded
    rw [front] at bounded
    exact
      { healthy := aligned.healthy
        reserved := aligned.reserved
        bounded := bounded
        unqueued := fun inline => by
          have none := aligned.unqueued inline
          simp [front] at none
        sequence := ⟨delivered, order :: waiting, split, done,
          .cons serves restOpen⟩ }
  · right
    exact ⟨by simpa using temporary, by simp [ConcurrentTasks.failFront, temporary]⟩

/-! ## Resuming `execute` -/

/-- What resuming `execute` can come to. -/
inductive ExecuteOutcome (contract : Contract J I O) (capacity : Nat)
    (orders : List J) (order : J) (later : ConcurrentTasks I O) :
    Progress (ExecuteFuture I O) (Except Error Unit) → Prop where
  | accepted
      (aligned : Aligned contract capacity (orders ++ [order]) later) :
      ExecuteOutcome contract capacity orders order later (.returned (.ok ()))
  | refused {failed : J} {input : I} {err : Error}
      (fails : contract.fails failed input err)
      (aligned : contract.serves failed input →
        Aligned contract capacity orders later) :
      ExecuteOutcome contract capacity orders order later
        (.returned (.error err))
  | gaveUp {failed : J} {input : I} {err : Error}
      (fails : contract.fails failed input err)
      (fatal : err.isTemporary = false) (errored : later.errored = true) :
      ExecuteOutcome contract capacity orders order later
        (.returned (.error err))
  | suspended {future : ExecuteFuture I O}
      (aligned : Aligned contract capacity orders later)
      (places : future.Places contract capacity order) :
      ExecuteOutcome contract capacity orders order later (.suspended future)

theorem Aligned.failFront_execute {input : I} {err : Error}
    {rest : List (Task I O)}
    (aligned : Aligned contract capacity orders queue) (order : J)
    (front : queue.tasks = .ready input (.error err) :: rest) :
    ExecuteOutcome contract capacity orders order (queue.failFront input err)
      (.returned (.error err)) := by
  obtain ⟨failed, fails, kept | ⟨fatal, errored⟩⟩ := aligned.failFront front
  · exact .refused fails kept
  · exact .gaveUp fails fatal errored

theorem Aligned.pushOrWait {input : I}
    (aligned : Aligned contract capacity orders queue)
    (concurrent : 1 < capacity) (serves : contract.serves order input) :
    ExecuteOutcome contract capacity orders order (queue.pushOrWait input).1
      (queue.pushOrWait input).2 := by
  by_cases space : queue.tasks.length < queue.capacity
  · rw [ConcurrentTasks.pushOrWait, if_pos space]
    exact .accepted
      (aligned.push (aligned.reserved ▸ space) concurrent serves)
  · rw [ConcurrentTasks.pushOrWait, if_neg space]
    cases tasks : queue.tasks with
    | nil =>
        rw [tasks, aligned.reserved, List.length_nil] at space
        omega
    | cons front rest => exact .suspended aligned ⟨serves, concurrent⟩

theorem Aligned.executeLoop {input : I}
    (aligned : Aligned contract capacity orders queue)
    (concurrent : 1 < capacity) (serves : contract.serves order input) :
    ExecuteOutcome contract capacity orders order (queue.executeLoop input).1
      (queue.executeLoop input).2 := by
  unfold ConcurrentTasks.executeLoop
  split
  · rename_i front
    exact (aligned.collectFront front).pushOrWait concurrent serves
  · rename_i front
    exact aligned.failFront_execute order front
  · exact aligned.pushOrWait concurrent serves

theorem Aligned.pollExecute {future : ExecuteFuture I O}
    {progress : Progress (ExecuteFuture I O) (Except Error Unit)}
    (aligned : Aligned contract capacity orders queue)
    (places : future.Places contract capacity order)
    (resumed : queue.pollExecute future = some (later, progress)) :
    ExecuteOutcome contract capacity orders order later progress := by
  cases future with
  | unresumed input =>
      by_cases concurrent : 1 < capacity
      · simp only [ConcurrentTasks.pollExecute, aligned.healthy,
          isConcurrent, aligned.reserved, concurrent, decide_true,
          Bool.not_true, Bool.false_eq_true, if_false,
          Option.some.injEq] at resumed
        have outcome := aligned.executeLoop concurrent places
        rw [resumed] at outcome
        exact outcome
      · simp only [ConcurrentTasks.pollExecute, aligned.healthy,
          isConcurrent, aligned.reserved, concurrent, decide_false,
          Bool.not_false, Bool.false_eq_true, if_false, if_true,
          Option.some.injEq, Prod.mk.injEq] at resumed
        obtain ⟨rfl, rfl⟩ := resumed
        exact .suspended aligned ⟨places, Nat.le_of_not_lt concurrent⟩
  | awaitingTask task =>
      obtain ⟨fulfils, inline⟩ := places
      cases task with
      | running input => cases resumed
      | ready input result =>
          cases result with
          | ok output =>
              cases resumed
              exact .accepted
                (aligned.pushResult (aligned.unqueued inline) fulfils)
          | error err =>
              cases resumed
              exact .refused fulfils fun _ => aligned
  | awaitingFront input =>
      obtain ⟨serves, concurrent⟩ := places
      cases tasks : queue.tasks with
      | nil => simp [ConcurrentTasks.pollExecute, tasks] at resumed
      | cons front rest =>
          cases front with
          | running input =>
              simp [ConcurrentTasks.pollExecute, tasks] at resumed
          | ready input result =>
              cases result with
              | ok output =>
                  simp only [ConcurrentTasks.pollExecute, tasks,
                    Option.some.injEq] at resumed
                  have outcome := (aligned.collectFront tasks).executeLoop
                    concurrent serves
                  rw [resumed] at outcome
                  exact outcome
              | error err =>
                  simp only [ConcurrentTasks.pollExecute, tasks,
                    Option.some.injEq, Prod.mk.injEq] at resumed
                  obtain ⟨rfl, rfl⟩ := resumed
                  exact aligned.failFront_execute order tasks

/-- With room in the queue, `execute` is suspended only on the short path. -/
theorem pollExecute_suspended {future next : ExecuteFuture I O}
    (room : queue.hasRemaining = true)
    (outside : ∀ input, future ≠ .awaitingFront input)
    (resumed : queue.pollExecute future = some (later, .suspended next)) :
    later = queue ∧ ∃ input, future = .unresumed input ∧
      next = .awaitingTask (.running input) := by
  simp only [hasRemaining, decide_eq_true_eq] at room
  cases future with
  | awaitingFront input => exact absurd rfl (outside input)
  | awaitingTask task =>
      cases task with
      | running input => cases resumed
      | ready input result => cases result <;> cases resumed
  | unresumed input =>
      simp only [ConcurrentTasks.pollExecute] at resumed
      split at resumed
      · cases resumed
      · split at resumed
        · cases resumed
          exact ⟨rfl, input, rfl, rfl⟩
        · unfold ConcurrentTasks.executeLoop at resumed
          split at resumed
          · rename_i front
            rw [front, List.length_cons] at room
            rw [ConcurrentTasks.pushOrWait, if_pos (Nat.lt_of_succ_lt room)]
              at resumed
            cases resumed
          · cases resumed
          · rw [ConcurrentTasks.pushOrWait, if_pos room] at resumed
            cases resumed

/-- With room in the queue, `execute` fails only when the task that it awaits
directly or the front task has failed. -/
theorem pollExecute_error {future : ExecuteFuture I O} {err : Error}
    (healthy : queue.errored = false)
    (room : queue.hasRemaining = true)
    (outside : ∀ input, future ≠ .awaitingFront input)
    (resumed : queue.pollExecute future =
      some (later, .returned (.error err))) :
    (∃ input, future = .awaitingTask (.ready input (.error err))) ∨
      ∃ input failed rest, future = .unresumed input ∧
        queue.tasks = .ready failed (.error err) :: rest := by
  simp only [hasRemaining, decide_eq_true_eq] at room
  cases future with
  | awaitingFront input => exact absurd rfl (outside input)
  | awaitingTask task =>
      cases task with
      | running input => cases resumed
      | ready input result =>
          cases result with
          | ok output => cases resumed
          | error failure =>
              cases resumed
              exact .inl ⟨input, rfl⟩
  | unresumed input =>
      simp only [ConcurrentTasks.pollExecute, healthy, Bool.false_eq_true,
        if_false] at resumed
      split at resumed
      · cases resumed
      · unfold ConcurrentTasks.executeLoop at resumed
        split at resumed
        · rename_i front
          rw [front, List.length_cons] at room
          rw [ConcurrentTasks.pushOrWait, if_pos (Nat.lt_of_succ_lt room)]
            at resumed
          cases resumed
        · rename_i failed failure rest front
          cases resumed
          exact .inr ⟨input, failed, rest, rfl, front⟩
        · rw [ConcurrentTasks.pushOrWait, if_pos room] at resumed
          cases resumed

/-! ## Resuming `next` -/

/-- What resuming `next` can come to. -/
inductive NextOutcome (contract : Contract J I O) (capacity : Nat)
    (orders : List J) (later : ConcurrentTasks I O) :
    Progress NextFuture (Option (Except Error O)) → Prop where
  | delivered {order : J} {rest : List J} {output : O}
      (oldest : orders = order :: rest)
      (delivers : contract.delivers order output)
      (aligned : Aligned contract capacity rest later) :
      NextOutcome contract capacity orders later
        (.returned (some (.ok output)))
  | failed {failed : J} {input : I} {err : Error}
      (fails : contract.fails failed input err)
      (aligned : contract.serves failed input →
        Aligned contract capacity orders later) :
      NextOutcome contract capacity orders later
        (.returned (some (.error err)))
  | gaveUp {failed : J} {input : I} {err : Error}
      (fails : contract.fails failed input err)
      (fatal : err.isTemporary = false) (errored : later.errored = true) :
      NextOutcome contract capacity orders later
        (.returned (some (.error err)))
  | drained (empty : orders = [])
      (aligned : Aligned contract capacity orders later) :
      NextOutcome contract capacity orders later (.returned none)
  | suspended {future : NextFuture}
      (aligned : Aligned contract capacity orders later)
      (waits : future.Waits later) :
      NextOutcome contract capacity orders later (.suspended future)

theorem Aligned.popResult {output : O} {rest : List O}
    (aligned : Aligned contract capacity orders queue)
    (results : queue.results = output :: rest) :
    ∃ order remaining, orders = order :: remaining ∧
      contract.delivers order output ∧
      Aligned contract capacity remaining { queue with results := rest } := by
  obtain ⟨delivered, waiting, split, done, open_⟩ := aligned.sequence
  rw [results] at done
  obtain ⟨order, others, delivers, restDone, rfl⟩ :=
    List.forall₂_cons_right_iff.mp done
  exact ⟨order, others ++ waiting, by simp [split], delivers,
    { aligned with sequence := ⟨others, waiting, rfl, restDone, open_⟩ }⟩

theorem Aligned.popFront {input : I} {output : O} {rest : List (Task I O)}
    (aligned : Aligned contract capacity orders queue)
    (noResults : queue.results = [])
    (front : queue.tasks = .ready input (.ok output) :: rest) :
    ∃ order remaining, orders = order :: remaining ∧
      contract.delivers order output ∧
      Aligned contract capacity remaining { queue with tasks := rest } := by
  have collected := aligned.collectFront front
  have single : queue.results ++ [output] = [output] := by simp [noResults]
  obtain ⟨order, remaining, split, delivers, popped⟩ :=
    collected.popResult single
  refine ⟨order, remaining, split, delivers, ?_⟩
  simpa [noResults] using popped

theorem Aligned.orders_eq_nil
    (aligned : Aligned contract capacity orders queue)
    (noResults : queue.results = []) (noTasks : queue.tasks = []) :
    orders = [] := by
  obtain ⟨delivered, waiting, split, done, open_⟩ := aligned.sequence
  rw [noResults, List.forall₂_nil_right_iff] at done
  rw [noTasks, List.forall₂_nil_right_iff] at open_
  simp [split, done, open_]

theorem Aligned.eq_nil (aligned : Aligned contract capacity [] queue) :
    queue.results = [] ∧ queue.tasks = [] := by
  obtain ⟨delivered, waiting, split, done, open_⟩ := aligned.sequence
  obtain ⟨noneDelivered, noneWaiting⟩ := List.append_eq_nil_iff.mp split.symm
  subst noneDelivered
  subst noneWaiting
  exact ⟨List.forall₂_nil_left_iff.mp done,
    List.forall₂_nil_left_iff.mp open_⟩

theorem Aligned.clear (aligned : Aligned contract capacity orders queue) :
    Aligned contract capacity [] queue.clear where
  healthy := aligned.healthy
  reserved := aligned.reserved
  bounded := Nat.zero_le _
  unqueued := fun _ => rfl
  sequence := ⟨[], [], rfl, .nil, .nil⟩

theorem Aligned.pollNext {future : NextFuture}
    {progress : Progress NextFuture (Option (Except Error O))}
    (aligned : Aligned contract capacity orders queue)
    (waits : future.Waits queue)
    (resumed : queue.pollNext future = some (later, progress)) :
    NextOutcome contract capacity orders later progress := by
  cases future with
  | unresumed =>
      rw [ConcurrentTasks.pollNext, if_neg (by simp [aligned.healthy])]
        at resumed
      cases results : queue.results with
      | cons output rest =>
          rw [results] at resumed
          cases resumed
          obtain ⟨order, remaining, split, delivers, kept⟩ :=
            aligned.popResult results
          exact .delivered split delivers kept
      | nil =>
          rw [results] at resumed
          cases tasks : queue.tasks with
          | nil =>
              rw [tasks] at resumed
              cases resumed
              exact .drained (aligned.orders_eq_nil results tasks) aligned
          | cons front rest =>
              rw [tasks] at resumed
              cases resumed
              exact .suspended aligned ⟨results, by simp [tasks]⟩
  | awaitingFront =>
      obtain ⟨noResults, _⟩ := waits
      cases tasks : queue.tasks with
      | nil => simp [ConcurrentTasks.pollNext, tasks] at resumed
      | cons front rest =>
          cases front with
          | running input =>
              simp [ConcurrentTasks.pollNext, tasks] at resumed
          | ready input result =>
              cases result with
              | ok output =>
                  simp only [ConcurrentTasks.pollNext, tasks,
                    Option.some.injEq, Prod.mk.injEq] at resumed
                  obtain ⟨rfl, rfl⟩ := resumed
                  obtain ⟨order, remaining, split, delivers, kept⟩ :=
                    aligned.popFront noResults tasks
                  exact .delivered split delivers kept
              | error err =>
                  simp only [ConcurrentTasks.pollNext, tasks,
                    Option.some.injEq, Prod.mk.injEq] at resumed
                  obtain ⟨rfl, rfl⟩ := resumed
                  obtain ⟨failed, fails, kept | ⟨fatal, errored⟩⟩ :=
                    aligned.failFront tasks
                  · exact .failed fails kept
                  · exact .gaveUp fails fatal errored

/-! ## The end of a background task -/

private theorem forall₂_set {R : J → Task I O → Prop} {left : List J}
    {right : List (Task I O)} {position : Nat} {old new : Task I O}
    (related : List.Forall₂ R left right)
    (found : right[position]? = some old)
    (replaced : ∀ order, R order old → R order new) :
    List.Forall₂ R left (right.set position new) := by
  induction related generalizing position with
  | nil => simp at found
  | cons head tail induction =>
      cases position with
      | zero =>
          simp only [List.getElem?_cons_zero, Option.some.injEq] at found
          subst found
          exact .cons (replaced _ head) tail
      | succ position => exact .cons head (induction (by simpa using found))

theorem hasRemaining_finish
    {factory : I → Ω → Option (I × Except Error O)} {position : Nat} {ω : Ω}
    (finished : queue.finish factory position ω = some later) :
    later.hasRemaining = queue.hasRemaining := by
  simp only [ConcurrentTasks.finish, Option.bind_eq_bind,
    Option.bind_eq_some_iff] at finished
  obtain ⟨task, _, ended, _, same⟩ := finished
  cases same
  simp [hasRemaining]

theorem Aligned.serves_running {position : Nat} {input : I}
    (aligned : Aligned contract capacity orders queue)
    (running : queue.tasks[position]? = some (.running input)) :
    ∃ order ∈ orders, contract.serves order input := by
  obtain ⟨delivered, waiting, split, _, open_⟩ := aligned.sequence
  obtain ⟨sameLength, related⟩ := List.forall₂_iff_get.mp open_
  obtain ⟨within, found⟩ := List.getElem?_eq_some_iff.mp running
  have fulfils := related position (sameLength ▸ within) within
  rw [List.get_eq_getElem, List.get_eq_getElem, found] at fulfils
  exact ⟨_, by simp [split], fulfils⟩

private theorem forall₂_exists_right {α β : Type} {R : α → β → Prop}
    {left : List α} {right : List β} (related : List.Forall₂ R left right)
    {first : α} (member : first ∈ left) : ∃ second ∈ right, R first second := by
  induction related with
  | nil => cases member
  | cons head tail induction =>
      rcases List.mem_cons.mp member with rfl | later
      · exact ⟨_, List.mem_cons_self, head⟩
      · obtain ⟨second, found, holds⟩ := induction later
        exact ⟨second, List.mem_cons_of_mem _ found, holds⟩

/-- When all tasks have succeeded, every open order is completed. -/
theorem Aligned.delivers_of_succeeded
    (aligned : Aligned contract capacity orders queue)
    (succeeded : ∀ task ∈ queue.tasks, ∃ input output,
      task = .ready input (.ok output)) :
    ∀ order ∈ orders, ∃ output, contract.delivers order output := by
  obtain ⟨delivered, waiting, split, done, open_⟩ := aligned.sequence
  intro order member
  rw [split, List.mem_append] at member
  rcases member with earlier | later
  · obtain ⟨output, _, delivers⟩ := forall₂_exists_right done earlier
    exact ⟨output, delivers⟩
  · obtain ⟨task, found, fulfils⟩ := forall₂_exists_right open_ later
    obtain ⟨input, output, rfl⟩ := succeeded task found
    exact ⟨output, fulfils⟩

theorem finish_keeps
    {factory : I → Ω → Option (I × Except Error O)} {position : Nat} {ω : Ω}
    (finished : queue.finish factory position ω = some later) :
    later.capacity = queue.capacity ∧ later.errored = queue.errored := by
  simp only [ConcurrentTasks.finish, Option.bind_eq_bind,
    Option.bind_eq_some_iff] at finished
  obtain ⟨task, _, ended, _, same⟩ := finished
  cases same
  exact ⟨rfl, rfl⟩

theorem Aligned.finish {factory : I → Ω → Option (I × Except Error O)}
    {position : Nat} {ω : Ω}
    (aligned : Aligned contract capacity orders queue)
    (finished : queue.finish factory position ω = some later)
    (respects : ∀ {order input handedBack result},
      queue.tasks[position]? = some (.running input) →
      contract.serves order input →
      factory input ω = some (handedBack, result) →
      Task.Fulfils contract order (.ready handedBack result)) :
    Aligned contract capacity orders later := by
  simp only [ConcurrentTasks.finish, Option.bind_eq_bind,
    Option.bind_eq_some_iff] at finished
  obtain ⟨task, found, ended, resolved, same⟩ := finished
  cases same
  obtain ⟨delivered, waiting, split, done, open_⟩ := aligned.sequence
  refine
    { healthy := aligned.healthy
      reserved := aligned.reserved
      bounded := by simpa using aligned.bounded
      unqueued := fun inline => by simp [aligned.unqueued inline]
      sequence := ⟨delivered, waiting, split, done,
        forall₂_set open_ found ?_⟩ }
  intro order fulfils
  cases task with
  | ready input result => simp [Task.finish] at resolved
  | running input =>
      simp only [Task.finish, Option.map_eq_some_iff] at resolved
      obtain ⟨⟨handedBack, result⟩, produced, rfl⟩ := resolved
      exact respects found fulfils produced

end ConcurrentTasks

theorem NextFuture.Waits.finish
    {factory : I → Ω → Option (I × Except Error O)} {ω : Ω} {position : Nat}
    {queue later : ConcurrentTasks I O} {future : NextFuture}
    (waits : future.Waits queue)
    (finished : queue.finish factory position ω = some later) :
    future.Waits later := by
  simp only [ConcurrentTasks.finish, Option.bind_eq_bind,
    Option.bind_eq_some_iff] at finished
  obtain ⟨task, found, ended, resolved, same⟩ := finished
  cases same
  cases future with
  | unresumed => trivial
  | awaitingFront => exact ⟨waits.1, by simpa using waits.2⟩

theorem ExecuteFuture.Places.finish
    {factory : I → Ω → Option (I × Except Error O)} {ω : Ω} {capacity : Nat}
    {order : J} {future next : ExecuteFuture I O}
    (places : future.Places contract capacity order)
    (finished : future.finish factory ω = some next)
    (respects : ∀ {input handedBack result},
      future = .awaitingTask (.running input) →
      contract.serves order input →
      factory input ω = some (handedBack, result) →
      Task.Fulfils contract order (.ready handedBack result)) :
    next.Places contract capacity order := by
  cases future with
  | unresumed input => cases finished
  | awaitingFront input => cases finished
  | awaitingTask task =>
      simp only [ExecuteFuture.finish, Option.map_eq_some_iff] at finished
      obtain ⟨ended, resolved, rfl⟩ := finished
      cases task with
      | ready input result => simp [Task.finish] at resolved
      | running input =>
          simp only [Task.finish, Option.map_eq_some_iff] at resolved
          obtain ⟨⟨handedBack, result⟩, produced, rfl⟩ := resolved
          exact ⟨respects rfl places.1 produced, places.2⟩

end OpenDal
