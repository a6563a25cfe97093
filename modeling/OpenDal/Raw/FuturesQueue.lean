import Mathlib.Data.List.Forall2
import Mathlib.Data.List.Perm.Basic
import OpenDal.Raw.ConcurrentFutures

/-!
# `ConcurrentFutures` is an ordered queue

The calls of a run are replayed on a plain queue of futures: a push adds one at
an end, `clear` drops them all, and `poll_next` hands out the output of the
front one, waits for it, or says that there is none.  `QueueRun` is this
replay; it knows neither the concurrency nor the representation.

The invariant `Keeps` pairs every element of the representation with the
future of the plain queue that it stands for: unfinished, or parked with the
output that this future became ready with.
-/

namespace OpenDal

variable {F O : Type}

/-! ## The plain queue -/

/-- The futures in the queue, and those that have left it. -/
structure Ledger (F : Type) where
  queue : List F
  yielded : List F
  dropped : List F

def Ledger.empty : Ledger F :=
  { queue := [], yielded := [], dropped := [] }

/-- What a call may do and answer on the plain queue. -/
inductive QueueStep (completed : F → Option O) :
    Ledger F → FuturesCall F O → Ledger F → Prop where
  | pushBack {ledger : Ledger F} (f : F) :
      QueueStep completed ledger (.pushBack f)
        { ledger with queue := ledger.queue ++ [f] }
  | pushFront {ledger : Ledger F} (f : F) :
      QueueStep completed ledger (.pushFront f)
        { ledger with queue := f :: ledger.queue }
  | clear {ledger : Ledger F} :
      QueueStep completed ledger .clear
        { ledger with
          queue := []
          dropped := ledger.dropped ++ ledger.queue }
  | exhausted {ledger : Ledger F} :
      ledger.queue = [] →
      QueueStep completed ledger (.polled (.ready none)) ledger
  | waits {ledger : Ledger F} :
      ledger.queue ≠ [] →
      QueueStep completed ledger (.polled .pending) ledger
  | yields {ledger : Ledger F} {f : F} {rest : List F} {output : O} :
      ledger.queue = f :: rest → completed f = some output →
      QueueStep completed ledger (.polled (.ready (some output)))
        { ledger with
          queue := rest
          yielded := ledger.yielded ++ [f] }

/-- The calls replayed on the plain queue, starting with an empty one. -/
inductive QueueRun (completed : F → Option O) :
    List (FuturesCall F O) → Ledger F → Prop where
  | nil : QueueRun completed [] .empty
  | snoc {calls : List (FuturesCall F O)} {call : FuturesCall F O}
      {ledger next : Ledger F} :
      QueueRun completed calls ledger →
      QueueStep completed ledger call next →
      QueueRun completed (calls ++ [call]) next

theorem QueueStep.mono {completed later : F → Option O}
    {ledger next : Ledger F} {call : FuturesCall F O}
    (grows : ∀ f output, completed f = some output → later f = some output)
    (step : QueueStep completed ledger call next) :
    QueueStep later ledger call next := by
  cases step with
  | pushBack f => exact .pushBack f
  | pushFront f => exact .pushFront f
  | clear => exact .clear
  | exhausted empty => exact .exhausted empty
  | waits nonempty => exact .waits nonempty
  | yields front finished => exact .yields front (grows _ _ finished)

/-- What has been handed out stays so when more futures become ready. -/
theorem QueueRun.mono {completed later : F → Option O}
    {ledger : Ledger F} {calls : List (FuturesCall F O)}
    (grows : ∀ f output, completed f = some output → later f = some output)
    (replayed : QueueRun completed calls ledger) :
    QueueRun later calls ledger := by
  induction replayed with
  | nil => exact .nil
  | snoc _ step induction => exact .snoc induction (step.mono grows)

theorem QueueStep.deterministic {completed : F → Option O}
    {ledger left right : Ledger F} {call : FuturesCall F O}
    (first : QueueStep completed ledger call left)
    (second : QueueStep completed ledger call right) : left = right := by
  cases first with
  | pushBack f => cases second; rfl
  | pushFront f => cases second; rfl
  | clear => cases second; rfl
  | exhausted _ => cases second; rfl
  | waits _ => cases second; rfl
  | yields front _ =>
      cases second with
      | yields otherFront _ =>
          cases front.symm.trans otherFront
          rfl

theorem QueueStep.length_le {completed : F → Option O}
    {ledger next : Ledger F} {outcome : Poll (Option O)}
    (step : QueueStep completed ledger (.polled outcome) next) :
    next.queue.length ≤ ledger.queue.length := by
  cases step with
  | exhausted _ => exact Nat.le_refl _
  | waits _ => exact Nat.le_refl _
  | yields front _ =>
      rw [front]
      exact Nat.le_succ _

theorem QueueRun.deterministic {completed : F → Option O}
    {left right : Ledger F} {calls : List (FuturesCall F O)}
    (first : QueueRun completed calls left)
    (second : QueueRun completed calls right) : left = right := by
  induction first generalizing right with
  | nil =>
      generalize ended : ([] : List (FuturesCall F O)) = calls at second
      cases second with
      | nil => rfl
      | snoc _ _ => simp at ended
  | @snoc calls call ledger next _ step induction =>
      generalize ended : calls ++ [call] = all at second
      cases second with
      | nil => simp at ended
      | snoc before last =>
          obtain ⟨rfl, same⟩ := List.append_inj' ended rfl
          cases same
          have ledgers := induction before
          subst ledgers
          exact step.deterministic last

/-! ## The elements of a representation -/

/-- The element stands for the future. -/
inductive StandsFor (completed : F → Option O) : TaskResult F O → F → Prop where
  | polling (f : F) : StandsFor completed (.polling f) f
  | ready {f : F} {output : O} :
      completed f = some output → StandsFor completed (.ready output) f

theorem StandsFor.mono {completed later : F → Option O}
    {element : TaskResult F O} {f : F}
    (grows : ∀ f output, completed f = some output → later f = some output)
    (stands : StandsFor completed element f) : StandsFor later element f := by
  cases stands with
  | polling f => exact .polling f
  | ready finished => exact .ready (grows _ _ finished)

/-- The futures that have not finished, as far as the queue knows. -/
def unfinished (view : List (TaskResult F O)) : List F :=
  view.filterMap TaskResult.future?

theorem mem_unfinished {view : List (TaskResult F O)} {f : F} :
    f ∈ unfinished view ↔ .polling f ∈ view := by
  unfold unfinished
  rw [List.mem_filterMap]
  constructor
  · rintro ⟨element, member, same⟩
    cases element with
    | polling g =>
        cases same
        exact member
    | ready output => cases same
  · intro member
    exact ⟨_, member, rfl⟩

theorem unfinished_sublist {completed : F → Option O}
    {view : List (TaskResult F O)} {queue : List F}
    (matched : List.Forall₂ (StandsFor completed) view queue) :
    (unfinished view).Sublist queue := by
  induction matched with
  | nil => exact List.Sublist.slnil
  | @cons element f view queue stands _ induction =>
      cases stands with
      | polling f => exact induction.cons_cons f
      | ready _ => exact induction.cons f

namespace ConcurrentFutures

variable [DecidableEq F] {ordered : FuturesOrdered F O}

/-- The elements of the queue, front first. -/
def view (lawful : ordered.Lawful)
    (self : ConcurrentFutures F O ordered.Queue) : List (TaskResult F O) :=
  match self.tasks with
  | .once none => []
  | .once (some f) => [.polling f]
  | .small tasks => tasks
  | .large tasks => lawful.view tasks

/-- The representation that `new` chooses for the concurrency. -/
def Fits (concurrent : Nat) (self : ConcurrentFutures F O ordered.Queue) :
    Prop :=
  self.concurrent = concurrent ∧
    match self.tasks with
    | .once _ => concurrent < 2
    | .small _ => concurrent ≤ concurrentLargeThreshold
    | .large _ => concurrentLargeThreshold < concurrent

omit [DecidableEq F] in
theorem fits_new (ordered : FuturesOrdered F O) (concurrent : Nat) :
    (new ordered concurrent).Fits concurrent := by
  unfold new
  split
  · rename_i one
    exact ⟨rfl, one⟩
  · split
    · rename_i few
      exact ⟨rfl, few⟩
    · rename_i many
      exact ⟨rfl, Nat.lt_of_not_le many⟩

theorem view_new (lawful : ordered.Lawful) (concurrent : Nat) :
    (new ordered concurrent).view lawful = [] := by
  unfold new
  split
  · rfl
  · split
    · rfl
    · exact lawful.new

theorem len_eq (lawful : ordered.Lawful)
    (self : ConcurrentFutures F O ordered.Queue) :
    self.len ordered = (self.view lawful).length := by
  obtain ⟨tasks, concurrent⟩ := self
  cases tasks with
  | once fut => cases fut <;> rfl
  | small tasks => rfl
  | large tasks => exact lawful.len tasks

theorem clear_spec (lawful : ordered.Lawful) {concurrent : Nat}
    {self : ConcurrentFutures F O ordered.Queue}
    (fits : self.Fits concurrent) :
    (self.clear ordered).Fits concurrent ∧
      (self.clear ordered).view lawful = [] := by
  obtain ⟨tasks, bound⟩ := self
  cases tasks with
  | once fut => exact ⟨fits, rfl⟩
  | small tasks => exact ⟨fits, rfl⟩
  | large tasks => exact ⟨fits, lawful.new⟩

theorem length_lt_of_hasRemaining (lawful : ordered.Lawful)
    {self : ConcurrentFutures F O ordered.Queue}
    (space : self.hasRemaining ordered = some true) :
    (self.view lawful).length < self.concurrent := by
  unfold hasRemaining remaining checkedSub at space
  rw [len_eq lawful] at space
  split at space
  · simp only [Option.bind_eq_bind, Option.bind_some, Option.some.injEq,
      decide_eq_true_eq] at space
    omega
  · cases space

theorem pushBack_spec (lawful : ordered.Lawful) {concurrent : Nat}
    {self : ConcurrentFutures F O ordered.Queue} (f : F)
    (fits : self.Fits concurrent)
    (space : self.hasRemaining ordered = some true) :
    (self.pushBack ordered f).Fits concurrent ∧
      (self.pushBack ordered f).view lawful =
        self.view lawful ++ [.polling f] := by
  have shorter := length_lt_of_hasRemaining lawful space
  obtain ⟨tasks, bound⟩ := self
  cases tasks with
  | once fut =>
      refine ⟨fits, ?_⟩
      cases fut with
      | none => rfl
      | some g =>
          -- a taken slot leaves no space at a concurrency of one
          have full : 1 < bound := shorter
          have one : concurrent < 2 := fits.2
          have same : bound = concurrent := fits.1
          omega
  | small tasks => exact ⟨fits, rfl⟩
  | large tasks => exact ⟨fits, lawful.pushBack tasks f⟩

theorem pushFront_spec (lawful : ordered.Lawful) {concurrent : Nat}
    {self : ConcurrentFutures F O ordered.Queue} (f : F)
    (fits : self.Fits concurrent)
    (space : self.hasRemaining ordered = some true) :
    (self.pushFront ordered f).Fits concurrent ∧
      (self.pushFront ordered f).view lawful =
        .polling f :: self.view lawful := by
  have shorter := length_lt_of_hasRemaining lawful space
  obtain ⟨tasks, bound⟩ := self
  cases tasks with
  | once fut =>
      refine ⟨fits, ?_⟩
      cases fut with
      | none => rfl
      | some g =>
          have full : 1 < bound := shorter
          have one : concurrent < 2 := fits.2
          have same : bound = concurrent := fits.1
          omega
  | small tasks => exact ⟨fits, rfl⟩
  | large tasks => exact ⟨fits, lawful.pushFront tasks f⟩

/-! ## Polling -/

omit [DecidableEq F] in
/-- The loop over a small queue polls every unfinished future once. -/
theorem polls_pollAll (completed : F → Option O)
    (tasks : List (TaskResult F O)) :
    (pollAll completed tasks).2 =
      (unfinished tasks).map fun f => (f, completed f) := by
  induction tasks with
  | nil => rfl
  | cons task rest induction =>
      cases task with
      | ready output => exact induction
      | polling f =>
          rw [pollAll]
          show _ = (f, completed f) ::
            (unfinished rest).map fun f => (f, completed f)
          rw [← induction]
          cases finished : completed f with
          | none => rfl
          | some output => rfl

theorem tasks_pollAll {completed : F → Option O}
    {tasks : List (TaskResult F O)} {polls : Polls F O}
    (all : ∀ f ∈ unfinished tasks, f ∈ polls.map Prod.fst) :
    (pollAll completed tasks).1 =
      tasks.map (TaskResult.settle completed polls) := by
  induction tasks with
  | nil => rfl
  | cons task rest induction =>
      cases task with
      | ready output =>
          have later := induction all
          rw [List.map_cons, ← later]
          rfl
      | polling f =>
          have polled : f ∈ polls.map Prod.fst := by
            apply all
            exact mem_unfinished.mpr List.mem_cons_self
          have later := induction (by
            intro g member
            apply all
            exact mem_unfinished.mpr
              (List.mem_cons_of_mem _ (mem_unfinished.mp member)))
          rw [List.map_cons, ← later, pollAll, TaskResult.settle,
            if_pos polled]
          cases completed f <;> rfl

theorem small_pollSpec {completed : F → Option O}
    {tasks : List (TaskResult F O)} (distinct : (unfinished tasks).Nodup) :
    PollSpec completed tasks (pollAll completed tasks).2
      (pickFront (pollAll completed tasks).1).2
      (pickFront (pollAll completed tasks).1).1 := by
  rw [polls_pollAll]
  constructor
  · intro poll member
    obtain ⟨f, inside, rfl⟩ := List.mem_map.mp member
    exact ⟨mem_unfinished.mp inside, rfl⟩
  · rw [List.pairwise_map]
    apply distinct.imp
    intro earlier later different _
    exact fun same => different same.symm
  · have all : ∀ f ∈ unfinished tasks, f ∈
        ((unfinished tasks).map fun f => (f, completed f)).map Prod.fst := by
      intro f member
      rw [List.map_map]
      exact List.mem_map.mpr ⟨f, member, rfl⟩
    rw [← tasks_pollAll all]

/-- A poll of the queue, in all three representations. -/
theorem pollNext_spec (lawful : ordered.Lawful) {concurrent : Nat}
    {self : ConcurrentFutures F O ordered.Queue} (completed : F → Option O)
    (fits : self.Fits concurrent)
    (distinct : (unfinished (self.view lawful)).Nodup) :
    (self.pollNext ordered completed).1.Fits concurrent ∧
      PollSpec completed (self.view lawful)
        (self.pollNext ordered completed).2.1
        (self.pollNext ordered completed).2.2
        ((self.pollNext ordered completed).1.view lawful) := by
  obtain ⟨tasks, bound⟩ := self
  cases tasks with
  | once fut =>
      cases fut with
      | none =>
          refine ⟨fits, ?_⟩
          constructor
          · intro poll member
            cases member
          · exact List.Pairwise.nil
          · rfl
      | some f =>
          cases finished : completed f with
          | none =>
              rw [show pollNext ordered completed ⟨.once (some f), bound⟩ =
                (⟨.once (some f), bound⟩, [(f, none)], .pending) by
                  simp [pollNext, finished]]
              refine ⟨fits, ?_⟩
              constructor
              · intro poll member
                rw [List.mem_singleton] at member
                subst member
                exact ⟨List.mem_cons_self, finished.symm⟩
              · exact List.pairwise_singleton _ _
              · simp [view, TaskResult.settle, finished, pickFront]
          | some output =>
              rw [show pollNext ordered completed ⟨.once (some f), bound⟩ =
                (⟨.once none, bound⟩, [(f, some output)],
                  .ready (some output)) by
                  simp [pollNext, finished]]
              refine ⟨fits, ?_⟩
              constructor
              · intro poll member
                rw [List.mem_singleton] at member
                subst member
                exact ⟨List.mem_cons_self, finished.symm⟩
              · exact List.pairwise_singleton _ _
              · simp [view, TaskResult.settle, finished, pickFront]
  | small tasks => exact ⟨fits, small_pollSpec distinct⟩
  | large tasks => exact ⟨fits, lawful.pollNext completed tasks distinct⟩

theorem front_polled (lawful : ordered.Lawful) {concurrent : Nat}
    {self : ConcurrentFutures F O ordered.Queue} (completed : F → Option O)
    (fits : self.Fits concurrent)
    (prompt : concurrent ≤ concurrentLargeThreshold ∨ lawful.Prompt)
    {f : F} {rest : List (TaskResult F O)}
    (front : self.view lawful = .polling f :: rest) :
    f ∈ (self.pollNext ordered completed).2.1.map Prod.fst := by
  obtain ⟨tasks, bound⟩ := self
  cases tasks with
  | once fut =>
      cases fut with
      | none => cases front
      | some g =>
          cases front
          cases finished : completed f with
          | none => simp [pollNext, finished]
          | some output => simp [pollNext, finished]
  | small tasks =>
      show f ∈ (pollAll completed tasks).2.map Prod.fst
      rw [polls_pollAll, List.map_map]
      apply List.mem_map.mpr
      refine ⟨f, ?_, rfl⟩
      apply mem_unfinished.mpr
      have located : tasks = .polling f :: rest := front
      rw [located]
      exact List.mem_cons_self
  | large tasks =>
      rcases prompt with few | prompt
      · have many : concurrentLargeThreshold < concurrent := fits.2
        omega
      · exact prompt completed tasks f rest front

end ConcurrentFutures

/-! ## One poll -/

section Poll

variable [DecidableEq F] {completed : F → Option O}
  {view after : List (TaskResult F O)} {queue : List F} {polls : Polls F O}
  {outcome : Poll (Option O)}

theorem StandsFor.settle {element : TaskResult F O} {f : F}
    (stands : StandsFor completed element f) (polls : Polls F O) :
    StandsFor completed (element.settle completed polls) f := by
  cases stands with
  | ready finished => exact .ready finished
  | polling f =>
      by_cases among : f ∈ polls.map Prod.fst
      · rw [TaskResult.settle, if_pos among]
        cases finished : completed f with
        | none => exact .polling f
        | some output => exact .ready finished
      · rw [TaskResult.settle, if_neg among]
        exact .polling f

theorem forall₂_settle (polls : Polls F O)
    (matched : List.Forall₂ (StandsFor completed) view queue) :
    List.Forall₂ (StandsFor completed)
      (view.map (TaskResult.settle completed polls)) queue := by
  induction matched with
  | nil => exact .nil
  | cons stands _ induction => exact .cons (stands.settle polls) induction

/-- What a poll answers is a step of the plain queue. -/
theorem PollSpec.queueStep {ledger : Ledger F}
    (spec : PollSpec completed view polls outcome after)
    (matched : List.Forall₂ (StandsFor completed) view ledger.queue) :
    ∃ next, QueueStep completed ledger (.polled outcome) next ∧
      List.Forall₂ (StandsFor completed) after next.queue ∧
      next.yielded ++ next.queue = ledger.yielded ++ ledger.queue ∧
      next.dropped = ledger.dropped := by
  have settled := forall₂_settle polls matched
  have picked := spec.picked
  generalize view.map (TaskResult.settle completed polls) = polled
    at settled picked
  generalize located : ledger.queue = queue at settled
  cases settled with
  | nil =>
      cases picked
      refine ⟨ledger, .exhausted located, ?_, ?_, rfl⟩
      · rw [located]
        exact .nil
      · rw [located]
  | @cons element f rest queue stands later =>
      cases stands with
      | polling f =>
          cases picked
          have waiting : ledger.queue ≠ [] := by
            rw [located]
            exact List.cons_ne_nil f queue
          refine ⟨ledger, .waits waiting, ?_, ?_, rfl⟩
          · rw [located]
            exact .cons (.polling f) later
          · rw [located]
      | ready finished =>
          cases picked
          refine ⟨_, .yields located finished, later, ?_, rfl⟩
          exact List.append_assoc ledger.yielded [f] queue

/-- The elements that are still unfinished after a poll were so before, and
the poll has not made them ready. -/
theorem PollSpec.unfinished_after {f : F}
    (spec : PollSpec completed view polls outcome after)
    (member : .polling f ∈ after) :
    .polling f ∈ view ∧ ∀ output, (f, some output) ∉ polls := by
  have inside : .polling f ∈
      view.map (TaskResult.settle completed polls) := by
    have picked := spec.picked
    generalize view.map (TaskResult.settle completed polls) = polled
      at picked ⊢
    match polled with
    | [] =>
        cases picked
        cases member
    | .polling g :: rest =>
        cases picked
        exact member
    | .ready output :: rest =>
        cases picked
        exact List.mem_cons_of_mem _ member
  obtain ⟨element, before, settled⟩ := List.mem_map.mp inside
  cases element with
  | ready output => cases settled
  | polling g =>
      have same : g = f := by
        by_cases among : g ∈ polls.map Prod.fst
        · rw [TaskResult.settle, if_pos among] at settled
          cases finished : completed g with
          | none =>
              rw [finished] at settled
              cases settled
              rfl
          | some output =>
              rw [finished] at settled
              cases settled
        · rw [TaskResult.settle, if_neg among] at settled
          cases settled
          rfl
      subst same
      refine ⟨before, ?_⟩
      intro output polled
      have finished : some output = completed g := (spec.asked _ polled).2
      have among : g ∈ polls.map Prod.fst :=
        List.mem_map.mpr ⟨_, polled, rfl⟩
      rw [TaskResult.settle, if_pos among, ← finished] at settled
      cases settled

/-- What a poll answers when it polls the front future. -/
def promptOutcome (completed : F → Option O) :
    List F → Poll (Option O)
  | [] => .ready none
  | f :: _ =>
      match completed f with
      | none => .pending
      | some output => .ready (some output)

theorem PollSpec.outcome_eq
    (spec : PollSpec completed view polls outcome after)
    (matched : List.Forall₂ (StandsFor completed) view queue)
    (front : ∀ f rest, view = .polling f :: rest → f ∈ polls.map Prod.fst) :
    outcome = promptOutcome completed queue := by
  have picked := spec.picked
  cases matched with
  | nil =>
      cases picked
      rfl
  | @cons element f rest queue stands later =>
      rw [List.map_cons] at picked
      cases stands with
      | ready finished =>
          cases picked
          simp [promptOutcome, finished]
      | polling f =>
          rw [TaskResult.settle, if_pos (front f rest rfl)] at picked
          cases finished : completed f with
          | none =>
              rw [finished] at picked
              cases picked
              simp [promptOutcome, finished]
          | some output =>
              rw [finished] at picked
              cases picked
              simp [promptOutcome, finished]

end Poll

end OpenDal
