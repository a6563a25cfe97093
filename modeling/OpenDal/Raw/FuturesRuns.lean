import Mathlib.Data.List.Nodup
import OpenDal.Raw.FuturesQueue

/-!
# Runs of `ConcurrentFutures`

The invariant of a run: the calls so far replay on the plain queue, the
representation stands for what is in that queue, no pushed future is lost, and
a future that answered a poll with its output is no longer polled.  So the
outputs leave in the order of the queue, each of them once, and two runs over
the same events answer alike as soon as both poll the front future.
-/

namespace OpenDal

variable {F O : Type} [DecidableEq F] {ordered : FuturesOrdered F O}

namespace FuturesSystem

/-- No future is polled again after it has answered with its output. -/
def NeverPolledAgain (polls : Polls F O) : Prop :=
  polls.Pairwise fun earlier later =>
    earlier.2.isSome → later.1 ≠ earlier.1

/-- The state after a run, seen as the plain queue `ledger`. -/
structure Keeps (lawful : ordered.Lawful) (concurrent : Nat)
    (state : FuturesSystem F O ordered.Queue) (ledger : Ledger F) : Prop where
  fits : state.futures.Fits concurrent
  replayed : QueueRun state.completed state.calls ledger
  matched : List.Forall₂ (StandsFor state.completed)
    (state.futures.view lawful) ledger.queue
  distinct : state.pushed.Nodup
  accounted : state.pushed.Perm
    (ledger.yielded ++ ledger.queue ++ ledger.dropped)
  bounded : ledger.queue.length ≤ concurrent
  known : ∀ poll ∈ state.polls, poll.1 ∈ state.pushed
  unanswered : ∀ f, .polling f ∈ state.futures.view lawful →
    ∀ output, (f, some output) ∉ state.polls
  notAgain : NeverPolledAgain state.polls

variable {lawful : ordered.Lawful} {concurrent : Nat}
  {state next : FuturesSystem F O ordered.Queue} {ledger : Ledger F}

theorem keeps_start (lawful : ordered.Lawful) (concurrent : Nat) :
    Keeps lawful concurrent (start ordered concurrent) .empty := by
  have nothing := ConcurrentFutures.view_new lawful concurrent
  constructor
  · exact ConcurrentFutures.fits_new ordered concurrent
  · exact .nil
  · show List.Forall₂ _ ((ConcurrentFutures.new ordered concurrent).view
      lawful) []
    rw [nothing]
    exact .nil
  · exact List.nodup_nil
  · exact List.Perm.nil
  · exact Nat.zero_le _
  · intro poll member
    cases member
  · intro f member output polled
    cases polled
  · exact List.Pairwise.nil

theorem Keeps.queue_subset (keeps : Keeps lawful concurrent state ledger) :
    ledger.queue ⊆ state.pushed := by
  intro f member
  apply keeps.accounted.mem_iff.mpr
  apply List.mem_append_left
  exact List.mem_append_right _ member

theorem Keeps.nodup_queue (keeps : Keeps lawful concurrent state ledger) :
    ledger.queue.Nodup := by
  have all := keeps.accounted.nodup_iff.mp keeps.distinct
  have front := (List.nodup_append.mp all).1
  exact (List.nodup_append.mp front).2.1

theorem Keeps.nodup_unfinished
    (keeps : Keeps lawful concurrent state ledger) :
    (unfinished (state.futures.view lawful)).Nodup :=
  keeps.nodup_queue.sublist (unfinished_sublist keeps.matched)

theorem Keeps.len_eq (keeps : Keeps lawful concurrent state ledger) :
    state.futures.len ordered = ledger.queue.length := by
  rw [ConcurrentFutures.len_eq lawful]
  exact keeps.matched.length_eq

theorem Keeps.length_lt (keeps : Keeps lawful concurrent state ledger)
    (space : state.futures.hasRemaining ordered = some true) :
    ledger.queue.length < concurrent := by
  have shorter := ConcurrentFutures.length_lt_of_hasRemaining lawful space
  rw [keeps.matched.length_eq, keeps.fits.1] at shorter
  exact shorter

theorem Keeps.unanswered_fresh {f : F}
    (keeps : Keeps lawful concurrent state ledger)
    (fresh : f ∉ state.pushed) (output : O) :
    (f, some output) ∉ state.polls := by
  intro polled
  exact fresh (keeps.known _ polled)

/-! ## One event -/

theorem Keeps.pushBack {f : F}
    (keeps : Keeps lawful concurrent state ledger)
    (stepped : step ordered state (.pushBack f) = some next) :
    Keeps lawful concurrent next
      { ledger with queue := ledger.queue ++ [f] } := by
  unfold step at stepped
  rw [Option.ite_none_right_eq_some, Option.some.injEq] at stepped
  obtain ⟨⟨fresh, space⟩, rfl⟩ := stepped
  obtain ⟨fits, pushed⟩ :=
    ConcurrentFutures.pushBack_spec lawful f keeps.fits space
  constructor
  · exact fits
  · exact .snoc keeps.replayed (.pushBack f)
  · rw [pushed]
    exact List.rel_append keeps.matched (.cons (.polling f) .nil)
  · rw [← List.concat_eq_append]
    exact keeps.distinct.concat fresh
  · have grown := keeps.accounted.append_right [f]
    refine grown.trans ?_
    simp only [List.append_assoc]
    apply List.Perm.append_left
    apply List.Perm.append_left
    exact List.perm_append_comm
  · have space := keeps.length_lt space
    rw [List.length_append]
    exact space
  · intro poll member
    exact List.mem_append_left _ (keeps.known poll member)
  · intro g member output
    rw [pushed] at member
    rcases List.mem_append.mp member with before | added
    · exact keeps.unanswered g before output
    · cases List.mem_singleton.mp added
      exact keeps.unanswered_fresh fresh output
  · exact keeps.notAgain

theorem Keeps.pushFront {f : F}
    (keeps : Keeps lawful concurrent state ledger)
    (stepped : step ordered state (.pushFront f) = some next) :
    Keeps lawful concurrent next
      { ledger with queue := f :: ledger.queue } := by
  unfold step at stepped
  rw [Option.ite_none_right_eq_some, Option.some.injEq] at stepped
  obtain ⟨⟨fresh, space⟩, rfl⟩ := stepped
  obtain ⟨fits, pushed⟩ :=
    ConcurrentFutures.pushFront_spec lawful f keeps.fits space
  constructor
  · exact fits
  · exact .snoc keeps.replayed (.pushFront f)
  · rw [pushed]
    exact .cons (.polling f) keeps.matched
  · rw [← List.concat_eq_append]
    exact keeps.distinct.concat fresh
  · have grown := keeps.accounted.append_right [f]
    refine grown.trans ?_
    simp only [List.append_assoc]
    apply List.Perm.append_left
    rw [← List.append_assoc]
    exact List.perm_append_singleton f _
  · exact keeps.length_lt space
  · intro poll member
    exact List.mem_append_left _ (keeps.known poll member)
  · intro g member output
    rw [pushed] at member
    rcases List.mem_cons.mp member with added | before
    · cases added
      exact keeps.unanswered_fresh fresh output
    · exact keeps.unanswered g before output
  · exact keeps.notAgain

theorem Keeps.clear (keeps : Keeps lawful concurrent state ledger)
    (stepped : step ordered state .clear = some next) :
    Keeps lawful concurrent next
      { ledger with
        queue := []
        dropped := ledger.dropped ++ ledger.queue } := by
  cases stepped
  obtain ⟨fits, nothing⟩ := ConcurrentFutures.clear_spec lawful keeps.fits
  constructor
  · exact fits
  · exact .snoc keeps.replayed .clear
  · rw [nothing]
    exact .nil
  · exact keeps.distinct
  · refine keeps.accounted.trans ?_
    simp only [List.append_assoc, List.nil_append]
    apply List.Perm.append_left
    exact List.perm_append_comm
  · exact Nat.zero_le _
  · exact keeps.known
  · intro f member
    rw [nothing] at member
    cases member
  · exact keeps.notAgain

theorem Keeps.complete {f : F} {output : O}
    (keeps : Keeps lawful concurrent state ledger)
    (stepped : step ordered state (.complete f output) = some next) :
    Keeps lawful concurrent next ledger := by
  unfold step at stepped
  rw [Option.ite_none_right_eq_some, Option.some.injEq] at stepped
  obtain ⟨unready, rfl⟩ := stepped
  have grows : ∀ g value, state.completed g = some value →
      Function.update state.completed f (some output) g = some value := by
    intro g value finished
    by_cases same : g = f
    · rw [same, unready] at finished
      cases finished
    · rw [Function.update_of_ne same]
      exact finished
  constructor
  · exact keeps.fits
  · exact keeps.replayed.mono grows
  · apply keeps.matched.imp
    intro element g stands
    exact stands.mono grows
  · exact keeps.distinct
  · exact keeps.accounted
  · exact keeps.bounded
  · exact keeps.known
  · exact keeps.unanswered
  · exact keeps.notAgain

theorem Keeps.pollNext (keeps : Keeps lawful concurrent state ledger)
    (stepped : step ordered state .pollNext = some next) :
    ∃ after, Keeps lawful concurrent next after := by
  cases stepped
  obtain ⟨fits, spec⟩ := ConcurrentFutures.pollNext_spec lawful
    state.completed keeps.fits keeps.nodup_unfinished
  obtain ⟨after, answered, matched, leaves, dropped⟩ :=
    spec.queueStep keeps.matched
  refine ⟨after, ?_⟩
  constructor
  · exact fits
  · exact .snoc keeps.replayed answered
  · exact matched
  · exact keeps.distinct
  · rw [leaves, dropped]
    exact keeps.accounted
  · exact Nat.le_trans answered.length_le keeps.bounded
  · intro poll member
    rcases List.mem_append.mp member with before | new
    · exact keeps.known poll before
    · apply keeps.queue_subset
      have asked := (spec.asked poll new).1
      exact (unfinished_sublist keeps.matched).subset
        (mem_unfinished.mpr asked)
  · intro f member output polled
    obtain ⟨before, silent⟩ := spec.unfinished_after member
    rcases List.mem_append.mp polled with earlier | new
    · exact keeps.unanswered f before output earlier
    · exact silent output new
  · apply List.pairwise_append.mpr
    refine ⟨keeps.notAgain, spec.notAgain, ?_⟩
    intro earlier before later new answeredBefore same
    obtain ⟨output, answer⟩ := Option.isSome_iff_exists.mp answeredBefore
    have asked := (spec.asked later new).1
    rw [same] at asked
    apply keeps.unanswered earlier.1 asked output
    rw [← answer]
    exact before

theorem Keeps.step {event : FuturesEvent F O}
    (keeps : Keeps lawful concurrent state ledger)
    (stepped : step ordered state event = some next) :
    ∃ after, Keeps lawful concurrent next after := by
  cases event with
  | pushBack f => exact ⟨_, keeps.pushBack stepped⟩
  | pushFront f => exact ⟨_, keeps.pushFront stepped⟩
  | clear => exact ⟨_, keeps.clear stepped⟩
  | pollNext => exact keeps.pollNext stepped
  | complete f output => exact ⟨ledger, keeps.complete stepped⟩

theorem keeps_run {finish : FuturesSystem F O ordered.Queue}
    {events : List (FuturesEvent F O)} (lawful : ordered.Lawful)
    (ran : Automaton.run (FuturesSystem.step ordered)
      (start ordered concurrent) events = some finish) :
    ∃ ledger, Keeps lawful concurrent finish ledger := by
  have preserved : ∀ {state event next},
      (∃ ledger, Keeps lawful concurrent state ledger) →
      FuturesSystem.step ordered state event = some next →
      ∃ ledger, Keeps lawful concurrent next ledger := by
    intro state event next kept stepped
    obtain ⟨ledger, keeps⟩ := kept
    exact keeps.step stepped
  exact Automaton.run_invariant_of_forall preserved
    ⟨.empty, keeps_start lawful concurrent⟩ ran

/-! ## Two concurrencies -/

/-- Two systems that have answered alike so far. -/
def Alike (lawful : ordered.Lawful) (concurrent other : Nat)
    (left right : FuturesSystem F O ordered.Queue) : Prop :=
  (∃ ledger, Keeps lawful concurrent left ledger) ∧
    (∃ ledger, Keeps lawful other right ledger) ∧
    left.completed = right.completed ∧ left.calls = right.calls

theorem outcome_pollNext (keeps : Keeps lawful concurrent state ledger)
    (prompt : concurrent ≤ concurrentLargeThreshold ∨ lawful.Prompt) :
    (state.futures.pollNext ordered state.completed).2.2 =
      promptOutcome state.completed ledger.queue := by
  obtain ⟨_, spec⟩ := ConcurrentFutures.pollNext_spec lawful
    state.completed keeps.fits keeps.nodup_unfinished
  apply spec.outcome_eq keeps.matched
  intro f rest front
  exact ConcurrentFutures.front_polled lawful state.completed keeps.fits prompt
    front

/-- One event is answered alike when both poll the front future. -/
theorem Alike.step {other : Nat}
    {left right leftNext rightNext : FuturesSystem F O ordered.Queue}
    {event : FuturesEvent F O}
    (prompt : concurrent ≤ concurrentLargeThreshold ∨ lawful.Prompt)
    (otherPrompt : other ≤ concurrentLargeThreshold ∨ lawful.Prompt)
    (alike : Alike lawful concurrent other left right)
    (leftStep : FuturesSystem.step ordered left event = some leftNext)
    (rightStep : FuturesSystem.step ordered right event = some rightNext) :
    Alike lawful concurrent other leftNext rightNext := by
  obtain ⟨⟨leftLedger, leftKeeps⟩, ⟨rightLedger, rightKeeps⟩, completed,
    calls⟩ := alike
  refine ⟨leftKeeps.step leftStep, rightKeeps.step rightStep, ?_⟩
  cases event with
  | pushBack f =>
      unfold FuturesSystem.step at leftStep rightStep
      rw [Option.ite_none_right_eq_some, Option.some.injEq]
        at leftStep rightStep
      obtain ⟨_, rfl⟩ := leftStep
      obtain ⟨_, rfl⟩ := rightStep
      exact ⟨completed, by rw [calls]⟩
  | pushFront f =>
      unfold FuturesSystem.step at leftStep rightStep
      rw [Option.ite_none_right_eq_some, Option.some.injEq]
        at leftStep rightStep
      obtain ⟨_, rfl⟩ := leftStep
      obtain ⟨_, rfl⟩ := rightStep
      exact ⟨completed, by rw [calls]⟩
  | clear =>
      cases leftStep
      cases rightStep
      exact ⟨completed, by rw [calls]⟩
  | complete f output =>
      unfold FuturesSystem.step at leftStep rightStep
      rw [Option.ite_none_right_eq_some, Option.some.injEq]
        at leftStep rightStep
      obtain ⟨_, rfl⟩ := leftStep
      obtain ⟨_, rfl⟩ := rightStep
      exact ⟨by rw [completed], calls⟩
  | pollNext =>
      cases leftStep
      cases rightStep
      refine ⟨completed, ?_⟩
      have leftAnswer := outcome_pollNext leftKeeps prompt
      have rightAnswer := outcome_pollNext rightKeeps otherPrompt
      have replayed := leftKeeps.replayed
      rw [completed, calls] at replayed
      have ledgers := replayed.deterministic rightKeeps.replayed
      have same : (left.futures.pollNext ordered left.completed).2.2 =
          (right.futures.pollNext ordered right.completed).2.2 := by
        rw [leftAnswer, rightAnswer, ledgers, completed]
      show left.calls ++ [.polled
          (left.futures.pollNext ordered left.completed).2.2] =
        right.calls ++ [.polled
          (right.futures.pollNext ordered right.completed).2.2]
      rw [calls, same]

/-- What a run of the queue answers: the calls are those of the plain queue,
whatever the concurrency.  Every pushed future is yielded once, dropped or
still counted by `len`, and none is polled after it has finished.  Another
concurrency gives the same answers wherever it allows the same calls. -/
theorem concurrentFutures_ordered {finish : FuturesSystem F O ordered.Queue}
    {events : List (FuturesEvent F O)} (lawful : ordered.Lawful)
    (ran : Automaton.run (FuturesSystem.step ordered)
      (start ordered concurrent) events = some finish) :
    (∃ ledger, QueueRun finish.completed finish.calls ledger ∧
      finish.pushed.Perm (ledger.yielded ++ ledger.queue ++ ledger.dropped) ∧
      finish.pushed.Nodup ∧
      finish.futures.len ordered = ledger.queue.length ∧
      finish.futures.remaining ordered =
        some (concurrent - ledger.queue.length)) ∧
    NeverPolledAgain finish.polls ∧
    ∀ other otherFinish,
      Automaton.run (FuturesSystem.step ordered) (start ordered other) events =
        some otherFinish →
      (max concurrent other ≤ concurrentLargeThreshold ∨ lawful.Prompt) →
      otherFinish.calls = finish.calls := by
  obtain ⟨ledger, keeps⟩ := keeps_run lawful ran
  refine ⟨⟨ledger, keeps.replayed, keeps.accounted, keeps.distinct,
    keeps.len_eq, ?_⟩, keeps.notAgain, ?_⟩
  · unfold ConcurrentFutures.remaining checkedSub
    rw [keeps.len_eq, keeps.fits.1, if_pos keeps.bounded]
  · intro other otherFinish otherRan condition
    have prompt : concurrent ≤ concurrentLargeThreshold ∨ lawful.Prompt := by
      apply condition.imp_left
      intro few
      omega
    have otherPrompt : other ≤ concurrentLargeThreshold ∨ lawful.Prompt := by
      apply condition.imp_left
      intro few
      omega
    have preserved : ∀ {left right event leftNext rightNext},
        Alike lawful concurrent other left right →
        FuturesSystem.step ordered left event = some leftNext →
        FuturesSystem.step ordered right event = some rightNext →
        Alike lawful concurrent other leftNext rightNext := by
      intro left right event leftNext rightNext alike leftStep rightStep
      exact alike.step prompt otherPrompt leftStep rightStep
    have initially : Alike lawful concurrent other (start ordered concurrent)
        (start ordered other) :=
      ⟨⟨_, keeps_start lawful concurrent⟩, ⟨_, keeps_start lawful other⟩,
        rfl, rfl⟩
    have finally_ := Automaton.run_related preserved initially ran otherRan
    exact finally_.2.2.2.symm

end FuturesSystem

/-- An ordered queue that polls all of its unfinished futures every time. -/
def FuturesOrdered.pollingAll (F O : Type) : FuturesOrdered F O :=
  { Queue := List (TaskResult F O)
    new := []
    len := List.length
    pushBack := fun tasks f => tasks ++ [.polling f]
    pushFront := fun tasks f => .polling f :: tasks
    pollNext := fun completed tasks =>
      let (polled, polls) := ConcurrentFutures.pollAll completed tasks
      let (rest, outcome) := ConcurrentFutures.pickFront polled
      (rest, polls, outcome) }

def FuturesOrdered.lawful_pollingAll (F O : Type) [DecidableEq F] :
    (pollingAll F O).Lawful :=
  { view := id
    new := rfl
    len := fun _ => rfl
    pushBack := fun _ _ => rfl
    pushFront := fun _ _ => rfl
    pollNext := fun _ _ distinct => ConcurrentFutures.small_pollSpec distinct }

namespace FuturesSystem

/-- The second future becomes ready first; its output is parked until the
first one has been yielded. -/
def overtaking : List (FuturesEvent Nat Bool) :=
  [.pushBack 0, .pushBack 1, .complete 1 true, .pollNext, .complete 0 false,
    .pollNext, .pollNext, .pollNext]

/-- The calls of `overtaking` with their answers. -/
theorem concurrentFutures_ordered_overtaking :
    ∃ finish, Automaton.run (step (FuturesOrdered.pollingAll Nat Bool))
        (start (FuturesOrdered.pollingAll Nat Bool) 9) overtaking =
          some finish ∧
      finish.calls = [.pushBack 0, .pushBack 1, .polled .pending,
        .polled (.ready (some false)), .polled (.ready (some true)),
        .polled (.ready none)] ∧
      (∃ ledger, QueueRun finish.completed finish.calls ledger ∧
        finish.futures.len (FuturesOrdered.pollingAll Nat Bool) =
          ledger.queue.length) ∧
      NeverPolledAgain finish.polls := by
  have answered : (Automaton.run
      (step (FuturesOrdered.pollingAll Nat Bool))
      (start (FuturesOrdered.pollingAll Nat Bool) 9) overtaking).map
        FuturesSystem.calls =
      some [.pushBack 0, .pushBack 1, .polled .pending,
        .polled (.ready (some false)), .polled (.ready (some true)),
        .polled (.ready none)] := by
    rfl
  obtain ⟨finish, ran, calls⟩ := Option.map_eq_some_iff.mp answered
  obtain ⟨⟨ledger, replayed, _, _, length, _⟩, notAgain, _⟩ :=
    concurrentFutures_ordered
      (FuturesOrdered.lawful_pollingAll Nat Bool) ran
  exact ⟨finish, ran, calls, ⟨ledger, replayed, length⟩, notAgain⟩

end FuturesSystem

end OpenDal
