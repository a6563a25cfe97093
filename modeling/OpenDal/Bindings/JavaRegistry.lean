import Mathlib.Logic.Function.Basic
import OpenDal.Automaton

/-!
# The registry of futures in the Java binding

A native call puts a new future into the registry, under an id that is drawn at
random, and spawns a task.  The task finds the future by the id when it has
finished, and so does the caller when the native call has returned.  The caller
hangs the removal of the entry onto the future.

Tasks and callers take their steps in any order.  The invariant is that an
entry stays where it is until its own future has been taken and completed.
Whoever has taken a future can complete it too, and then the id is free while
the task still runs.
-/

namespace OpenDal

namespace AsyncRegistry

/-- The native side of a request. -/
inductive Task (T : Type) where
  /-- The id is drawn, and the arguments are being converted. -/
  | requested
  /-- An argument could not be converted, so there is no task. -/
  | refused
  | running
  /-- The future that has been found, and what it is completed with. -/
  | found (future : Option Nat) (outcome : T)
  | done
  /-- No future was found, which is a panic of the task. -/
  | lost
  /-- The task has panicked before it could complete the future. -/
  | crashed

/-- A request and its future. -/
structure Request (T : Type) where
  id : Int
  task : Task T
  /-- What `take` has returned. -/
  taken : Option (Option Nat)
  outcome : Option T
  /-- The entries that are removed when the future is complete. -/
  hooks : List Int
  /-- What the operation has come to. -/
  answer : Option T
  /-- What somebody else has completed the future with. -/
  given : Option T

def Request.new {T : Type} (id : Int) : Request T :=
  { id
    task := .requested
    taken := none
    outcome := none
    hooks := []
    answer := none
    given := none }

/-- `CompletableFuture::complete`, which only the first time does anything. -/
def Request.complete {T : Type} (self : Request T) (outcome : T) :
    Request T :=
  { self with outcome := self.outcome <|> some outcome }

inductive Event (T : Type) where
  /-- `requestId`, which draws ids until one is not in the registry. -/
  | request (ids : List Int)
  | refuse (i : Nat)
  | spawn (i : Nat)
  /-- The operation has returned, and `complete_future` looks up the future. -/
  | finish (i : Nat) (outcome : T)
  | complete (i : Nat)
  | crash (i : Nat)
  | take (i : Nat)
  /-- Somebody who has taken the future completes or cancels it. -/
  | settle (i : Nat) (outcome : T)
  | runHook (i : Nat)

end AsyncRegistry

open AsyncRegistry in
/-- The requests in the order in which they are made; a future has the number
of its request. -/
structure AsyncRegistry (T : Type) where
  registry : Int → Option Nat
  requests : List (Request T)

namespace AsyncRegistry

variable {T : Type}

def new : AsyncRegistry T :=
  { registry := fun _ => none
    requests := [] }

def modify (self : AsyncRegistry T) (i : Nat)
    (change : Request T → Request T) : AsyncRegistry T :=
  { self with requests := self.requests.modify i change }

def put (self : AsyncRegistry T) (id : Int) (future : Option Nat) :
    AsyncRegistry T :=
  { self with registry := Function.update self.registry id future }

/-- The id that `requestId` returns. -/
def draw (self : AsyncRegistry T) (ids : List Int) : Option Int :=
  ids.find? fun id => (self.registry id).isNone

/-- Put the task into another phase. -/
def enter (self : AsyncRegistry T) (i : Nat) (task : Task T) :
    AsyncRegistry T :=
  self.modify i fun r => { r with task }

def step (self : AsyncRegistry T) : Event T → Option (AsyncRegistry T)
  | .request ids => do
      let id ← self.draw ids
      let later := self.put id (some self.requests.length)
      some { later with requests := self.requests ++ [.new id] }
  | .refuse i => do
      let r ← self.requests[i]?
      match r.task with
      | .requested => some (self.enter i .refused)
      | _ => none
  | .spawn i => do
      let r ← self.requests[i]?
      match r.task with
      | .requested => some (self.enter i .running)
      | _ => none
  | .finish i outcome => do
      let r ← self.requests[i]?
      match r.task with
      | .running => some (self.modify i fun r =>
          { r with
            task := .found (self.registry r.id) outcome
            answer := some outcome })
      | _ => none
  | .complete i => do
      let r ← self.requests[i]?
      match r.task with
      | .found (some j) outcome =>
          some ((self.modify j fun r => r.complete outcome).enter i .done)
      | .found none _ => some (self.enter i .lost)
      | _ => none
  | .crash i => do
      let r ← self.requests[i]?
      match r.task with
      | .running => some (self.enter i .crashed)
      | .found _ _ => some (self.enter i .crashed)
      | _ => none
  | .take i => do
      let r ← self.requests[i]?
      match r.task, r.taken with
      | .requested, _ => none
      | .refused, _ => none
      | _, some _ => none
      | _, none =>
          let future := self.registry r.id
          let later := self.modify i fun r => { r with taken := some future }
          match future with
          | none => some later
          | some j =>
              some (later.modify j fun f =>
                { f with hooks := f.hooks ++ [r.id] })
  | .settle i outcome => do
      let f ← self.requests[i]?
      if self.requests.any fun r => r.taken == some (some i) then
        match f.outcome with
        | some _ => some self
        | none => some (self.modify i fun f =>
            { f.complete outcome with given := some outcome })
      else
        none
  | .runHook i => do
      let f ← self.requests[i]?
      match f.outcome, f.hooks with
      | some _, id :: hooks =>
          some ((self.put id none).modify i fun f => { f with hooks })
      | _, _ => none

/-! ## What holds of a request -/

def Task.IsBusy : Task T → Prop
  | .running => True
  | .found _ _ => True
  | _ => False

/-- The phase of the task fits to the rest of the request. -/
def Task.Fits (i : Nat) (r : Request T) : Task T → Prop
  | .requested => r.taken = none ∧ r.answer = none
  | .refused => r.taken = none
  | .running => r.answer = none
  | .found future outcome => r.answer = some outcome ∧
      (future = some i ∨ future = none ∧ r.given ≠ none)
  | .done => r.outcome ≠ none
  | .lost => r.given ≠ none
  | .crashed => True

/-- Request `i` has its own future, and its entry is there until the future has
been taken, completed and removed. -/
structure Request.Sound (registry : Int → Option Nat) (i : Nat)
    (r : Request T) : Prop where
  own : ∀ future, r.taken = some future → future = some i
  outcome : ∀ v, r.outcome = some v → r.answer = some v ∨ r.given = some v
  settled : r.outcome ≠ none → r.given ≠ none ∨ r.task = .done
  given : r.given ≠ none → r.outcome ≠ none
  task : r.task.Fits i r
  present : registry r.id = some i ∨
    r.taken ≠ none ∧ r.hooks = [] ∧ r.outcome ≠ none
  hooked : r.hooks ≠ [] → r.hooks = [r.id] ∧ registry r.id = some i ∧
    r.taken ≠ none
  cleared : r.taken ≠ none → r.hooks = [] → registry r.id ≠ some i
  -- a busy task never finds the future of another request
  busy : r.task.IsBusy → registry r.id = some i ∨ registry r.id = none

structure Sound (state : AsyncRegistry T) : Prop where
  entry : ∀ id i, state.registry id = some i →
    ∃ r, state.requests[i]? = some r ∧ r.id = id
  request : ∀ i (r : Request T), state.requests[i]? = some r →
    r.Sound state.registry i

variable {state later : AsyncRegistry T} {i j : Nat} {r : Request T}

@[simp] theorem registry_modify (state : AsyncRegistry T) (i : Nat)
    (change : Request T → Request T) :
    (state.modify i change).registry = state.registry :=
  rfl

theorem requests_modify (found : state.requests[i]? = some r)
    (change : Request T → Request T) (j : Nat) :
    (state.modify i change).requests[j]? =
      if i = j then some (change r) else state.requests[j]? := by
  rw [modify, List.getElem?_modify]
  split
  · rename_i same
    rw [← same, found]
    rfl
  · cases state.requests[j]? <;> rfl

theorem requests_enter (found : state.requests[i]? = some r) (task : Task T)
    (j : Nat) : (state.enter i task).requests[j]? =
      if i = j then some { r with task } else state.requests[j]? :=
  requests_modify found _ j

theorem sound_new : (new : AsyncRegistry T).Sound where
  entry := by simp [new]
  request := by simp [new]

theorem Sound.change (sound : state.Sound) (r' : Request T)
    (found : state.requests[i]? = some r) (same : r'.id = r.id)
    (now : r'.Sound state.registry i)
    (entries : later.registry = state.registry)
    (changed : ∀ j, later.requests[j]? =
      if i = j then some r' else state.requests[j]?) : later.Sound where
  entry := by
    intro id j known
    rw [entries] at known
    obtain ⟨other, there, named⟩ := sound.entry id j known
    rw [changed]
    split
    · rename_i here
      subst here
      cases found.symm.trans there
      exact ⟨r', rfl, same.trans named⟩
    · exact ⟨other, there, named⟩
  request := by
    intro j other there
    rw [changed] at there
    rw [entries]
    split at there
    · rename_i here
      cases there
      exact here ▸ now
    · exact sound.request j other there

theorem Sound.enter (sound : state.Sound)
    (found : state.requests[i]? = some r) {task : Task T}
    (pending : r.task ≠ .done) (fits : task.Fits i r)
    (busy : task.IsBusy →
      state.registry r.id = some i ∨ state.registry r.id = none) :
    (state.enter i task).Sound := by
  have before := sound.request i r found
  refine sound.change { r with task } found rfl ?_ rfl
    (requests_enter found task)
  exact
    { before with
      task := fits
      busy
      settled := fun complete =>
        .inl ((before.settled complete).resolve_right pending) }

theorem Request.Sound.congr {registry other : Int → Option Nat}
    (sound : r.Sound registry i) (same : other r.id = registry r.id) :
    r.Sound other i :=
  { sound with
    present := by rw [same]; exact sound.present
    hooked := by rw [same]; exact sound.hooked
    cleared := by rw [same]; exact sound.cleared
    busy := by rw [same]; exact sound.busy }

theorem Request.Sound.gone {registry other : Int → Option Nat}
    (sound : r.Sound registry i) (gone : registry r.id ≠ some i)
    (still : other r.id ≠ some i) (busy : r.task.IsBusy → other r.id = none) :
    r.Sound other i :=
  { sound with
    present := .inr (sound.present.resolve_left gone)
    hooked := fun hooked => absurd (sound.hooked hooked).2.1 gone
    cleared := fun _ _ => still
    busy := fun running => .inr (busy running) }

/-! ## The steps -/

/-- The id of a new request is not that of one whose task is busy. -/
def Event.Fresh (state : AsyncRegistry T) : Event T → Prop
  | .request ids => ∀ id, state.draw ids = some id →
      ∀ r ∈ state.requests, r.task.IsBusy → r.id ≠ id
  | _ => True

theorem Request.Sound.entry {registry : Int → Option Nat}
    (sound : r.Sound registry i) (untaken : r.taken = none) :
    registry r.id = some i ∧ r.hooks = [] := by
  refine ⟨sound.present.resolve_right fun gone => gone.1 untaken, ?_⟩
  by_contra hooked
  exact (sound.hooked hooked).2.2 untaken

theorem Sound.step_request (sound : state.Sound) {ids : List Int}
    (fresh : (Event.request ids).Fresh state)
    (stepped : state.step (.request ids) = some later) : later.Sound := by
  obtain ⟨id, drawn, same⟩ := Option.bind_eq_some_iff.mp stepped
  cases same
  have free : state.registry id = none := by
    simpa using List.find?_some drawn
  have new : ∀ j, (state.requests ++ [Request.new id])[j]? =
      if j = state.requests.length then some (Request.new id)
      else state.requests[j]? := by
    intro j
    rw [List.getElem?_append]
    split
    · rw [if_neg (by omega)]
    · split
      · rename_i last
        simp [last]
      · rw [List.getElem?_eq_none (by simp; omega),
          List.getElem?_eq_none (by omega)]
  constructor
  · intro other j known
    simp only [put, Function.update_apply] at known
    rw [new]
    split at known
    · rename_i here
      cases known
      exact ⟨_, if_pos rfl, here.symm⟩
    · obtain ⟨r, there, named⟩ := sound.entry other j known
      have inside := (List.getElem?_eq_some_iff.mp there).1
      exact ⟨r, by rw [if_neg (by omega)]; exact there, named⟩
  · intro j r there
    rw [new] at there
    split at there
    · rename_i last
      cases there
      subst last
      constructor <;> simp [Request.new, put, Task.Fits, Task.IsBusy]
    · have before := sound.request j r there
      have inside := (List.getElem?_eq_some_iff.mp there).1
      by_cases shared : r.id = id
      · have gone : state.registry r.id ≠ some j := by simp [shared, free]
        refine before.gone gone ?_ fun busy => absurd shared
          (fresh id drawn r (List.mem_of_getElem? there) busy)
        simp only [put, shared, Function.update_self, ne_eq,
          Option.some.injEq]
        omega
      · exact before.congr (by simp [put, shared])

theorem Sound.step_spawn (sound : state.Sound)
    (stepped : state.step (.spawn i) = some later) : later.Sound := by
  obtain ⟨r, found, stepped⟩ := Option.bind_eq_some_iff.mp stepped
  have before := sound.request i r found
  have fits := before.task
  split at stepped
  · rename_i requested
    rw [requested] at fits
    cases stepped
    exact sound.enter found (by simp [requested]) fits.2
      fun _ => .inl (before.entry fits.1).1
  · cases stepped

theorem Sound.step_refuse (sound : state.Sound)
    (stepped : state.step (.refuse i) = some later) : later.Sound := by
  obtain ⟨r, found, stepped⟩ := Option.bind_eq_some_iff.mp stepped
  have fits := (sound.request i r found).task
  split at stepped
  · rename_i requested
    rw [requested] at fits
    cases stepped
    exact sound.enter found (by simp [requested]) fits.1 (by simp [Task.IsBusy])
  · cases stepped

theorem Sound.step_crash (sound : state.Sound)
    (stepped : state.step (.crash i) = some later) : later.Sound := by
  obtain ⟨r, found, stepped⟩ := Option.bind_eq_some_iff.mp stepped
  split at stepped
  · rename_i running
    cases stepped
    exact sound.enter found (by simp [running]) trivial (by simp [Task.IsBusy])
  · rename_i looked
    cases stepped
    exact sound.enter found (by simp [looked]) trivial (by simp [Task.IsBusy])
  · cases stepped

theorem Sound.step_finish (sound : state.Sound) {outcome : T}
    (stepped : state.step (.finish i outcome) = some later) : later.Sound := by
  obtain ⟨r, found, stepped⟩ := Option.bind_eq_some_iff.mp stepped
  have before := sound.request i r found
  have fits := before.task
  split at stepped
  · rename_i running
    rw [running] at fits
    cases stepped
    have given : r.outcome ≠ none → r.given ≠ none := by
      intro complete
      exact (before.settled complete).resolve_right (by simp [running])
    have busy := before.busy (by simp [running, Task.IsBusy])
    let r' : Request T :=
      { r with
        task := .found (state.registry r.id) outcome
        answer := some outcome }
    refine sound.change r' found rfl ?_ rfl (requests_modify found _)
    exact
      { before with
        outcome := by
          intro v complete
          rcases before.outcome v complete with answered | settled
          · cases fits.symm.trans answered
          · exact .inr settled
        settled := fun complete => .inl (given complete)
        task := by
          refine ⟨rfl, busy.imp_right fun gone => ⟨gone, ?_⟩⟩
          rcases before.present with here | finished
          · rw [gone] at here
            cases here
          · exact given finished.2.2
        busy := fun _ => busy }
  · cases stepped

theorem Sound.step_complete (sound : state.Sound)
    (stepped : state.step (.complete i) = some later) : later.Sound := by
  obtain ⟨r, found, stepped⟩ := Option.bind_eq_some_iff.mp stepped
  have before := sound.request i r found
  have fits := before.task
  split at stepped
  · rename_i j outcome looked
    rw [looked] at fits
    cases stepped
    obtain ⟨answered, same⟩ := fits
    obtain rfl : j = i := by simpa using same
    let r' : Request T := { r.complete outcome with task := .done }
    refine sound.change r' found rfl ?_ rfl ?_
    · have complete : r'.outcome ≠ none := by simp [r', Request.complete]
      exact
        { before with
          outcome := by
            intro v same
            cases earlier : r.outcome with
            | none =>
                simp only [r', Request.complete, earlier] at same
                exact .inl (answered.trans same)
            | some w =>
                simp only [r', Request.complete, earlier] at same
                exact before.outcome v (earlier.trans same)
          settled := fun _ => .inr rfl
          given := fun _ => complete
          task := complete
          present := before.present.imp_right fun gone =>
            ⟨gone.1, gone.2.1, complete⟩
          busy := False.elim }
    · intro k
      have once := requests_modify found fun r => r.complete outcome
      have here : (state.modify j fun r => r.complete outcome).requests[j]? =
          some (r.complete outcome) := by rw [once, if_pos rfl]
      rw [requests_enter here, once]
      split <;> rfl
  · rename_i looked
    rw [looked] at fits
    cases stepped
    have given : r.given ≠ none := by simpa using fits.2
    exact sound.enter found (by simp [looked]) given (by simp [Task.IsBusy])
  · cases stepped

theorem Sound.step_take (sound : state.Sound)
    (stepped : state.step (.take i) = some later) : later.Sound := by
  obtain ⟨r, found, stepped⟩ := Option.bind_eq_some_iff.mp stepped
  have before := sound.request i r found
  split at stepped
  · cases stepped
  · cases stepped
  · cases stepped
  · rename_i untaken unrequested unrefused
    obtain ⟨here, unhooked⟩ := before.entry untaken
    simp only [here] at stepped
    cases stepped
    let r' : Request T := { r with taken := some (some i), hooks := [r.id] }
    refine sound.change r' found rfl ?_ rfl ?_
    · exact
        { before with
          own := by
            intro future same
            cases same
            rfl
          task := by
            have fits := before.task
            show r.task.Fits i r'
            cases phase : r.task with
            | requested => exact absurd phase unrequested
            | refused => exact absurd phase unrefused
            | _ =>
                rw [phase] at fits
                exact fits
          present := .inl here
          hooked := fun _ => ⟨rfl, here, by simp [r']⟩
          cleared := by simp [r'] }
    · intro k
      have once := requests_modify found fun r =>
        { r with taken := some (some i) }
      have there : (state.modify i fun r =>
          { r with taken := some (some i) }).requests[i]? =
          some { r with taken := some (some i) } := by rw [once, if_pos rfl]
      rw [requests_modify there, once]
      split
      · simp [r', unhooked]
      · rfl

theorem Sound.step_settle (sound : state.Sound) {outcome : T}
    (stepped : state.step (.settle i outcome) = some later) : later.Sound := by
  obtain ⟨f, found, stepped⟩ := Option.bind_eq_some_iff.mp stepped
  have before := sound.request i f found
  split at stepped
  · rename_i known
    obtain ⟨taker, member, taken⟩ := List.any_eq_true.mp known
    obtain ⟨k, there⟩ := List.getElem?_of_mem member
    have own := (sound.request k taker there).own _ (by simpa using taken)
    obtain rfl : i = k := by simpa using own
    cases found.symm.trans there
    have taken : f.taken ≠ none := by
      rw [beq_iff_eq.mp taken]
      simp
    split at stepped
    · cases stepped
      exact sound
    · rename_i incomplete
      cases stepped
      let f' : Request T := { f.complete outcome with given := some outcome }
      refine sound.change f' found rfl ?_ rfl (requests_modify found _)
      have same : f'.outcome = some outcome := by
        simp [f', Request.complete, incomplete]
      have complete : f'.outcome ≠ none := by simp [same]
      exact
        { before with
          outcome := fun v given => .inr (same.symm.trans given)
          settled := fun _ => .inl (by simp [f'])
          given := fun _ => complete
          task := by
            have fits := before.task
            show f.task.Fits i f'
            cases phase : f.task with
            | requested =>
                rw [phase] at fits
                exact absurd fits.1 taken
            | refused =>
                rw [phase] at fits
                exact absurd fits taken
            | running =>
                rw [phase] at fits
                exact fits
            | found future v =>
                rw [phase] at fits
                exact ⟨fits.1, fits.2.imp_right fun gone =>
                  ⟨gone.1, by simp [f']⟩⟩
            | done => exact complete
            | lost => simp [Task.Fits, f']
            | crashed => trivial
          present := before.present.imp_right fun gone =>
            ⟨gone.1, gone.2.1, complete⟩ }
  · cases stepped

theorem Sound.step_runHook (sound : state.Sound)
    (stepped : state.step (.runHook i) = some later) : later.Sound := by
  obtain ⟨f, found, stepped⟩ := Option.bind_eq_some_iff.mp stepped
  have before := sound.request i f found
  split at stepped
  · rename_i v id hooks complete hooked
    obtain ⟨shape, here, taken⟩ := before.hooked (by simp [hooked])
    obtain ⟨rfl, rfl⟩ : id = f.id ∧ hooks = [] := by simpa [hooked] using shape
    cases stepped
    have there : (state.put f.id none).requests[i]? = some f := found
    have moved := requests_modify there fun f => { f with hooks := [] }
    constructor
    · intro id j known
      simp only [registry_modify, put, Function.update_apply] at known
      split at known
      · cases known
      · rename_i other
        obtain ⟨r, there, named⟩ := sound.entry id j known
        refine ⟨r, ?_, named⟩
        rw [moved]
        split
        · rename_i same
          subst same
          cases found.symm.trans there
          exact absurd named.symm other
        · exact there
    · intro j r there
      rw [moved] at there
      split at there
      · rename_i same
        cases there
        subst same
        exact
          { before with
            present := .inr ⟨taken, rfl, by simp [complete]⟩
            hooked := fun hooked => absurd rfl hooked
            cleared := fun _ _ => by simp [put]
            busy := fun _ => .inr (by simp [put]) }
      · have others := sound.request j r there
        by_cases shared : r.id = f.id
        · have gone : state.registry r.id ≠ some j := by
            rw [shared, here, ne_eq, Option.some.injEq]
            assumption
          exact others.gone gone (by simp [put, shared])
            fun _ => by simp [put, shared]
        · exact others.congr (by simp [put, shared])
  · cases stepped

theorem Sound.step (sound : state.Sound) {event : Event T}
    (fresh : event.Fresh state) (stepped : state.step event = some later) :
    later.Sound := by
  cases event with
  | request ids => exact sound.step_request fresh stepped
  | refuse i => exact sound.step_refuse stepped
  | spawn i => exact sound.step_spawn stepped
  | finish i outcome => exact sound.step_finish stepped
  | complete i => exact sound.step_complete stepped
  | crash i => exact sound.step_crash stepped
  | take i => exact sound.step_take stepped
  | settle i outcome => exact sound.step_settle stepped
  | runHook i => exact sound.step_runHook stepped

/-! ## Futures that only their tasks complete -/

/-- The event is none of somebody who completes a future that he has taken. -/
def Event.Unsettling : Event T → Prop
  | .settle _ _ => False
  | _ => True

def Unsettled (state : AsyncRegistry T) : Prop :=
  ∀ r ∈ state.requests, r.given = none

theorem Unsettled.modify (unsettled : state.Unsettled) (i : Nat)
    {change : Request T → Request T}
    (keeps : ∀ r, (change r).given = r.given) :
    (state.modify i change).Unsettled := by
  intro r member
  obtain ⟨j, there⟩ := List.getElem?_of_mem member
  rw [AsyncRegistry.modify, List.getElem?_modify] at there
  obtain ⟨before, found, rfl⟩ := Option.map_eq_some_iff.mp there
  have old := unsettled before (List.mem_of_getElem? found)
  split
  · exact (keeps before).trans old
  · exact old

theorem Unsettled.enter (unsettled : state.Unsettled) (i : Nat)
    (task : Task T) : (state.enter i task).Unsettled :=
  unsettled.modify i fun _ => rfl

theorem Unsettled.step (unsettled : state.Unsettled) {event : Event T}
    (unsettling : event.Unsettling) (stepped : state.step event = some later) :
    later.Unsettled := by
  cases event with
  | settle => exact unsettling.elim
  | request ids =>
      obtain ⟨id, _, same⟩ := Option.bind_eq_some_iff.mp stepped
      cases same
      intro r member
      rcases List.mem_append.mp member with old | new
      · exact unsettled r old
      · rw [List.mem_singleton.mp new]
        rfl
  | refuse i =>
      obtain ⟨r, _, stepped⟩ := Option.bind_eq_some_iff.mp stepped
      split at stepped <;> cases stepped
      exact unsettled.enter i _
  | spawn i =>
      obtain ⟨r, _, stepped⟩ := Option.bind_eq_some_iff.mp stepped
      split at stepped <;> cases stepped
      exact unsettled.enter i _
  | finish i outcome =>
      obtain ⟨r, _, stepped⟩ := Option.bind_eq_some_iff.mp stepped
      split at stepped <;> cases stepped
      exact unsettled.modify i fun _ => rfl
  | complete i =>
      obtain ⟨r, _, stepped⟩ := Option.bind_eq_some_iff.mp stepped
      split at stepped <;> cases stepped
      · refine Unsettled.enter ?_ i _
        exact unsettled.modify _ fun _ => rfl
      · exact unsettled.enter i _
  | crash i =>
      obtain ⟨r, _, stepped⟩ := Option.bind_eq_some_iff.mp stepped
      split at stepped <;> cases stepped
      · exact unsettled.enter i _
      · exact unsettled.enter i _
  | take i =>
      obtain ⟨r, _, stepped⟩ := Option.bind_eq_some_iff.mp stepped
      split at stepped
      · cases stepped
      · cases stepped
      · cases stepped
      · simp only at stepped
        split at stepped <;> cases stepped
        · exact unsettled.modify i fun _ => rfl
        · refine Unsettled.modify ?_ _ fun _ => rfl
          exact unsettled.modify i fun _ => rfl
  | runHook i =>
      obtain ⟨r, _, stepped⟩ := Option.bind_eq_some_iff.mp stepped
      split at stepped <;> cases stepped
      have put : (state.put r.id none).Unsettled := unsettled
      exact put.modify i fun _ => rfl

/-- As long as nobody else completes a future, a busy task has its entry, and
its id is not drawn again. -/
theorem Sound.fresh (sound : state.Sound) (unsettled : state.Unsettled)
    (event : Event T) : event.Fresh state := by
  cases event with
  | request ids =>
      intro id drawn r member busy same
      obtain ⟨i, there⟩ := List.getElem?_of_mem member
      have before := sound.request i r there
      have free : state.registry id = none := by
        simpa using List.find?_some drawn
      have incomplete : ¬ r.outcome ≠ none := by
        intro complete
        rcases before.settled complete with given | done
        · exact given (unsettled r member)
        · rw [done] at busy
          exact busy
      have here := before.present.resolve_right
        fun gone => incomplete gone.2.2
      rw [same, free] at here
      cases here
  | _ => trivial

/-! ## All interleavings -/

/-- Nobody has anything left to do. -/
def Idle (state : AsyncRegistry T) : Prop :=
  ∀ r ∈ state.requests,
    ¬ r.task.IsBusy ∧ r.task ≠ .requested ∧
      (r.task ≠ .refused → r.taken ≠ none) ∧ (r.outcome ≠ none → r.hooks = [])

/-- Every request gets its own future.  It is completed with what the operation
has come to, unless whoever has taken it completes it before, and it is
completed unless the task panics for another reason.  In the end nothing is
left in the registry but the futures of refused requests and crashed tasks.

The ids can be any, as long as nobody but the tasks completes the futures;
otherwise no request must draw the id of a task that is still busy. -/
theorem answers_own {events : List (Event T)} {state : AsyncRegistry T}
    (admissible : (∀ event ∈ events, event.Unsettling) ∨
      Automaton.Along step (fun state event => event.Fresh state) new events)
    (ran : Automaton.run step new events = some state) :
    (∀ i (r : Request T), state.requests[i]? = some r →
      (∀ future, r.taken = some future → future = some i) ∧
      (∀ v, r.outcome = some v → r.answer = some v ∨ r.given = some v) ∧
      (r.task = .done → r.outcome ≠ none) ∧
      (r.task = .lost → r.given ≠ none) ∧
      (state.registry r.id = some i ∨ r.taken ≠ none ∧ r.outcome ≠ none)) ∧
    (state.Idle → ∀ id i, state.registry id = some i →
      ∃ r, state.requests[i]? = some r ∧ r.id = id ∧
        (r.task = .refused ∨ r.task = .crashed)) := by
  have sound : state.Sound := by
    rcases admissible with unsettling | fresh
    · have preserved : ∀ {state later : AsyncRegistry T} {event : Event T},
          state.Sound ∧ state.Unsettled → event.Unsettling →
            state.step event = some later →
              later.Sound ∧ later.Unsettled := by
        rintro state later event ⟨sound, unsettled⟩ allowed stepped
        exact ⟨sound.step (sound.fresh unsettled event) stepped,
          unsettled.step allowed stepped⟩
      have start : (new : AsyncRegistry T).Sound ∧
          (new : AsyncRegistry T).Unsettled :=
        ⟨sound_new, by simp [Unsettled, new]⟩
      have both := Automaton.run_invariant preserved start unsettling ran
      exact both.1
    · exact Automaton.run_invariant_along (fun sound => sound.step) sound_new
        fresh ran
  constructor
  · intro i r there
    have holds := sound.request i r there
    have fits := holds.task
    refine ⟨holds.own, holds.outcome, ?_, ?_,
      holds.present.imp_right fun gone => ⟨gone.1, gone.2.2⟩⟩
    · intro done
      rwa [done] at fits
    · intro lost
      rwa [lost] at fits
  · intro idle id i known
    obtain ⟨r, there, rfl⟩ := sound.entry id i known
    have holds := sound.request i r there
    obtain ⟨rest, begun, taken, hooks⟩ := idle r (List.mem_of_getElem? there)
    refine ⟨r, there, rfl, ?_⟩
    by_contra neither
    rw [not_or] at neither
    have took := taken neither.1
    have fits := holds.task
    have complete : r.outcome ≠ none := by
      cases phase : r.task with
      | requested => exact absurd phase begun
      | refused => exact absurd phase neither.1
      | running => exact absurd (by simp [phase, Task.IsBusy]) rest
      | found => exact absurd (by simp [phase, Task.IsBusy]) rest
      | done =>
          rwa [phase] at fits
      | lost =>
          rw [phase] at fits
          exact holds.given fits
      | crashed => exact absurd phase neither.2
    exact holds.cleared took (hooks complete) known

/-- Two requests, of which the second finishes before the first.  The third
cannot convert its arguments, and the second draws an id that is in use. -/
def twoAnswers : List (Event String) :=
  [.request [5], .spawn 0, .request [5, 7], .spawn 1, .finish 1 "second",
    .complete 1, .take 0, .take 1, .request [9], .refuse 2, .runHook 1,
    .finish 0 "first", .complete 0, .runHook 0]

theorem answers_own_two :
    ∃ state : AsyncRegistry String,
      Automaton.run step new twoAnswers = some state ∧
        (state.requests.map Request.outcome =
          [some "first", some "second", none]) ∧
        state.registry 9 = some 2 ∧
        ∀ (i : Nat) (r : Request String), state.requests[i]? = some r →
          ∀ v, r.outcome = some v → r.answer = some v ∨ r.given = some v := by
  obtain ⟨state, ran, outcomes, left⟩ : ∃ state : AsyncRegistry String,
      Automaton.run step new twoAnswers = some state ∧
        state.requests.map Request.outcome =
          [some "first", some "second", none] ∧
        state.registry 9 = some 2 :=
    ⟨_, rfl, rfl, rfl⟩
  have unsettling : ∀ event ∈ twoAnswers, event.Unsettling := by
    simp [twoAnswers, Event.Unsettling]
  have answers := (answers_own (.inl unsettling) ran).1
  exact ⟨state, ran, outcomes, left, fun i r there =>
    (answers i r there).2.1⟩

-- a cancelled request and one that draws its id get mixed up
example : (Automaton.run step (new : AsyncRegistry String)
    [.request [5], .spawn 0, .take 0, .settle 0 "cancelled", .runHook 0,
      .request [5], .spawn 1, .take 1, .finish 0 "first", .complete 0]).map
    (fun state => state.requests.map Request.outcome) =
    some [some "cancelled", some "first"] := rfl

end AsyncRegistry

end OpenDal
