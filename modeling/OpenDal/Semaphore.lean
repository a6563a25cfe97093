import Mathlib.Data.List.Basic

/-!
# The semaphore of `tokio`

A semaphore has a number of permits.  A future that acquires one waits until it
gets it, and a permit comes back when it is dropped.

`tokio::sync::Semaphore` is a parameter.  `Semaphore.Lawful` is what its
documentation promises, relative to the permits that are held and the futures
that wait.  Nobody closes the semaphore, so `acquire` has no error.
-/

namespace OpenDal

/-- The operations of `Semaphore` that the layer uses.  A future of `acquire` is
known by the number of its call; polling it says whether it has its permit. -/
structure Semaphore where
  State : Type
  new : Nat → State
  pollAcquire : State → Nat → State × Bool
  dropAcquire : State → Nat → State
  tryAcquire : State → Option State
  dropPermit : State → State

/-- What a semaphore keeps account of. -/
structure Semaphore.Ledger where
  permits : Nat
  /-- The permits that have been acquired and not dropped. -/
  held : Nat
  /-- The futures that have been polled and have no permit, in the order of
  their requests. -/
  waiting : List Nat

namespace Semaphore.Ledger

/-- There is a permit for future `i` besides those of the futures ahead. -/
def serves (self : Ledger) (i : Nat) : Bool :=
  decide (self.held + self.waiting.idxOf i < self.permits)

/-- There is a permit that nobody waits for. -/
def hasLeft (self : Ledger) : Bool :=
  decide (self.held + self.waiting.length < self.permits)

def grant (self : Ledger) : Ledger :=
  { self with held := self.held + 1 }

def leave (self : Ledger) (i : Nat) : Ledger :=
  { self with waiting := self.waiting.erase i }

def join (self : Ledger) (i : Nat) : Ledger :=
  if i ∈ self.waiting then
    self
  else
    { self with waiting := self.waiting ++ [i] }

def giveBack (self : Ledger) : Ledger :=
  { self with held := self.held - 1 }

end Semaphore.Ledger

/-- What the documentation of `Semaphore` promises. -/
structure Semaphore.Lawful (semaphore : Semaphore) where
  view : semaphore.State → Ledger
  new : ∀ permits, view (semaphore.new permits) =
    { permits
      held := 0
      waiting := [] }
  /-- Permits are given out in the order they were requested. -/
  pollAcquire : ∀ state i,
    Prod.map view id (semaphore.pollAcquire state i) =
      if (view state).serves i then
        (((view state).leave i).grant, true)
      else
        ((view state).join i, false)
  dropAcquire : ∀ state, ∀ i ∈ (view state).waiting,
    view (semaphore.dropAcquire state i) = (view state).leave i
  /-- `NoPermits` is returned if there are no permits left. -/
  tryAcquire : ∀ state, (semaphore.tryAcquire state).map view =
    if (view state).hasLeft then some (view state).grant else none
  dropPermit : ∀ state, 0 < (view state).held →
    view (semaphore.dropPermit state) = (view state).giveBack

namespace Semaphore.Ledger

variable {self : Ledger} {i : Nat}

theorem join_of_mem (member : i ∈ self.waiting) : self.join i = self := by
  simp [join, member]

theorem serves_join (self : Ledger) (i : Nat) :
    (self.join i).serves i = self.serves i := by
  unfold join
  split
  · rfl
  · next fresh =>
      simp [serves, List.idxOf_append_of_notMem fresh,
        List.idxOf_eq_length fresh]

theorem leave_join (self : Ledger) (i : Nat) :
    (self.join i).leave i = self.leave i := by
  unfold join
  split
  · rfl
  · next fresh =>
      simp [leave, List.erase_append_right _ fresh,
        List.erase_of_not_mem fresh]

end Semaphore.Ledger

/-- The semaphore that is its own account. -/
def Semaphore.fair : Semaphore where
  State := Semaphore.Ledger
  new := fun permits =>
    { permits
      held := 0
      waiting := [] }
  pollAcquire := fun state i =>
    if state.serves i then ((state.leave i).grant, true)
    else (state.join i, false)
  dropAcquire := Semaphore.Ledger.leave
  tryAcquire := fun state =>
    if state.hasLeft then some state.grant else none
  dropPermit := Semaphore.Ledger.giveBack

def Semaphore.lawfulFair : Semaphore.fair.Lawful where
  view := id
  new := fun _ => rfl
  pollAcquire := fun _ _ => rfl
  dropAcquire := fun _ _ _ => rfl
  tryAcquire := fun _ => congrFun Option.map_id _
  dropPermit := fun _ _ => rfl

end OpenDal
