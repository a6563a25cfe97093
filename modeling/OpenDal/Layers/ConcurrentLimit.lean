import OpenDal.Automaton
import OpenDal.Semaphore

/-!
# `ConcurrentLimitLayer`

Most calls of an accessor take a permit before they reach the service.  A call
that returns a handle leaves its permit with the handle, which gives it back
when it is dropped.

A run is any order in which calls are made, polled, answered and dropped.  The
futures wait for their permits; a blocking call that finds none panics.
-/

namespace OpenDal

open Automaton

/-- The functions of `Access`. -/
inductive AccessFunction where
  | createDir
  | read
  | write
  | copy
  | rename
  | stat
  | delete
  | list
  | presign
deriving DecidableEq, Repr

namespace AccessFunction

/-- The layer does not touch `copy`, `rename` and `presign`. -/
def takesPermit : AccessFunction → Bool
  | .createDir => true
  | .read => true
  | .write => true
  | .stat => true
  | .delete => true
  | .list => true
  | .copy => false
  | .rename => false
  | .presign => false

/-- The answer is a `ConcurrentLimitWrapper`, which holds the permit. -/
def keepsPermit : AccessFunction → Bool
  | .read => true
  | .write => true
  | .delete => true
  | .list => true
  | _ => false

def isBlocking : AccessFunction → Bool
  | .presign => false
  | _ => true

theorem takesPermit_of_keepsPermit {function : AccessFunction}
    (keeps : function.keepsPermit = true) : function.takesPermit = true := by
  cases function <;> first | rfl | cases keeps

end AccessFunction

section

/-! ## One element of a list -/

variable {α β : Type} {p : α → Bool} {f : α → α} {l : List α} {a : α} {i : Nat}

theorem countP_modify (found : l[i]? = some a) :
    (l.modify i f).countP p + (p a).toNat = l.countP p + (p (f a)).toNat := by
  induction l generalizing i with
  | nil => simp at found
  | cons first l induction =>
      cases i with
      | zero =>
          simp only [List.getElem?_cons_zero, Option.some.injEq] at found
          subst found
          simp only [List.modify_zero_cons, List.countP_cons]
          cases p first <;> cases p (f first) <;> simp
      | succ i =>
          simp only [List.getElem?_cons_succ] at found
          have rest := induction found
          simp only [List.modify_succ_cons, List.countP_cons]
          omega

theorem filter_modify_perm (found : l[i]? = some a)
    (before : p a = false) (after : p (f a) = true) :
    ((l.modify i f).filter p).Perm (l.filter p ++ [f a]) := by
  induction l generalizing i with
  | nil => simp at found
  | cons first l induction =>
      cases i with
      | zero =>
          simp only [List.getElem?_cons_zero, Option.some.injEq] at found
          subst found
          simp only [List.modify_zero_cons, List.filter_cons, before, after,
            if_true, Bool.false_eq_true, if_false]
          exact (List.perm_append_singleton _ _).symm
      | succ i =>
          simp only [List.getElem?_cons_succ] at found
          simp only [List.modify_succ_cons, List.filter_cons]
          split
          · exact (induction found).cons first
          · exact induction found

theorem map_filter_modify {g : α → β} (found : l[i]? = some a)
    (kept : p (f a) = p a) (same : g (f a) = g a) :
    ((l.modify i f).filter p).map g = (l.filter p).map g := by
  induction l generalizing i with
  | nil => simp at found
  | cons first l induction =>
      cases i with
      | zero =>
          simp only [List.getElem?_cons_zero, Option.some.injEq] at found
          subst found
          simp only [List.modify_zero_cons, List.filter_cons, kept]
          split <;> simp [same]
      | succ i =>
          simp only [List.getElem?_cons_succ] at found
          simp only [List.modify_succ_cons, List.filter_cons]
          split
          · simp only [List.map_cons, induction found]
          · exact induction found

theorem modify_length_append (l : List α) (a : α) (f : α → α) :
    (l ++ [a]).modify l.length f = l ++ [f a] := by
  induction l with
  | nil => rfl
  | cons first l induction =>
      rw [List.cons_append, List.length_cons, List.modify_succ_cons, induction]
      rfl

end

/-! ## The layer -/

inductive LimitedPhase where
  /-- The future waits for its permit. -/
  | waiting
  /-- The call has reached the service. -/
  | running
  /-- The caller has a handle. -/
  | opened
  /-- The call has been answered without a handle, or all of it dropped. -/
  | finished
  /-- The future was dropped before it had a permit. -/
  | cancelled
  | panicked
deriving DecidableEq, Repr

namespace LimitedPhase

/-- The service works for the call, or its handle is there. -/
def isActive : LimitedPhase → Bool
  | .running => true
  | .opened => true
  | _ => false

/-- The call has reached the service. -/
def reached : LimitedPhase → Bool
  | .running => true
  | .opened => true
  | .finished => true
  | _ => false

end LimitedPhase

/-- A call with what it hands to the service. -/
structure LimitedCall (Q : Type) where
  function : AccessFunction
  request : Q
  phase : LimitedPhase

/-- The call or its handle has a permit. -/
def LimitedCall.holdsPermit {Q : Type} (call : LimitedCall Q) : Bool :=
  call.function.takesPermit && call.phase.isActive

structure ConcurrentLimitAccessor (semaphore : Semaphore) (Q : Type) where
  semaphore : semaphore.State
  calls : List (LimitedCall Q)
  /-- What the service has been asked. -/
  sent : List Q
  /-- How many permits have been given back. -/
  returned : Nat

inductive LimitEvent (Q : Type) where
  /-- A future is made and polled. -/
  | call (function : AccessFunction) (request : Q)
  | blockingCall (function : AccessFunction) (request : Q)
  /-- A future that waits is polled again. -/
  | poll (i : Nat)
  /-- The call of the service comes to its end. -/
  | answer (i : Nat) (succeeded : Bool)
  /-- The future or the handle is dropped. -/
  | drop (i : Nat)

namespace ConcurrentLimitAccessor

variable {semaphore : Semaphore} {Q : Type}

def new (semaphore : Semaphore) (permits : Nat) :
    ConcurrentLimitAccessor semaphore Q :=
  { semaphore := semaphore.new permits
    calls := []
    sent := []
    returned := 0 }

/-- Another call, which is number `self.calls.length`. -/
def push (self : ConcurrentLimitAccessor semaphore Q)
    (function : AccessFunction) (request : Q) :
    ConcurrentLimitAccessor semaphore Q :=
  { self with calls := self.calls ++ [⟨function, request, .waiting⟩] }

def enter (self : ConcurrentLimitAccessor semaphore Q) (i : Nat)
    (phase : LimitedPhase) : ConcurrentLimitAccessor semaphore Q :=
  { self with calls := self.calls.modify i fun call => { call with phase } }

/-- `self.inner.function(request)` -/
def send (self : ConcurrentLimitAccessor semaphore Q) (i : Nat) :
    ConcurrentLimitAccessor semaphore Q :=
  { self.enter i .running with
    sent := self.sent ++ (self.calls[i]?.map LimitedCall.request).toList }

/-- The permit of a call is dropped, if it has one. -/
def dropPermit (self : ConcurrentLimitAccessor semaphore Q)
    (call : LimitedCall Q) : ConcurrentLimitAccessor semaphore Q :=
  if call.holdsPermit then
    { self with
      semaphore := semaphore.dropPermit self.semaphore
      returned := self.returned + 1 }
  else
    self

/-- `self.semaphore.acquire()` is polled, and what follows it if it is
ready. -/
def acquire (self : ConcurrentLimitAccessor semaphore Q) (i : Nat) :
    ConcurrentLimitAccessor semaphore Q :=
  match semaphore.pollAcquire self.semaphore i with
  | (state, true) => { self with semaphore := state }.send i
  | (state, false) => { self with semaphore := state }

def step (self : ConcurrentLimitAccessor semaphore Q) :
    LimitEvent Q → Option (ConcurrentLimitAccessor semaphore Q)
  | .call function request =>
      let i := self.calls.length
      if function.takesPermit then
        some ((self.push function request).acquire i)
      else
        some ((self.push function request).send i)
  | .blockingCall function request =>
      let i := self.calls.length
      if function.isBlocking then
        if function.takesPermit then
          match semaphore.tryAcquire self.semaphore with
          | some state =>
              some ({ self.push function request with
                semaphore := state }.send i)
          -- `expect("semaphore must be valid")`
          | none => some ((self.push function request).enter i .panicked)
        else
          some ((self.push function request).send i)
      else
        none
  | .poll i =>
      match self.calls[i]? with
      | some ⟨_, _, .waiting⟩ => some (self.acquire i)
      | _ => none
  | .answer i succeeded =>
      match self.calls[i]? with
      | some ⟨function, request, .running⟩ =>
          if succeeded && function.keepsPermit then
            some (self.enter i .opened)
          else
            some ((self.enter i .finished).dropPermit
              ⟨function, request, .running⟩)
      | _ => none
  | .drop i =>
      match self.calls[i]? with
      | some ⟨_, _, .waiting⟩ =>
          some { self.enter i .cancelled with
            semaphore := semaphore.dropAcquire self.semaphore i }
      | some ⟨function, request, .running⟩ =>
          some ((self.enter i .finished).dropPermit
            ⟨function, request, .running⟩)
      | some ⟨function, request, .opened⟩ =>
          some ((self.enter i .finished).dropPermit
            ⟨function, request, .opened⟩)
      | _ => none

/-- The phase of call `i`. -/
def phase? (self : ConcurrentLimitAccessor semaphore Q) (i : Nat) :
    Option LimitedPhase :=
  self.calls[i]?.map LimitedCall.phase

/-- The calls and handles that hold a permit. -/
def busy (self : ConcurrentLimitAccessor semaphore Q) : Nat :=
  self.calls.countP LimitedCall.holdsPermit

/-- The calls that wait, in their order. -/
def waiting (self : ConcurrentLimitAccessor semaphore Q) : List Nat :=
  (List.range self.calls.length).filter fun i =>
    self.phase? i == some .waiting

/-- How many calls wait that were made before call `i`. -/
def ahead (self : ConcurrentLimitAccessor semaphore Q) (i : Nat) : Nat :=
  self.waiting.idxOf i

/-- What the service has been asked, in the order of the calls. -/
def served (self : ConcurrentLimitAccessor semaphore Q) : List Q :=
  (self.calls.filter fun call => call.phase.reached).map LimitedCall.request

/-! ### What the parts of a step do -/

variable {self later : ConcurrentLimitAccessor semaphore Q}
  {permits i j : Nat} {call : LimitedCall Q} {phase : LimitedPhase}
  {function : AccessFunction} {request : Q} {event : LimitEvent Q}

@[simp] theorem phase?_enter (self : ConcurrentLimitAccessor semaphore Q)
    (i j : Nat) (phase : LimitedPhase) :
    (self.enter i phase).phase? j =
      if i = j then (self.phase? j).map fun _ => phase else self.phase? j := by
  simp only [phase?, enter, List.getElem?_modify]
  split <;> cases self.calls[j]? <;> rfl

theorem mem_waiting_iff : i ∈ self.waiting ↔ self.phase? i = some .waiting := by
  simp only [waiting, List.mem_filter, List.mem_range, beq_iff_eq,
    and_iff_right_iff_imp, phase?, Option.map_eq_some_iff]
  rintro ⟨call, found, _⟩
  exact (List.getElem?_eq_some_iff.mp found).1

theorem nodup_waiting (self : ConcurrentLimitAccessor semaphore Q) :
    self.waiting.Nodup :=
  List.nodup_range.filter _

theorem waiting_enter (self : ConcurrentLimitAccessor semaphore Q) (i : Nat)
    (later : phase ≠ .waiting) :
    (self.enter i phase).waiting = self.waiting.erase i := by
  rw [(nodup_waiting self).erase_eq_filter, waiting, waiting,
    List.filter_filter]
  have length : (self.enter i phase).calls.length = self.calls.length := by
    simp [enter]
  rw [length]
  apply List.filter_congr
  intro j _
  rw [phase?_enter]
  by_cases same : i = j
  · subst same
    cases self.phase? i <;> simp [later]
  · have other : j ≠ i := Ne.symm same
    simp [same, other]

theorem busy_enter (found : self.calls[i]? = some call)
    (phase : LimitedPhase) :
    (self.enter i phase).busy + call.holdsPermit.toNat =
      self.busy +
        ({ call with phase } : LimitedCall Q).holdsPermit.toNat :=
  countP_modify found

@[simp] theorem push_enter (self : ConcurrentLimitAccessor semaphore Q) :
    (self.push function request).enter self.calls.length phase =
      { self with calls := self.calls ++ [⟨function, request, phase⟩] } := by
  simp only [enter, push, modify_length_append]

/-- Another call, which has reached the service. -/
def start (self : ConcurrentLimitAccessor semaphore Q)
    (function : AccessFunction) (request : Q) (state : semaphore.State) :
    ConcurrentLimitAccessor semaphore Q :=
  { self with
    semaphore := state
    calls := self.calls ++ [⟨function, request, .running⟩]
    sent := self.sent ++ [request] }

@[simp] theorem push_send (self : ConcurrentLimitAccessor semaphore Q)
    (state : semaphore.State) :
    ({ self.push function request with semaphore := state } :
      ConcurrentLimitAccessor semaphore Q).send self.calls.length =
        self.start function request state := by
  simp [send, start, enter, push, modify_length_append]

theorem push_send_self (self : ConcurrentLimitAccessor semaphore Q) :
    (self.push function request).send self.calls.length =
      self.start function request self.semaphore :=
  push_send self self.semaphore

theorem phase?_push (self : ConcurrentLimitAccessor semaphore Q) :
    (self.push function request).phase? i =
      if i = self.calls.length then some .waiting else self.phase? i := by
  simp only [phase?, push, List.getElem?_append]
  split
  · next inside => simp [Nat.ne_of_lt inside]
  · next outside =>
      rcases Nat.lt_or_eq_of_le (Nat.le_of_not_lt outside) with beyond | same
      · have later : i - self.calls.length ≠ 0 := by omega
        have none : self.calls[i]? = none :=
          List.getElem?_eq_none_iff.mpr (Nat.le_of_lt beyond)
        simp [later, Nat.ne_of_gt beyond, none]
      · simp [← same]

theorem waiting_push (self : ConcurrentLimitAccessor semaphore Q) :
    (self.push function request).waiting =
      self.waiting ++ [self.calls.length] := by
  have length : (self.push function request).calls.length =
      self.calls.length + 1 := by simp [push]
  rw [waiting, length, List.range_succ, List.filter_append]
  congr 1
  · apply List.filter_congr
    intro i member
    rw [phase?_push, if_neg (Nat.ne_of_lt (List.mem_range.mp member))]
  · simp [phase?_push]

theorem length_notMem_waiting (self : ConcurrentLimitAccessor semaphore Q) :
    self.calls.length ∉ self.waiting := by
  intro member
  exact absurd (List.mem_range.mp (List.mem_filter.mp member).1)
    (Nat.lt_irrefl _)

theorem waiting_append (self : ConcurrentLimitAccessor semaphore Q)
    (function : AccessFunction) (request : Q) (phase : LimitedPhase)
    (later : phase ≠ .waiting) :
    ({ self with calls := self.calls ++ [⟨function, request, phase⟩] } :
      ConcurrentLimitAccessor semaphore Q).waiting = self.waiting := by
  rw [← push_enter, waiting_enter _ _ later, waiting_push,
    List.erase_append_right _ (length_notMem_waiting self)]
  simp

theorem busy_append (self : ConcurrentLimitAccessor semaphore Q)
    (call : LimitedCall Q) :
    ({ self with calls := self.calls ++ [call] } :
      ConcurrentLimitAccessor semaphore Q).busy =
        self.busy + call.holdsPermit.toNat := by
  simp only [busy, List.countP_append]
  cases holds : call.holdsPermit <;> simp [holds]

theorem served_append (self : ConcurrentLimitAccessor semaphore Q)
    (call : LimitedCall Q) :
    ({ self with calls := self.calls ++ [call] } :
      ConcurrentLimitAccessor semaphore Q).served =
        self.served ++ if call.phase.reached then [call.request] else [] := by
  simp only [served, List.filter_append, List.map_append]
  cases reached : call.phase.reached <;> simp [reached]

variable {lawful : semaphore.Lawful}

/-! ### The account of the semaphore -/

/-- What the calls and handles amount to. -/
def ledger (self : ConcurrentLimitAccessor semaphore Q) (permits : Nat) :
    Semaphore.Ledger :=
  { permits
    held := self.busy
    waiting := self.waiting }

/-- Only the calls that the layer limits wait, and only they have handles. -/
def Limited (calls : List (LimitedCall Q)) : Prop :=
  ∀ call ∈ calls, call.phase = .waiting ∨ call.phase = .opened →
    call.function.takesPermit = true

/-- The account of the semaphore is that of the calls: every permit is held by
one call or one handle. -/
structure Sound (lawful : semaphore.Lawful) (permits : Nat)
    (state : ConcurrentLimitAccessor semaphore Q) : Prop where
  account : lawful.view state.semaphore = state.ledger permits
  bounded : state.busy ≤ permits
  limited : Limited state.calls
  sent : state.sent.Perm state.served

theorem sound_new (lawful : semaphore.Lawful) (permits : Nat) :
    Sound (Q := Q) lawful permits (new semaphore permits) where
  account := lawful.new permits
  bounded := Nat.zero_le _
  limited := by simp [new, Limited]
  sent := .refl _

/-- What a step does to the permits. -/
inductive Effect (permits : Nat)
    (self later : ConcurrentLimitAccessor semaphore Q) : Prop
  | none (busy : later.busy = self.busy)
      (waiting : later.waiting = self.waiting)
      (returned : later.returned = self.returned)
  /-- A new call has to wait. -/
  | joined (full : permits ≤ self.busy + self.waiting.length)
      (busy : later.busy = self.busy)
      (waiting : later.waiting = self.waiting ++ [self.calls.length])
      (returned : later.returned = self.returned)
  /-- A new call gets a permit. -/
  | granted (left : self.busy + self.waiting.length < permits)
      (busy : later.busy = self.busy + 1)
      (waiting : later.waiting = self.waiting)
      (returned : later.returned = self.returned)
  /-- A call that waits gets a permit. -/
  | served (j : Nat) (member : j ∈ self.waiting)
      (left : self.busy + self.ahead j < permits)
      (busy : later.busy = self.busy + 1)
      (waiting : later.waiting = self.waiting.erase j)
      (returned : later.returned = self.returned)
  /-- A permit is given back. -/
  | returned (busy : later.busy + 1 = self.busy)
      (waiting : later.waiting = self.waiting)
      (returned : later.returned = self.returned + 1)
  /-- A call that waits leaves. -/
  | cancelled (j : Nat) (member : j ∈ self.waiting)
      (busy : later.busy = self.busy)
      (waiting : later.waiting = self.waiting.erase j)
      (returned : later.returned = self.returned)

theorem acquire_spec
    (account : (lawful.view self.semaphore).join i = self.ledger permits) :
    (self.busy + self.ahead i < permits ∧ ∃ state,
      self.acquire i = { self with semaphore := state }.send i ∧
        lawful.view state = ((self.ledger permits).leave i).grant) ∨
    (permits ≤ self.busy + self.ahead i ∧ ∃ state,
      self.acquire i = { self with semaphore := state } ∧
        lawful.view state = self.ledger permits) := by
  have law := lawful.pollAcquire self.semaphore i
  rw [← Semaphore.Ledger.serves_join, ← Semaphore.Ledger.leave_join, account]
    at law
  obtain ⟨⟨state, ready⟩, polled⟩ : ∃ outcome,
      semaphore.pollAcquire self.semaphore i = outcome := ⟨_, rfl⟩
  rw [polled] at law
  split at law
  · next serves =>
      obtain ⟨view, rfl⟩ := Prod.mk.inj law
      refine .inl ⟨of_decide_eq_true serves, state, ?_, view⟩
      simp [acquire, polled]
  · next refuses =>
      obtain ⟨view, rfl⟩ := Prod.mk.inj law
      refine .inr ⟨?_, state, ?_, view⟩
      · exact Nat.le_of_not_lt fun left => refuses (decide_eq_true left)
      · simp [acquire, polled]

/-! ### What a step keeps -/

theorem bounded_of_effect (bounded : self.busy ≤ permits)
    (effect : Effect permits self later) : later.busy ≤ permits := by
  cases effect with
  | none busy waiting returned => omega
  | joined full busy waiting returned => omega
  | granted left busy waiting returned => omega
  | served j member left busy waiting returned => omega
  | returned busy waiting returned => omega
  | cancelled j member busy waiting returned => omega

theorem Limited.append {calls : List (LimitedCall Q)} (limited : Limited calls)
    (takes : call.phase = .waiting ∨ call.phase = .opened →
      call.function.takesPermit = true) : Limited (calls ++ [call]) := by
  intro other member
  rcases List.mem_append.mp member with earlier | last
  · exact limited other earlier
  · cases List.mem_singleton.mp last
    exact takes

theorem Limited.modify {calls : List (LimitedCall Q)} (limited : Limited calls)
    (found : calls[i]? = some call)
    (takes : phase = .waiting ∨ phase = .opened →
      call.function.takesPermit = true) :
    Limited (calls.modify i fun call => { call with phase }) := by
  intro other member
  obtain ⟨j, placed⟩ := List.mem_iff_getElem?.mp member
  rw [List.getElem?_modify] at placed
  by_cases same : i = j
  · subst same
    simp only [found, if_true, Option.map_eq_map, Option.map_some,
      Option.some.injEq] at placed
    subst placed
    exact takes
  · have placed : calls[j]? = some other := by simpa [same] using placed
    exact limited other (List.mem_of_getElem? placed)

/-! ### What a step can do -/

/-- The outcomes of an event. -/
inductive Outcome (lawful : semaphore.Lawful) (permits : Nat)
    (self : ConcurrentLimitAccessor semaphore Q) :
    LimitEvent Q → ConcurrentLimitAccessor semaphore Q → Prop
  /-- A call that needs no permit reaches the service. -/
  | free (event : LimitEvent Q) (function : AccessFunction) (request : Q)
      (asked : event = .call function request ∨
        event = .blockingCall function request)
      (free : function.takesPermit = false) :
      Outcome lawful permits self event
        (self.start function request self.semaphore)
  /-- A new call gets a permit. -/
  | granted (event : LimitEvent Q) (function : AccessFunction) (request : Q)
      (asked : event = .call function request ∨
        event = .blockingCall function request)
      (takes : function.takesPermit = true)
      (left : self.busy + self.waiting.length < permits)
      (state : semaphore.State)
      (account : lawful.view state = (self.ledger permits).grant) :
      Outcome lawful permits self event (self.start function request state)
  | joined (function : AccessFunction) (request : Q)
      (takes : function.takesPermit = true)
      (full : permits ≤ self.busy + self.waiting.length)
      (state : semaphore.State)
      (account : lawful.view state =
        (self.push function request).ledger permits) :
      Outcome lawful permits self (.call function request)
        { self.push function request with semaphore := state }
  | panicked (function : AccessFunction) (request : Q)
      (takes : function.takesPermit = true)
      (full : permits ≤ self.busy + self.waiting.length) :
      Outcome lawful permits self (.blockingCall function request)
        { self with
          calls := self.calls ++ [⟨function, request, .panicked⟩] }
  | served (i : Nat) (function : AccessFunction) (request : Q)
      (found : self.calls[i]? = some ⟨function, request, .waiting⟩)
      (left : self.busy + self.ahead i < permits)
      (state : semaphore.State)
      (account : lawful.view state = ((self.ledger permits).leave i).grant) :
      Outcome lawful permits self (.poll i)
        ({ self with semaphore := state }.send i)
  | refused (i : Nat) (waits : i ∈ self.waiting)
      (full : permits ≤ self.busy + self.ahead i)
      (state : semaphore.State)
      (account : lawful.view state = self.ledger permits) :
      Outcome lawful permits self (.poll i) { self with semaphore := state }
  | opened (i : Nat) (function : AccessFunction) (request : Q)
      (found : self.calls[i]? = some ⟨function, request, .running⟩)
      (keeps : function.keepsPermit = true) :
      Outcome lawful permits self (.answer i true) (self.enter i .opened)
  | finished (event : LimitEvent Q) (i : Nat) (call : LimitedCall Q)
      (asked : (∃ succeeded, event = .answer i succeeded) ∨ event = .drop i)
      (found : self.calls[i]? = some call)
      (active : call.phase.isActive = true) :
      Outcome lawful permits self event
        ((self.enter i .finished).dropPermit call)
  | cancelled (i : Nat) (function : AccessFunction) (request : Q)
      (found : self.calls[i]? = some ⟨function, request, .waiting⟩) :
      Outcome lawful permits self (.drop i)
        { self.enter i .cancelled with
          semaphore := semaphore.dropAcquire self.semaphore i }

theorem mem_waiting_of_found
    (found : self.calls[i]? = some ⟨function, request, .waiting⟩) :
    i ∈ self.waiting :=
  mem_waiting_iff.mpr (by simp [phase?, found])

/-- A new future is polled. -/
theorem call_spec (function : AccessFunction) (request : Q)
    (sound : Sound lawful permits self)
    (takes : function.takesPermit = true) :
    (self.busy + self.waiting.length < permits ∧ ∃ state,
      self.step (.call function request) =
          some (self.start function request state) ∧
        lawful.view state = (self.ledger permits).grant) ∨
    (permits ≤ self.busy + self.waiting.length ∧ ∃ state,
      self.step (.call function request) =
          some { self.push function request with semaphore := state } ∧
        lawful.view state =
          (self.push function request).ledger permits) := by
  have fresh := length_notMem_waiting self
  have busy : (self.push function request).busy = self.busy := by
    rw [push, busy_append]
    simp [LimitedCall.holdsPermit, LimitedPhase.isActive]
  have ahead : (self.push function request).ahead self.calls.length =
      self.waiting.length := by
    rw [ConcurrentLimitAccessor.ahead, waiting_push,
      List.idxOf_append_of_notMem fresh]
    simp
  have joined : (lawful.view (self.push function request).semaphore).join
        self.calls.length = (self.push function request).ledger permits := by
    have account : lawful.view (self.push function request).semaphore =
        self.ledger permits := sound.account
    rw [account, ledger, ledger, waiting_push, busy]
    simp [Semaphore.Ledger.join, fresh]
  simp only [step, takes, if_true]
  rcases acquire_spec joined with ⟨left, state, acquired, account⟩ |
    ⟨full, state, acquired, account⟩
  · rw [busy, ahead] at left
    rw [acquired, push_send]
    refine .inl ⟨left, state, rfl, ?_⟩
    rw [account, ledger, ledger, waiting_push, busy]
    simp [Semaphore.Ledger.leave, List.erase_append_right _ fresh]
  · rw [busy, ahead] at full
    rw [acquired]
    exact .inr ⟨full, state, rfl, account⟩

/-- A future that waits is polled. -/
theorem poll_spec (sound : Sound lawful permits self)
    (waits : i ∈ self.waiting) :
    (self.busy + self.ahead i < permits ∧ ∃ state,
      self.step (.poll i) = some ({ self with semaphore := state }.send i) ∧
        lawful.view state = ((self.ledger permits).leave i).grant) ∨
    (permits ≤ self.busy + self.ahead i ∧ ∃ state,
      self.step (.poll i) = some { self with semaphore := state } ∧
        lawful.view state = self.ledger permits) := by
  have joined : (lawful.view self.semaphore).join i =
      self.ledger permits := by
    rw [sound.account]
    exact Semaphore.Ledger.join_of_mem waits
  obtain ⟨⟨function, request, phase⟩, found, rfl⟩ :=
    Option.map_eq_some_iff.mp (mem_waiting_iff.mp waits)
  simp only [step, found]
  rcases acquire_spec joined with ⟨left, state, acquired, account⟩ |
    ⟨full, state, acquired, account⟩
  · exact .inl ⟨left, state, congrArg some acquired, account⟩
  · exact .inr ⟨full, state, congrArg some acquired, account⟩

theorem outcome (sound : Sound lawful permits self)
    (stepped : self.step event = some later) :
    Outcome lawful permits self event later := by
  cases event with
  | call function request =>
      by_cases takes : function.takesPermit = true
      · rcases call_spec function request sound takes with
          ⟨left, state, called, account⟩ | ⟨full, state, called, account⟩
        · cases called.symm.trans stepped
          exact .granted _ function request (.inl rfl) takes left state account
        · cases called.symm.trans stepped
          exact .joined function request takes full state account
      · simp only [step, takes, push_send_self] at stepped
        cases stepped
        exact .free _ function request (.inl rfl) (by simpa using takes)
  | blockingCall function request =>
      simp only [step] at stepped
      split at stepped
      · split at stepped
        · next takes =>
            have law := lawful.tryAcquire self.semaphore
            rw [sound.account] at law
            split at stepped
            · next state acquired =>
                rw [acquired, Option.map_some] at law
                split at law
                · next left =>
                    rw [push_send] at stepped
                    cases stepped
                    exact .granted _ function request (.inr rfl) takes
                      (of_decide_eq_true left) state (Option.some.inj law)
                · cases law
            · next refused =>
                rw [refused, Option.map_none] at law
                split at law
                · cases law
                · next full =>
                    rw [push_enter] at stepped
                    cases stepped
                    refine .panicked function request takes ?_
                    exact Nat.le_of_not_lt
                      fun left => full (decide_eq_true left)
        · next free =>
            rw [push_send_self] at stepped
            cases stepped
            exact .free _ function request (.inr rfl) (by simpa using free)
      · cases stepped
  | poll i =>
      have waits : i ∈ self.waiting := by
        simp only [step] at stepped
        split at stepped
        · next function request found => exact mem_waiting_of_found found
        · cases stepped
      rcases poll_spec sound waits with
        ⟨left, state, polled, account⟩ | ⟨full, state, polled, account⟩
      · obtain ⟨⟨function, request, phase⟩, found, rfl⟩ :=
          Option.map_eq_some_iff.mp (mem_waiting_iff.mp waits)
        cases polled.symm.trans stepped
        exact .served i function request found left state account
      · cases polled.symm.trans stepped
        exact .refused i waits full state account
  | answer i succeeded =>
      simp only [step] at stepped
      split at stepped
      · next function request found =>
          split at stepped
          · next keeps =>
              rw [Bool.and_eq_true] at keeps
              obtain ⟨rfl, keeps⟩ := keeps
              cases stepped
              exact .opened i function request found keeps
          · cases stepped
            exact .finished _ i _ (.inl ⟨succeeded, rfl⟩) found rfl
      · cases stepped
  | drop i =>
      simp only [step] at stepped
      split at stepped
      · next function request found =>
          cases stepped
          exact .cancelled i function request found
      · next function request found =>
          cases stepped
          exact .finished _ i _ (.inr rfl) found rfl
      · next function request found =>
          cases stepped
          exact .finished _ i _ (.inr rfl) found rfl
      · cases stepped

/-! ### What a step keeps -/

theorem ledger_eq {held : Nat} {waiting : List Nat} (busy : self.busy = held)
    (waits : self.waiting = waiting) :
    self.ledger permits = ⟨permits, held, waiting⟩ := by
  rw [ledger, busy, waits]

theorem waiting_enter_of_found (found : self.calls[i]? = some call)
    (before : call.phase ≠ .waiting) (after : phase ≠ .waiting) :
    (self.enter i phase).waiting = self.waiting := by
  rw [waiting_enter self i after]
  apply List.erase_of_not_mem
  rw [mem_waiting_iff, phase?, found]
  simpa using before

theorem ne_waiting_of_isActive (active : phase.isActive = true) :
    phase ≠ .waiting := by
  rintro rfl
  cases active

theorem finished_effect (sound : Sound lawful permits self)
    (found : self.calls[i]? = some call)
    (active : call.phase.isActive = true) :
    Effect permits self ((self.enter i .finished).dropPermit call) ∧
      lawful.view ((self.enter i .finished).dropPermit call).semaphore =
        ((self.enter i .finished).dropPermit call).ledger permits := by
  have waiting : (self.enter i .finished).waiting = self.waiting :=
    waiting_enter_of_found found (ne_waiting_of_isActive active) (by simp)
  have ended : ({ call with phase := .finished } :
      LimitedCall Q).holdsPermit = false := Bool.and_false _
  have moved := busy_enter found .finished
  rw [ended, Bool.toNat_false, Nat.add_zero] at moved
  unfold dropPermit
  split
  · next holds =>
      have busy : (self.enter i .finished).busy + 1 = self.busy := by
        rw [← moved, holds, Bool.toNat_true]
      refine ⟨.returned busy waiting rfl, ?_⟩
      have account : lawful.view (self.enter i .finished).semaphore =
          self.ledger permits := sound.account
      have positive : 0 <
          (lawful.view (self.enter i .finished).semaphore).held := by
        rw [account, ledger, ← busy]
        exact Nat.succ_pos _
      rw [lawful.dropPermit _ positive, account, ledger,
        Semaphore.Ledger.giveBack]
      refine (ledger_eq ?_ waiting).symm
      simp only [← busy]
      rfl
  · next free =>
      have busy : (self.enter i .finished).busy = self.busy := by
        simpa [free] using moved
      refine ⟨.none busy waiting rfl, ?_⟩
      rw [ledger_eq busy waiting]
      exact sound.account

/-- The permits that a step moves, and that the account of the semaphore stays
that of the calls. -/
theorem Outcome.effect (sound : Sound lawful permits self)
    (outcome : Outcome lawful permits self event later) :
    Effect permits self later ∧
      lawful.view later.semaphore = later.ledger permits := by
  cases outcome with
  | free _ function request asked free =>
      have busy := busy_append self ⟨function, request, .running⟩
      simp only [LimitedCall.holdsPermit, free, Bool.false_and,
        Bool.toNat_false, Nat.add_zero] at busy
      have waiting := waiting_append self function request .running (by simp)
      exact ⟨.none busy waiting rfl,
        sound.account.trans (ledger_eq busy waiting).symm⟩
  | granted _ function request asked takes left state account =>
      have busy := busy_append self ⟨function, request, .running⟩
      simp only [LimitedCall.holdsPermit, takes, LimitedPhase.isActive,
        Bool.and_true, Bool.toNat_true] at busy
      have waiting := waiting_append self function request .running (by simp)
      exact ⟨.granted left busy waiting rfl,
        account.trans (ledger_eq busy waiting).symm⟩
  | joined function request takes full state account =>
      have busy := busy_append self ⟨function, request, .waiting⟩
      simp only [LimitedCall.holdsPermit, LimitedPhase.isActive,
        Bool.and_false, Bool.toNat_false, Nat.add_zero] at busy
      exact ⟨.joined full busy (waiting_push self) rfl, account⟩
  | panicked function request takes full =>
      have busy := busy_append self ⟨function, request, .panicked⟩
      simp only [LimitedCall.holdsPermit, LimitedPhase.isActive,
        Bool.and_false, Bool.toNat_false, Nat.add_zero] at busy
      have waiting := waiting_append self function request .panicked (by simp)
      exact ⟨.none busy waiting rfl,
        sound.account.trans (ledger_eq busy waiting).symm⟩
  | served i function request found left state account =>
      have takes : function.takesPermit = true :=
        sound.limited _ (List.mem_of_getElem? found) (.inl rfl)
      have busy := busy_enter found .running
      simp only [LimitedCall.holdsPermit, takes, LimitedPhase.isActive,
        Bool.and_false, Bool.and_true, Bool.toNat_false, Bool.toNat_true,
        Nat.add_zero] at busy
      have waiting : (self.enter i .running).waiting = self.waiting.erase i :=
        waiting_enter self i (by simp)
      exact ⟨.served i (mem_waiting_of_found found) left busy waiting rfl,
        account.trans (ledger_eq busy waiting).symm⟩
  | refused i waits full state account =>
      exact ⟨.none rfl rfl rfl, account⟩
  | opened i function request found keeps =>
      have busy := busy_enter found .opened
      simp only [LimitedCall.holdsPermit, LimitedPhase.isActive,
        Nat.add_right_cancel_iff] at busy
      have waiting : (self.enter i .opened).waiting = self.waiting :=
        waiting_enter_of_found found (by simp) (by simp)
      exact ⟨.none busy waiting rfl,
        sound.account.trans (ledger_eq busy waiting).symm⟩
  | finished _ i call asked found active =>
      exact finished_effect sound found active
  | cancelled i function request found =>
      have busy := busy_enter found .cancelled
      simp only [LimitedCall.holdsPermit, LimitedPhase.isActive,
        Bool.and_false, Bool.toNat_false, Nat.add_zero] at busy
      have waiting : (self.enter i .cancelled).waiting = self.waiting.erase i :=
        waiting_enter self i (by simp)
      have waits : i ∈ (lawful.view self.semaphore).waiting := by
        rw [sound.account]
        exact mem_waiting_of_found found
      refine ⟨.cancelled i (mem_waiting_of_found found) busy waiting rfl, ?_⟩
      rw [lawful.dropAcquire _ i waits, sound.account]
      exact (ledger_eq busy waiting).symm

theorem dropPermit_eq (self : ConcurrentLimitAccessor semaphore Q)
    (call : LimitedCall Q) :
    (self.dropPermit call).calls = self.calls ∧
      (self.dropPermit call).sent = self.sent := by
  unfold dropPermit
  split <;> exact ⟨rfl, rfl⟩

theorem getElem?_enter_ne {phase : LimitedPhase} (other : i ≠ j) :
    (self.enter i phase).calls[j]? = self.calls[j]? := by
  simp [enter, other]

theorem getElem?_enter_self {phase : LimitedPhase}
    (found : self.calls[i]? = some call) :
    (self.enter i phase).calls[i]? = some { call with phase } := by
  simp [enter, found]

@[simp] theorem busy_dropPermit
    (self : ConcurrentLimitAccessor semaphore Q) (call : LimitedCall Q) :
    (self.dropPermit call).busy = self.busy := by
  unfold dropPermit
  split <;> rfl

@[simp] theorem waiting_dropPermit
    (self : ConcurrentLimitAccessor semaphore Q) (call : LimitedCall Q) :
    (self.dropPermit call).waiting = self.waiting := by
  unfold dropPermit
  split <;> rfl

theorem Outcome.limited (sound : Sound lawful permits self)
    (outcome : Outcome lawful permits self event later) :
    Limited later.calls := by
  have limited := sound.limited
  cases outcome with
  | free _ function request asked free => exact limited.append (by simp)
  | granted _ function request asked takes left state account =>
      exact limited.append (by simp)
  | joined function request takes full state account =>
      exact limited.append fun _ => takes
  | panicked function request takes full => exact limited.append (by simp)
  | served i function request found left state account =>
      exact limited.modify found (by simp)
  | refused i waits full state account => exact limited
  | opened i function request found keeps =>
      exact limited.modify found
        fun _ => AccessFunction.takesPermit_of_keepsPermit keeps
  | finished _ i call asked found active =>
      rw [(dropPermit_eq _ call).1]
      exact limited.modify found (by simp)
  | cancelled i function request found =>
      exact limited.modify found (by simp)

theorem served_enter (found : self.calls[i]? = some call)
    (same : phase.reached = call.phase.reached) :
    (self.enter i phase).served = self.served :=
  map_filter_modify found same rfl

theorem reached_of_isActive (active : phase.isActive = true) :
    phase.reached = true := by
  cases phase <;> first | rfl | cases active

theorem Outcome.sent (sound : Sound lawful permits self)
    (outcome : Outcome lawful permits self event later) :
    later.sent.Perm later.served := by
  have sent := sound.sent
  cases outcome with
  | free _ function request asked free =>
      have served := served_append self ⟨function, request, .running⟩
      exact (sent.append_right [request]).trans (.of_eq served.symm)
  | granted _ function request asked takes left state account =>
      have served := served_append self ⟨function, request, .running⟩
      exact (sent.append_right [request]).trans (.of_eq served.symm)
  | joined function request takes full state account =>
      have served := served_append self ⟨function, request, .waiting⟩
      exact sent.trans (.of_eq (served.trans (List.append_nil _)).symm)
  | panicked function request takes full =>
      have served := served_append self ⟨function, request, .panicked⟩
      exact sent.trans (.of_eq (served.trans (List.append_nil _)).symm)
  | served i function request found left state account =>
      have reaches := filter_modify_perm
        (f := fun call => { call with phase := .running }) found
        (p := fun call => call.phase.reached) rfl rfl
      have served := reaches.map LimitedCall.request
      rw [List.map_append] at served
      simp only [send, found]
      exact (sent.append_right [request]).trans served.symm
  | refused i waits full state account => exact sent
  | opened i function request found keeps =>
      have served : (self.enter i .opened).served = self.served :=
        served_enter found rfl
      exact sent.trans (.of_eq served.symm)
  | finished _ i call asked found active =>
      have served : ((self.enter i .finished).dropPermit call).served =
          self.served := by
        rw [ConcurrentLimitAccessor.served, (dropPermit_eq _ call).1]
        exact served_enter found (reached_of_isActive active).symm
      rw [served, (dropPermit_eq _ call).2]
      exact sent
  | cancelled i function request found =>
      have served : (self.enter i .cancelled).served = self.served :=
        served_enter found rfl
      exact sent.trans (.of_eq served.symm)

theorem Sound.step (sound : Sound lawful permits self)
    (stepped : self.step event = some later) : Sound lawful permits later := by
  have happened := outcome sound stepped
  obtain ⟨effect, account⟩ := happened.effect sound
  exact
    { account
      bounded := bounded_of_effect sound.bounded effect
      limited := happened.limited sound
      sent := happened.sent sound }

theorem sound_run {events : List (LimitEvent Q)}
    (ran : run step (new semaphore permits) events = some self) :
    Sound lawful permits self :=
  run_invariant_of_forall Sound.step (sound_new lawful permits) ran

end ConcurrentLimitAccessor

end OpenDal
