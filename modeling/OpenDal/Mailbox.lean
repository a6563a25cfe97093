import Mathlib.Data.List.Basic

/-!
# A worker and its mailbox

A client sends requests to a worker, which serves them in order and answers
each through a channel of its own.  The client has one request at a time, but
it may leave before the answer arrives: the request stays in the mailbox, and
its answer goes nowhere.  A worker stops after some requests, and it may crash.

A contract says what holds of the worker between two requests and which
requests may be in the mailbox.  The client may rely on it as long as it sends
no other requests, whoever has left in between.
-/

/-- What the worker makes of a request. -/
inductive Mailbox.Served (R : Type) where
  | answers (reply : R)
  /-- The last request that it serves. -/
  | stops (reply : R)
  | crashes

namespace Mailbox.Served

variable {R : Type}

def reply? : Served R → Option R
  | .answers reply => some reply
  | .stops reply => some reply
  | .crashes => none

def isLast : Served R → Bool
  | .answers _ => false
  | .stops _ => true
  | .crashes => true

end Mailbox.Served

/-- What the client finds in the channel for its answer. -/
inductive Mailbox.Received (R : Type) where
  | pending
  | answered (reply : R)
  | canceled

/-- A request is in the queue together with whether somebody waits for its
answer.  `waiting` is the channel of the client that waits. -/
structure Mailbox (S Q R : Type) where
  worker : S
  alive : Bool
  queue : List (Q × Bool)
  waiting : Option (Option R)

namespace Mailbox

variable {S Q R O : Type}

def new (worker : S) : Mailbox S Q R :=
  { worker
    alive := true
    queue := []
    waiting := none }

/-- `none` when nobody receives any more. -/
def send (self : Mailbox S Q R) (request : Q) : Option (Mailbox S Q R) :=
  if self.alive then
    some { self with
      queue := self.queue ++ [(request, true)]
      waiting := some none }
  else
    none

/-- The worker is gone, and with it what it has not served. -/
def crash (self : Mailbox S Q R) : Mailbox S Q R :=
  { self with
    alive := false
    queue := [] }

/-- What the worker leaves behind when it has served the first request. -/
def advance (perform : S → Q → O → S × Served R) (self : Mailbox S Q R)
    (request : Q) (heard : Bool) (queue : List (Q × Bool)) (outcome : O) :
    Mailbox S Q R :=
  let served := perform self.worker request outcome
  { self with
    worker := served.1
    queue
    waiting :=
      if heard && served.2.reply?.isSome then
        some served.2.reply?
      else
        self.waiting }

/-- The worker serves the first request; `outcome` is what happens to it. -/
def serve (perform : S → Q → O → S × Served R) (self : Mailbox S Q R)
    (outcome : O) : Option (Mailbox S Q R) :=
  match self.queue with
  | [] => none
  | (request, heard) :: queue =>
      let later := self.advance perform request heard queue outcome
      if (perform self.worker request outcome).2.isLast then
        some later.crash
      else
        some later

/-- The client does not wait any longer. -/
def leave (self : Mailbox S Q R) : Mailbox S Q R :=
  { self with
    queue := self.queue.map fun entry => (entry.1, false)
    waiting := none }

def receive (self : Mailbox S Q R) : Received R × Mailbox S Q R :=
  match self.waiting with
  | some (some reply) => (.answered reply, { self with waiting := none })
  | some none =>
      if self.alive then
        (.pending, self)
      else
        (.canceled, { self with waiting := none })
  | none => (.pending, self)

theorem receive_rest (self : Mailbox S Q R) :
    self.receive.2.alive = self.alive ∧ self.receive.2.queue = self.queue := by
  obtain ⟨worker, alive, queue, _ | _ | reply⟩ := self <;>
    cases alive <;> exact ⟨rfl, rfl⟩

/-! ## Contracts -/

structure Contract (S Q : Type) where
  holds : S → Prop
  admits : Q → Prop

/-- The worker keeps the contract, whatever happens to the requests. -/
def Contract.Kept (contract : Contract S Q)
    (perform : S → Q → O → S × Served R) : Prop :=
  ∀ worker request outcome, contract.holds worker → contract.admits request →
    contract.holds (perform worker request outcome).1

/-- The client waits for the answer to the last request that it has sent. -/
inductive Awaits (contract : Contract S Q)
    (perform : S → Q → O → S × Served R) (mailbox : Mailbox S Q R)
    (request : Q) : Prop where
  | queued (orphans : List (Q × Bool)) (alive : mailbox.alive = true)
      (empty : mailbox.waiting = some none)
      (last : mailbox.queue = orphans ++ [(request, true)])
      (unheard : ∀ entry ∈ orphans, entry.2 = false)
  | served (before : S) (outcome : O) (reply : R)
      (held : contract.holds before)
      (same : (perform before request outcome).1 = mailbox.worker)
      (replied : (perform before request outcome).2.reply? = some reply)
      (last : (perform before request outcome).2.isLast = true →
        mailbox.alive = false)
      (arrived : mailbox.waiting = some (some reply))
      (nothing : mailbox.queue = [])
  | canceled (dead : mailbox.alive = false)
      (empty : mailbox.waiting = some none) (nothing : mailbox.queue = [])

/-- The mailbox keeps to the contract; `awaited` is the request whose answer
the client waits for. -/
structure Respects (contract : Contract S Q)
    (perform : S → Q → O → S × Served R) (awaited : Option Q)
    (mailbox : Mailbox S Q R) : Prop where
  holds : contract.holds mailbox.worker
  admits : ∀ entry ∈ mailbox.queue, contract.admits entry.1
  stopped : mailbox.alive = false → mailbox.queue = []
  unheard : awaited = none →
    mailbox.waiting = none ∧ ∀ entry ∈ mailbox.queue, entry.2 = false
  awaits : ∀ request, awaited = some request →
    contract.admits request ∧ Awaits contract perform mailbox request

variable {contract other : Contract S Q}
  {perform : S → Q → O → S × Served R} {mailbox later : Mailbox S Q R}
  {awaited : Option Q} {request : Q}

theorem respects_new {worker : S} (holds : contract.holds worker) :
    (new worker : Mailbox S Q R).Respects contract perform none where
  holds := holds
  admits := by simp [new]
  stopped := by simp [new]
  unheard := by simp [new]
  awaits := by simp

theorem Respects.mono (respects : mailbox.Respects contract perform awaited)
    (holds : ∀ worker, contract.holds worker → other.holds worker)
    (admits : ∀ request, contract.admits request → other.admits request) :
    mailbox.Respects other perform awaited where
  holds := holds _ respects.holds
  admits entry member := admits _ (respects.admits entry member)
  stopped := respects.stopped
  unheard := respects.unheard
  awaits := by
    intro request waits
    obtain ⟨admitted, awaits⟩ := respects.awaits request waits
    refine ⟨admits _ admitted, ?_⟩
    cases awaits with
    | queued orphans alive empty last unheard =>
        exact .queued orphans alive empty last unheard
    | served before outcome reply held same replied last arrived nothing =>
        exact .served before outcome reply (holds _ held) same replied last
          arrived nothing
    | canceled dead empty nothing => exact .canceled dead empty nothing

theorem Respects.renew (respects : mailbox.Respects contract perform none)
    (nothing : mailbox.queue = []) (holds : other.holds mailbox.worker) :
    mailbox.Respects other perform none where
  holds := holds
  admits := by simp [nothing]
  stopped := respects.stopped
  unheard := respects.unheard
  awaits := by simp

theorem dead_of_send (unsent : mailbox.send request = none) :
    mailbox.alive = false := by
  rw [send] at unsent
  split at unsent
  · cases unsent
  · rename_i dead
    simpa using dead

theorem Respects.send (respects : mailbox.Respects contract perform none)
    (admitted : contract.admits request)
    (sent : mailbox.send request = some later) :
    later.Respects contract perform (some request) := by
  rw [Mailbox.send] at sent
  split at sent
  · rename_i alive
    cases sent
    refine
      { holds := respects.holds
        admits := ?_
        stopped := by simp [alive]
        unheard := by simp
        awaits := ?_ }
    · intro entry member
      rcases List.mem_append.mp member with earlier | new
      · exact respects.admits entry earlier
      · rw [List.mem_singleton.mp new]
        exact admitted
    · rintro _ ⟨⟩
      exact ⟨admitted, .queued mailbox.queue alive rfl rfl
        (respects.unheard rfl).2⟩
  · cases sent

theorem Respects.crash (respects : mailbox.Respects contract perform awaited) :
    mailbox.crash.Respects contract perform awaited where
  holds := respects.holds
  admits := by simp [Mailbox.crash]
  stopped := by simp [Mailbox.crash]
  unheard := fun nobody =>
    ⟨(respects.unheard nobody).1, by simp [Mailbox.crash]⟩
  awaits := by
    intro request waits
    obtain ⟨admitted, awaits⟩ := respects.awaits request waits
    refine ⟨admitted, ?_⟩
    cases awaits with
    | queued orphans alive empty last unheard => exact .canceled rfl empty rfl
    | served before outcome reply held same replied last arrived nothing =>
        exact .served before outcome reply held same replied (fun _ => rfl)
          arrived rfl
    | canceled dead empty nothing => exact .canceled rfl empty rfl

theorem Respects.leave (respects : mailbox.Respects contract perform awaited) :
    mailbox.leave.Respects contract perform none where
  holds := respects.holds
  admits := by
    intro entry member
    obtain ⟨before, queued, rfl⟩ := List.mem_map.mp member
    exact respects.admits before queued
  stopped := fun dead => by simp [Mailbox.leave, respects.stopped dead]
  unheard := by simp [Mailbox.leave]
  awaits := by simp

theorem serve_cases {outcome : O}
    (served : mailbox.serve perform outcome = some later) :
    ∃ request heard queue, mailbox.queue = (request, heard) :: queue ∧
      ((perform mailbox.worker request outcome).2.isLast = true ∧
          later = (mailbox.advance perform request heard queue outcome).crash ∨
        (perform mailbox.worker request outcome).2.isLast = false ∧
          later = mailbox.advance perform request heard queue outcome) := by
  rw [serve] at served
  split at served
  · cases served
  · rename_i request heard queue queued
    refine ⟨request, heard, queue, queued, ?_⟩
    dsimp only at served
    split at served
    · rename_i last
      exact .inl ⟨last, (Option.some.inj served).symm⟩
    · rename_i goes
      exact .inr ⟨by simpa using goes, (Option.some.inj served).symm⟩

/-- A request is served behind those that nobody waits for. -/
theorem Awaits.serve {outcome : O}
    (awaits : Awaits contract perform mailbox request)
    (holds : contract.holds mailbox.worker)
    (served : mailbox.serve perform outcome = some later) :
    Awaits contract perform later request := by
  obtain ⟨first, heard, queue, queued, ends⟩ := serve_cases served
  cases awaits with
  | served before outcome reply held same replied last arrived nothing =>
      simp [nothing] at queued
  | canceled dead empty nothing => simp [nothing] at queued
  | queued orphans alive empty last unheard =>
      rw [queued] at last
      cases orphans with
      | cons orphan orphans =>
          obtain ⟨rfl, rfl⟩ := List.cons.inj last
          have ignored : heard = false := unheard _ List.mem_cons_self
          have still : (mailbox.advance perform first heard
              (orphans ++ [(request, true)]) outcome).waiting = some none := by
            simp [advance, ignored, empty]
          rcases ends with ⟨_, rfl⟩ | ⟨_, rfl⟩
          · exact .canceled rfl still rfl
          · exact .queued orphans alive still rfl fun entry member =>
              unheard entry (List.mem_cons_of_mem _ member)
      | nil =>
          obtain ⟨same, rfl⟩ := List.cons.inj last
          obtain ⟨rfl, rfl⟩ := Prod.mk.inj same
          cases replied : (perform mailbox.worker first outcome).2.reply? with
          | none =>
              have crashed : (perform mailbox.worker first outcome).2 =
                  .crashes := by
                cases result : (perform mailbox.worker first outcome).2 <;>
                  simp [result, Served.reply?] at replied ⊢
              have still : (mailbox.advance perform first true []
                  outcome).waiting = some none := by
                simp [advance, replied, empty]
              rcases ends with ⟨_, rfl⟩ | ⟨goes, _⟩
              · exact .canceled rfl still rfl
              · simp [crashed, Served.isLast] at goes
          | some reply =>
              have arrived : (mailbox.advance perform first true []
                  outcome).waiting = some (some reply) := by
                simp [advance, replied]
              rcases ends with ⟨_, rfl⟩ | ⟨goes, rfl⟩
              · exact .served mailbox.worker outcome reply holds rfl replied
                  (fun _ => rfl) arrived rfl
              · exact .served mailbox.worker outcome reply holds rfl replied
                  (by simp [goes]) arrived rfl

theorem Respects.serve (kept : contract.Kept perform)
    (respects : mailbox.Respects contract perform awaited) {outcome : O}
    (served : mailbox.serve perform outcome = some later) :
    later.Respects contract perform awaited := by
  have awaits : ∀ request, awaited = some request →
      contract.admits request ∧ Awaits contract perform later request := by
    intro request waits
    obtain ⟨admitted, awaits⟩ := respects.awaits request waits
    exact ⟨admitted, awaits.serve respects.holds served⟩
  obtain ⟨first, heard, queue, queued, ends⟩ := serve_cases served
  have admitted : contract.admits first :=
    respects.admits (first, heard) (by simp [queued])
  have admits : ∀ entry ∈ queue, contract.admits entry.1 := fun entry member =>
    respects.admits entry (by simp [queued, member])
  have holds := kept mailbox.worker first outcome respects.holds admitted
  have unheard : awaited = none →
      (mailbox.advance perform first heard queue outcome).waiting = none ∧
        ∀ entry ∈ queue, entry.2 = false := by
    intro nobody
    obtain ⟨empty, ignored⟩ := respects.unheard nobody
    rw [queued] at ignored
    have first : heard = false := ignored _ List.mem_cons_self
    exact ⟨by simp [advance, first, empty], fun entry member =>
      ignored entry (List.mem_cons_of_mem _ member)⟩
  rcases ends with ⟨_, rfl⟩ | ⟨_, rfl⟩
  · exact
      { holds
        admits := by simp [Mailbox.crash]
        stopped := by simp [Mailbox.crash]
        unheard := fun nobody => ⟨(unheard nobody).1, by simp [Mailbox.crash]⟩
        awaits }
  · have alive : mailbox.alive = true := by
      by_contra dead
      have nothing := respects.stopped (by simpa using dead)
      simp [nothing] at queued
    exact
      { holds
        admits
        stopped := by simp [advance, alive]
        unheard
        awaits }

/-- What the client receives for the request that it waits for. -/
theorem Respects.receive
    (respects : mailbox.Respects contract perform (some request)) :
    (mailbox.receive = (.pending, mailbox) ∧ mailbox.alive = true ∧
        ∃ orphans, mailbox.queue = orphans ++ [(request, true)]) ∨
      (∃ later, mailbox.receive = (.canceled, later) ∧
        later.alive = false ∧ later.Respects contract perform none) ∨
      ∃ reply later before outcome, mailbox.receive = (.answered reply, later) ∧
        contract.holds before ∧
        (perform before request outcome).1 = later.worker ∧
        (perform before request outcome).2.reply? = some reply ∧
        ((perform before request outcome).2.isLast = true →
          later.alive = false) ∧
        later.queue = [] ∧ later.Respects contract perform none := by
  have gone : mailbox.queue = [] →
      ({ mailbox with waiting := none } : Mailbox S Q R).Respects contract
        perform none := fun nothing =>
    { holds := respects.holds
      admits := respects.admits
      stopped := respects.stopped
      unheard := by simp [nothing]
      awaits := by simp }
  obtain ⟨_, awaits⟩ := respects.awaits request rfl
  cases awaits with
  | queued orphans alive empty last unheard =>
      exact .inl ⟨by simp [Mailbox.receive, empty, alive], alive, orphans, last⟩
  | canceled dead empty nothing =>
      refine .inr (.inl ⟨{ mailbox with waiting := none }, ?_, dead,
        gone nothing⟩)
      simp [Mailbox.receive, empty, dead]
  | served before outcome reply held same replied last arrived nothing =>
      refine .inr (.inr ⟨reply, { mailbox with waiting := none }, before,
        outcome, ?_, held, same, replied, last, nothing, gone nothing⟩)
      simp [Mailbox.receive, arrived]

end Mailbox
