import OpenDal.Raw.TaskOrder

/-!
# Task queues that write

The queues of `BlockWriter` and `PositionWriter` differ in their inputs and
outputs only.  A task hands its input to the service and ends with the answer
or with the timeout of the executor; an order of such a queue is the input
itself, and it is completed once the input has been written.
-/

namespace OpenDal

/-- How a task that writes can end. -/
inductive WriteReply where
  | answered (result : Except Error Unit)
  | timedOut

namespace WriteReply

/-- The service has taken the bytes. -/
def succeeded : WriteReply → Bool
  | answered (.ok ()) => true
  | _ => false

/-- The service fails only temporarily. -/
def Temporary : WriteReply → Prop
  | answered (.error err) => err.isTemporary = true
  | _ => True

end WriteReply

/-- What a kind of task returns and how it times out. -/
structure WriteTask (I O : Type) where
  output : I → O
  timeoutError : I → Error
  timesOutTemporarily : ∀ input, (timeoutError input).isTemporary = true

namespace WriteTask

variable {I O : Type}

/-- The factory of the queue. -/
def factory (kind : WriteTask I O) (input : I) :
    WriteReply → Option (I × Except Error O)
  | .answered result => some (input, result.map fun _ => kind.output input)
  | .timedOut => some (input, .error (kind.timeoutError input))

def contract (kind : WriteTask I O) (written : I → Prop) :
    Contract I I O where
  serves := fun order input => input = order
  delivers := fun order output => output = kind.output order ∧ written order
  fails := fun order input err => input = order ∧ err.isTemporary = true

variable {kind : WriteTask I O} {written later : I → Prop}

theorem contract_weaker (grows : ∀ input, written input → later input) :
    (kind.contract written).Weaker (kind.contract later) where
  serves := fun _ _ same => same
  delivers := fun order _ delivers => ⟨delivers.1, grows order delivers.2⟩
  fails := fun _ _ _ fails => fails

theorem contract_respects {order input handedBack : I} {reply : WriteReply}
    {result : Except Error O} (temporary : reply.Temporary)
    (recorded : reply.succeeded = true → written input)
    (serves : input = order)
    (produced : kind.factory input reply = some (handedBack, result)) :
    Task.Fulfils (kind.contract written) order (.ready handedBack result) := by
  subst serves
  cases reply with
  | timedOut =>
      cases produced
      exact ⟨rfl, kind.timesOutTemporarily input⟩
  | answered answer =>
      cases produced
      cases answer with
      | ok _ => exact ⟨rfl, recorded rfl⟩
      | error err => exact ⟨rfl, temporary⟩

theorem aligned_finish {capacity position : Nat} {orders : List I}
    {queue next : ConcurrentTasks I O} {reply : WriteReply} {input : I}
    (aligned : queue.Aligned (kind.contract written) capacity orders)
    (finished : queue.finish kind.factory position reply = some next)
    (running : queue.tasks[position]? = some (.running input))
    (temporary : reply.Temporary)
    (grows : ∀ input, written input → later input)
    (recorded : reply.succeeded = true → later input) :
    next.Aligned (kind.contract later) capacity orders := by
  apply (aligned.mono (contract_weaker grows)).finish finished
  intro order started handedBack result found serves produced
  cases running.symm.trans found
  exact contract_respects temporary recorded serves produced

theorem places_finish {capacity : Nat} {order input : I}
    {next : ExecuteFuture I O} {reply : WriteReply}
    (places : ExecuteFuture.Places (kind.contract written) capacity order
      (.awaitingTask (.running input)))
    (finished : ExecuteFuture.finish kind.factory reply
      (.awaitingTask (.running input)) = some next)
    (temporary : reply.Temporary)
    (grows : ∀ input, written input → later input)
    (recorded : reply.succeeded = true → later input) :
    next.Places (kind.contract later) capacity order := by
  apply (places.mono (contract_weaker grows)).finish finished
  intro started handedBack result same serves produced
  cases same
  exact contract_respects temporary recorded serves produced

/-! ## Tasks that may fail for good -/

/-- A task may end with any error. -/
def lenientContract (kind : WriteTask I O) (written : I → Prop) :
    Contract I I O where
  serves := fun order input => input = order
  delivers := fun order output => output = kind.output order ∧ written order
  fails := fun order input _ => input = order

theorem lenientContract_weaker
    (grows : ∀ input, written input → later input) :
    (kind.lenientContract written).Weaker (kind.lenientContract later) where
  serves := fun _ _ same => same
  delivers := fun order _ delivers => ⟨delivers.1, grows order delivers.2⟩
  fails := fun _ _ _ fails => fails

theorem lenientContract_respects {order input handedBack : I}
    {reply : WriteReply} {result : Except Error O}
    (recorded : reply.succeeded = true → written input)
    (serves : input = order)
    (produced : kind.factory input reply = some (handedBack, result)) :
    Task.Fulfils (kind.lenientContract written) order
      (.ready handedBack result) := by
  subst serves
  cases reply with
  | timedOut =>
      cases produced
      rfl
  | answered answer =>
      cases produced
      cases answer with
      | ok _ => exact ⟨rfl, recorded rfl⟩
      | error err => rfl

theorem lenient_aligned_finish {capacity position : Nat} {orders : List I}
    {queue next : ConcurrentTasks I O} {reply : WriteReply} {input : I}
    (aligned : queue.Aligned (kind.lenientContract written) capacity orders)
    (finished : queue.finish kind.factory position reply = some next)
    (running : queue.tasks[position]? = some (.running input))
    (grows : ∀ input, written input → later input)
    (recorded : reply.succeeded = true → later input) :
    next.Aligned (kind.lenientContract later) capacity orders := by
  apply (aligned.mono (lenientContract_weaker grows)).finish finished
  intro order started handedBack result found serves produced
  cases running.symm.trans found
  exact lenientContract_respects recorded serves produced

theorem lenient_places_finish {capacity : Nat} {order input : I}
    {next : ExecuteFuture I O} {reply : WriteReply}
    (places : ExecuteFuture.Places (kind.lenientContract written) capacity
      order (.awaitingTask (.running input)))
    (finished : ExecuteFuture.finish kind.factory reply
      (.awaitingTask (.running input)) = some next)
    (grows : ∀ input, written input → later input)
    (recorded : reply.succeeded = true → later input) :
    next.Places (kind.lenientContract later) capacity order := by
  apply (places.mono (lenientContract_weaker grows)).finish finished
  intro started handedBack result same serves produced
  cases same
  exact lenientContract_respects recorded serves produced

end WriteTask

end OpenDal
