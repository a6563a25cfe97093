import OpenDal.Layers.CompleteWriter
import OpenDal.Types.BufferSequence

/-!
# Writers that make one request at a time

Several writers have nothing in the background: a call is a sequence of
requests, and the future waits for the answer to each of them.  A request may
be refused, or performed with its answer lost, and a future may be dropped
while it waits, with the request performed or not.  The service is part of the
session, so a result can say what is stored after any history of calls.

`Stages` of the complete layer is about writers that hide their service.  Here
`Invariant` is the corresponding interface, with the service in it.
-/

namespace OpenDal

open Automaton

/-- What becomes of a request. -/
inductive Fate where
  | answered
  /-- The request is performed, its answer does not arrive. -/
  | lost (err : Error)
  | refused (err : Error)

/-- A writer of `oio::Write` over a service `S` that performs requests `R`.
`start` runs a call up to its first request, `resume` goes on with an
answer. -/
structure RequestWriter (W F S R A : Type) where
  start : W → WriteCall → W × Progress F (Except Error Unit)
  request : F → R
  perform : S → R → S × Except Error A
  resume : W → F → Except Error A → W × Progress F (Except Error Unit)

variable {W F S R A : Type}

namespace RequestWriter

def serve (model : RequestWriter W F S R A) (service : S) (future : F) :
    Fate → S × Except Error A
  | .answered => model.perform service (model.request future)
  | .lost err => ((model.perform service (model.request future)).1, .error err)
  | .refused err => (service, .error err)

end RequestWriter

/-- The writer is behind the complete layer.  Nothing is logged in the
history, the service itself is here. -/
structure RequestSession (W F S : Type) where
  writer : CompleteWriter W
  service : S
  call : Option (WriteCall × F)
  history : List (HistoryEntry Empty)
  panicked : Bool

inductive RequestEvent where
  | call (call : WriteCall)
  | resume (fate : Fate)
  | drop (performed : Bool)

def WriteCall.isFinal : WriteCall → Bool
  | .write _ => false
  | .close | .abort => true

namespace RequestSession

def new (writer : W) (service : S) : RequestSession W F S :=
  { writer := ⟨some writer⟩
    service
    call := none
    history := []
    panicked := false }

/-- A future that is dropped has returned nothing; its call counts as one that
has failed. -/
def dropped : Error :=
  .new .unexpected "dropped"

/-- `CompleteWriter` forgets its inner writer after an `Ok` of `close` or
`abort`. -/
def after (session : RequestSession W F S) (call : WriteCall) :
    W × Progress F (Except Error Unit) → RequestSession W F S
  | (writer, .suspended future) =>
      { session with
        writer := ⟨some writer⟩
        call := some (call, future) }
  | (writer, .returned result) =>
      { session with
        writer := ⟨if call.isFinal && result.isOk then none else some writer⟩
        call := none
        history := session.history ++ [call.returned result] }
  | (writer, .panicked _) =>
      { session with
        writer := ⟨some writer⟩
        call := none
        panicked := true }

def step (model : RequestWriter W F S R A) (session : RequestSession W F S) :
    RequestEvent → Option (RequestSession W F S)
  | .call call =>
      if session.panicked || session.call.isSome then
        none
      else
        match session.writer.inner with
        | none => some { session with
            history := session.history ++
              [call.returned (.error WriterSession.closedError)] }
        | some writer => some (session.after call (model.start writer call))
  | .resume fate =>
      match session.writer.inner, session.call with
      | some writer, some (call, future) =>
          let (service, answer) := model.serve session.service future fate
          some ({ session with service }.after call
            (model.resume writer future answer))
      | _, _ => none
  | .drop performed =>
      match session.call with
      | some (call, future) => some { session with
          service :=
            if performed then
              (model.perform session.service (model.request future)).1
            else
              session.service
          call := none
          history := session.history ++ [call.returned (.error dropped)] }
      | none => none

end RequestSession

/-! ## Invariants -/

/-- An invariant of the writer and its service, in terms of the history: one
for the times between the calls, one for a call that waits for an answer, and
one for the time after `close` or `abort`. -/
structure RequestInvariant (W F S : Type) where
  idle : List (HistoryEntry Empty) → W → S → Prop
  waiting : List (HistoryEntry Empty) → W → S → WriteCall → F → Prop
  ended : List (HistoryEntry Empty) → S → Prop

namespace RequestInvariant

def After (invariant : RequestInvariant W F S)
    (history : List (HistoryEntry Empty)) (service : S) (call : WriteCall) :
    W × Progress F (Except Error Unit) → Prop
  | (writer, .suspended future) =>
      invariant.waiting history writer service call future
  | (writer, .returned result) =>
      if call.isFinal && result.isOk then
        invariant.ended (history ++ [call.returned result]) service
      else
        invariant.idle (history ++ [call.returned result]) writer service
  | (_, .panicked _) => False

/-- The obligations for an invariant.  Only allowed events have to keep it. -/
structure Maintained (invariant : RequestInvariant W F S)
    (model : RequestWriter W F S R A) (allowed : RequestEvent → Prop) :
    Prop where
  start : ∀ {history writer service} call,
    invariant.idle history writer service →
    invariant.After history service call (model.start writer call)
  resume : ∀ {history writer service call future} fate,
    allowed (.resume fate) →
    invariant.waiting history writer service call future →
    invariant.After history (model.serve service future fate).1 call
      (model.resume writer future (model.serve service future fate).2)
  drop : ∀ {history writer service call future} (performed : Bool),
    allowed (.drop performed) →
    invariant.waiting history writer service call future →
    invariant.idle (history ++ [call.returned (.error RequestSession.dropped)])
      writer
      (if performed then
        (model.perform service (model.request future)).1
      else service)
  closed : ∀ {history service} (call : WriteCall),
    invariant.ended history service → invariant.ended
      (history ++ [call.returned (.error WriterSession.closedError)]) service

/-- The phase that a session is in, with what is known of it. -/
inductive Holds (invariant : RequestInvariant W F S)
    (session : RequestSession W F S) : Prop where
  | idle {writer : W} (inner : session.writer.inner = some writer)
      (unused : session.call = none) (sound : session.panicked = false)
      (known : invariant.idle session.history writer session.service)
  | waiting {writer : W} {call : WriteCall} {future : F}
      (inner : session.writer.inner = some writer)
      (called : session.call = some (call, future))
      (sound : session.panicked = false)
      (known : invariant.waiting session.history writer session.service call
        future)
  | ended (inner : session.writer.inner = none)
      (unused : session.call = none) (sound : session.panicked = false)
      (known : invariant.ended session.history session.service)

variable {invariant : RequestInvariant W F S}
  {model : RequestWriter W F S R A} {allowed : RequestEvent → Prop}
  {session later : RequestSession W F S}

theorem holds_after {call : WriteCall}
    {outcome : W × Progress F (Except Error Unit)}
    (sound : session.panicked = false)
    (after : invariant.After session.history session.service call outcome) :
    invariant.Holds (session.after call outcome) := by
  obtain ⟨writer, progress⟩ := outcome
  cases progress with
  | suspended future => exact .waiting rfl rfl sound after
  | panicked message => exact after.elim
  | returned result =>
      simp only [After] at after
      split at after
      · rename_i final
        exact .ended (by simp [RequestSession.after, final]) rfl sound after
      · rename_i going
        exact .idle (by simp [RequestSession.after, going]) rfl sound after

theorem Maintained.step {event : RequestEvent}
    (maintained : invariant.Maintained model allowed)
    (holds : invariant.Holds session) (permitted : allowed event)
    (stepped : session.step model event = some later) :
    invariant.Holds later := by
  cases holds with
  | idle inner unused sound known =>
      cases event with
      | call call =>
          simp only [RequestSession.step, sound, unused, inner] at stepped
          cases stepped
          exact holds_after sound (maintained.start call known)
      | resume fate => simp [RequestSession.step, unused] at stepped
      | drop performed => simp [RequestSession.step, unused] at stepped
  | waiting inner called sound known =>
      cases event with
      | call call => simp [RequestSession.step, called] at stepped
      | resume fate =>
          simp only [RequestSession.step, inner, called] at stepped
          cases stepped
          exact holds_after sound (maintained.resume fate permitted known)
      | drop performed =>
          simp only [RequestSession.step, called] at stepped
          cases stepped
          exact .idle inner rfl sound
            (maintained.drop performed permitted known)
  | ended inner unused sound known =>
      cases event with
      | call call =>
          simp only [RequestSession.step, sound, unused, inner] at stepped
          cases stepped
          exact .ended inner rfl rfl (maintained.closed call known)
      | resume fate => simp [RequestSession.step, unused] at stepped
      | drop performed => simp [RequestSession.step, unused] at stepped

/-- The invariant rule for whole sessions. -/
theorem Maintained.run {writer : W} {service : S}
    {events : List RequestEvent}
    (maintained : invariant.Maintained model allowed)
    (initially : invariant.idle [] writer service)
    (admissible : ∀ event ∈ events, allowed event)
    (ran : run (RequestSession.step model) (.new writer service) events =
      some session) :
    invariant.Holds session := by
  have start : invariant.Holds (RequestSession.new writer service) :=
    .idle rfl rfl rfl initially
  exact run_invariant
    (fun holds permitted stepped => maintained.step holds permitted stepped)
    start admissible ran

/-- Sessions over a sound writer do not panic. -/
theorem Holds.sound (holds : invariant.Holds session) :
    session.panicked = false := by
  cases holds with
  | idle _ _ sound _ => exact sound
  | waiting _ _ sound _ => exact sound
  | ended _ _ sound _ => exact sound

end RequestInvariant

/-! ## The writes of a history -/

/-- The writes that have come to their ends, with their results. -/
def writeResults (history : List (HistoryEntry Empty)) :
    List (Buffer × Except Error Unit) :=
  history.filterMap fun
    | .wrote bs result => some (bs, result)
    | _ => none

/-- The writes that have failed since one has been accepted, the last of them
first. -/
def unaccepted (history : List (HistoryEntry Empty)) : List Buffer :=
  ((writeResults history).reverse.takeWhile fun write =>
    !write.2.isOk).map Prod.fst

/-- The bytes of the writes that have returned `Ok`. -/
def acceptedBytes (history : List (HistoryEntry Empty)) : Bytes :=
  (acceptedWrites history).flatMap Buffer.bytes

section Histories

variable {history : List (HistoryEntry Empty)}

@[simp] theorem acceptedBytes_nil : acceptedBytes [] = [] :=
  rfl

@[simp] theorem acceptedBytes_wrote (bs : Buffer) :
    acceptedBytes (history ++ [.wrote bs (.ok ())]) =
      acceptedBytes history ++ bs.bytes := by
  simp [acceptedBytes, HistoryEntry.accepted?]

@[simp] theorem acceptedBytes_error (call : WriteCall) (err : Error) :
    acceptedBytes (history ++ [call.returned (.error err)]) =
      acceptedBytes history := by
  cases call <;>
    simp [acceptedBytes, WriteCall.returned, HistoryEntry.accepted?]

@[simp] theorem acceptedBytes_final {call : WriteCall}
    (final : call.isFinal = true) (result : Except Error Unit) :
    acceptedBytes (history ++ [call.returned result]) =
      acceptedBytes history := by
  cases call with
  | write bs => cases final
  | close =>
      simp [acceptedBytes, WriteCall.returned, HistoryEntry.accepted?]
  | abort =>
      simp [acceptedBytes, WriteCall.returned, HistoryEntry.accepted?]

@[simp] theorem writeResults_append (other : List (HistoryEntry Empty)) :
    writeResults (history ++ other) =
      writeResults history ++ writeResults other :=
  List.filterMap_append

@[simp] theorem writeResults_final {call : WriteCall}
    (final : call.isFinal = true) (result : Except Error Unit) :
    writeResults (history ++ [call.returned result]) =
      writeResults history := by
  cases call with
  | write bs => cases final
  | close => simp [writeResults, WriteCall.returned]
  | abort => simp [writeResults, WriteCall.returned]

theorem unaccepted_final {call : WriteCall} (final : call.isFinal = true)
    (result : Except Error Unit) :
    unaccepted (history ++ [call.returned result]) = unaccepted history := by
  rw [unaccepted, writeResults_final final, ← unaccepted]

@[simp] theorem unaccepted_error (bs : Buffer) (err : Error) :
    unaccepted (history ++ [.wrote bs (.error err)]) =
      bs :: unaccepted history := by
  simp [unaccepted, writeResults, Except.isOk, Except.toBool]

@[simp] theorem unaccepted_ok (bs : Buffer) :
    unaccepted (history ++ [.wrote bs (.ok ())]) = [] := by
  simp [unaccepted, writeResults, Except.isOk, Except.toBool]

end Histories

end OpenDal
