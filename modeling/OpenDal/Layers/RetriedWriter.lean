import OpenDal.Layers.ErrorContext
import OpenDal.Layers.Retry
import OpenDal.Raw.RequestWriter

/-!
# Writers behind `RetryLayer` and `TimeoutLayer`

The future of a call takes the writer out of `RetryWrapper` and attempts the
call again as long as it fails temporarily and the backoff has another delay.
It puts the writer back when it returns, so a future that is dropped takes the
writer with it.  `TimeoutWrapper` drops the future of one attempt and reports a
temporary error.

The session has two histories: the attempts, which are the calls of the writer
inside, and what the caller is told.  An invariant of the writer holds of the
attempts.  The caller hears of every success and of no other, which is why it
can be read off what the caller is told.
-/

namespace OpenDal

open Automaton

/-- The delays of a backoff, an iterator. -/
class Delays (B : Type) (D : outParam Type) where
  build : B → D
  next : B → D → Option D

instance : Delays FixedDelays Nat where
  build := FixedDelays.maxTimes
  next := fun _ delays =>
    match delays with
    | 0 => none
    | delays + 1 => some delays

def WriteCall.operation : WriteCall → Operation
  | .write _ => .writerWrite
  | .close => .writerClose
  | .abort => .writerAbort

/-- What `TimeoutWrapper::io_timeout` makes of an elapsed timeout of so many
seconds. -/
def TimeoutWrapper.ioTimeout (timeout : String) (call : WriteCall) : Error :=
  (Error.new .unexpected "io operation timeout reached").withOperation
    call.operation |>.withContext "timeout" timeout |>.setTemporary

/-- A call of the wrapper attempts the call inside or sleeps. -/
inductive RetryPhase (D : Type) where
  | attempt (delays : D)
  | sleep (delays : D)

def RetryPhase.delays {D : Type} : RetryPhase D → D
  | .attempt delays => delays
  | .sleep delays => delays

structure RetriedSession (W F S B D : Type) where
  /-- The writer with its service, and the attempts. -/
  inner : RequestSession W F S
  builder : B
  /-- The writer has been dropped with a future. -/
  lost : Bool
  call : Option (WriteCall × RetryPhase D)
  history : List (HistoryEntry Empty)

inductive RetriedEvent where
  | call (call : WriteCall)
  | resume (fate : Fate)
  | timeout (performed : Bool)
  | wake
  | drop (performed : Bool)

def HistoryEntry.result : HistoryEntry Empty → Except Error Unit
  | .wrote _ result => result
  | .closed result => result
  | .aborted result => result

variable {W F S R A B D : Type}

/-- What the last attempt has come to, unless it waits for an answer. -/
def RequestSession.attempted (session : RequestSession W F S) :
    Option (Except Error Unit) :=
  match session.call with
  | some _ => none
  | none => session.history.getLast?.map HistoryEntry.result

namespace RetriedSession

def new (writer : W) (service : S) (builder : B) : RetriedSession W F S B D :=
  { inner := .new writer service
    builder
    lost := false
    call := none
    history := [] }

/-- The error of `take_inner`. -/
def badState : Error :=
  .new .unexpected ("retry layer is in bad state, please make " ++
    "sure future not dropped before ready")

def tell (session : RetriedSession W F S B D) (call : WriteCall)
    (result : Except Error Unit) : RetriedSession W F S B D :=
  { session with
    call := none
    history := session.history ++ [call.returned result] }

variable [Delays B D]

/-- The end of an attempt. -/
def judge (session : RetriedSession W F S B D) (call : WriteCall) (delays : D) :
    Except Error Unit → RetriedSession W F S B D
  | .ok () => session.tell call (.ok ())
  | .error err =>
      if err.isTemporary then
        match Delays.next session.builder delays with
        | some delays => { session with call := some (call, .sleep delays) }
        | none => session.tell call (.error err.setPersistent)
      else
        session.tell call (.error err.setPersistent)

/-- The session after an attempt has come as far as `inner`. -/
def attempt (session : RetriedSession W F S B D) (call : WriteCall)
    (delays : D) (inner : RequestSession W F S) : RetriedSession W F S B D :=
  let session := { session with inner }
  if inner.panicked then
    { session with lost := true, call := none }
  else
    match inner.attempted with
    | none => { session with call := some (call, .attempt delays) }
    | some result => session.judge call delays result

def step (model : RequestWriter W F S R A) (timeout : String)
    (session : RetriedSession W F S B D) :
    RetriedEvent → Option (RetriedSession W F S B D)
  | .call call =>
      if session.inner.panicked || session.call.isSome then
        none
      else if session.lost then
        some (session.tell call (.error badState))
      else
        (session.inner.step model (.call call)).map
          (session.attempt call (Delays.build session.builder))
  | .resume fate =>
      match session.call with
      | some (call, .attempt delays) =>
          (session.inner.step model (.resume fate)).map
            (session.attempt call delays)
      | _ => none
  | .timeout performed =>
      match session.call with
      | some (call, .attempt delays) =>
          (session.inner.step model (.drop performed)).map fun inner =>
            { session with inner }.judge call delays
              (.error (TimeoutWrapper.ioTimeout timeout call))
      | _ => none
  | .wake =>
      match session.call with
      | some (call, .sleep delays) =>
          (session.inner.step model (.call call)).map
            (session.attempt call delays)
      | _ => none
  | .drop performed =>
      match session.call with
      | some (call, .attempt _) =>
          (session.inner.step model (.drop performed)).map fun inner =>
            { session with inner, lost := true }.tell call
              (.error RequestSession.dropped)
      | some (call, .sleep _) =>
          some ({ session with lost := true }.tell call
            (.error RequestSession.dropped))
      | none => none

end RetriedSession

/-! ## Attempts -/

namespace RequestSession

/-- What becomes of a call in one step of its session. -/
inductive Outcome (session later : RequestSession W F S) (call : WriteCall) :
    Prop where
  | panics (unsound : later.panicked = true)
  | waits {future : F} (sound : later.panicked = false)
      (called : later.call = some (call, future))
      (same : later.history = session.history)
  | returns (result : Except Error Unit) (sound : later.panicked = false)
      (past : later.call = none)
      (told : later.history = session.history ++ [call.returned result])

variable {model : RequestWriter W F S R A}
  {session later : RequestSession W F S} {call : WriteCall} {future : F}

theorem outcome_after (sound : session.panicked = false)
    (outcome : W × Progress F (Except Error Unit)) :
    Outcome session (session.after call outcome) call := by
  obtain ⟨writer, progress⟩ := outcome
  cases progress with
  | suspended future => exact .waits sound rfl rfl
  | returned result => exact .returns result sound rfl rfl
  | panicked message => exact .panics rfl

theorem outcome_call (sound : session.panicked = false)
    (stepped : session.step model (.call call) = some later) :
    Outcome session later call := by
  simp only [step] at stepped
  split at stepped
  · cases stepped
  · rename_i free
    split at stepped
    · cases stepped
      have past : session.call = none := by
        simpa [sound] using free
      exact .returns _ sound past rfl
    · cases stepped
      exact outcome_after sound _

theorem outcome_resume {fate : Fate} (sound : session.panicked = false)
    (called : session.call = some (call, future))
    (stepped : session.step model (.resume fate) = some later) :
    Outcome session later call := by
  simp only [step, called] at stepped
  split at stepped
  · rename_i writer _ _ _ same
    cases same
    cases stepped
    let served := model.serve session.service future fate
    let before : RequestSession W F S := { session with service := served.1 }
    have still : before.panicked = false := sound
    have outcome : Outcome before
        (before.after call (model.resume writer future served.2)) call :=
      outcome_after still _
    cases outcome with
    | panics unsound => exact .panics unsound
    | waits sound called same => exact .waits sound called same
    | returns result sound past told => exact .returns result sound past told
  · cases stepped

theorem drop_history {performed : Bool}
    (called : session.call = some (call, future))
    (stepped : session.step model (.drop performed) = some later) :
    later.history = session.history ++ [call.returned (.error dropped)] := by
  simp only [step, called] at stepped
  cases stepped
  rfl

theorem attempted_waiting (called : session.call = some (call, future)) :
    session.attempted = none := by
  simp [attempted, called]

theorem attempted_returned {result : Except Error Unit}
    {history : List (HistoryEntry Empty)} (past : session.call = none)
    (told : session.history = history ++ [call.returned result]) :
    session.attempted = some result := by
  cases call <;> simp [attempted, past, told, WriteCall.returned,
    HistoryEntry.result]

end RequestSession

/-! ## What the caller is told -/

/-- The calls that have returned `Ok`. -/
def successes (history : List (HistoryEntry Empty)) :
    List (HistoryEntry Empty) :=
  history.filter fun entry => entry.result.isOk

section Histories

variable {history : List (HistoryEntry Empty)}

@[simp] theorem successes_error (call : WriteCall) (err : Error) :
    successes (history ++ [call.returned (.error err)]) =
      successes history := by
  cases call <;> simp [successes, WriteCall.returned, HistoryEntry.result,
    Except.isOk, Except.toBool]

@[simp] theorem successes_ok (call : WriteCall) :
    successes (history ++ [call.returned (.ok ())]) =
      successes history ++ [call.returned (.ok ())] := by
  cases call <;> simp [successes, WriteCall.returned, HistoryEntry.result,
    Except.isOk, Except.toBool]

theorem mem_successes {call : WriteCall} :
    call.returned (.ok ()) ∈ successes history ↔
      call.returned (.ok ()) ∈ history := by
  cases call <;> simp [successes, WriteCall.returned, HistoryEntry.result,
    Except.isOk, Except.toBool]

theorem acceptedWrites_successes (history : List (HistoryEntry Empty)) :
    acceptedWrites (successes history) = acceptedWrites history := by
  rw [acceptedWrites, acceptedWrites, successes, List.filterMap_filter]
  congr 1
  funext entry
  cases entry with
  | wrote bs result => cases result <;> rfl
  | closed result => cases result <;> rfl
  | aborted result => cases result <;> rfl
  | served call => cases call

theorem mem_unaccepted_error {bs : Buffer} {call : WriteCall} {err : Error} :
    bs ∈ unaccepted (history ++ [call.returned (.error err)]) ↔
      bs ∈ unaccepted history ∨ call = .write bs := by
  cases call with
  | write other =>
      rw [WriteCall.returned, unaccepted_error, List.mem_cons]
      constructor
      · rintro (rfl | earlier)
        · exact .inr rfl
        · exact .inl earlier
      · rintro (earlier | same)
        · exact .inr earlier
        · cases same
          exact .inl rfl
  | close =>
      rw [unaccepted_final rfl]
      simp
  | abort =>
      rw [unaccepted_final rfl]
      simp

theorem mem_unaccepted_ok {bs : Buffer} {call : WriteCall} :
    bs ∈ unaccepted (history ++ [call.returned (.ok ())]) ↔
      bs ∈ unaccepted history ∧ call.isFinal = true := by
  cases call with
  | write other => simp [WriteCall.returned, WriteCall.isFinal]
  | close =>
      rw [unaccepted_final rfl]
      simp [WriteCall.isFinal]
  | abort =>
      rw [unaccepted_final rfl]
      simp [WriteCall.isFinal]

end Histories

namespace RetriedSession

/-- The write has failed since one has been accepted, or it is under way. -/
def Unaccepted (session : RetriedSession W F S B D) (bs : Buffer) : Prop :=
  bs ∈ unaccepted session.history ∨
    ∃ phase, session.call = some (.write bs, phase)

/-- The caller is told of every success, and of no other. -/
structure Tells (session : RetriedSession W F S B D) : Prop where
  succeeded : successes session.history = successes session.inner.history
  failed : ∀ bs ∈ unaccepted session.inner.history, session.Unaccepted bs
  attempting : ∀ call delays, session.call = some (call, .attempt delays) →
    ∃ future, session.inner.call = some (call, future)

/-- The same while `call` is attempted or about to be. -/
structure Tries (session : RetriedSession W F S B D) (call : WriteCall) :
    Prop where
  succeeded : successes session.history = successes session.inner.history
  failed : ∀ bs ∈ unaccepted session.inner.history,
    bs ∈ unaccepted session.history ∨ call = .write bs

variable {session : RetriedSession W F S B D} {call : WriteCall} {delays : D}

theorem Tells.idle (tells : session.Tells) (free : session.call = none)
    (call : WriteCall) : session.Tries call where
  succeeded := tells.succeeded
  failed := by
    intro bs member
    rcases tells.failed bs member with told | ⟨phase, called⟩
    · exact .inl told
    · simp [free] at called

theorem Tells.busy {phase : RetryPhase D} (tells : session.Tells)
    (called : session.call = some (call, phase)) : session.Tries call where
  succeeded := tells.succeeded
  failed := by
    intro bs member
    rcases tells.failed bs member with told | ⟨other, same⟩
    · exact .inl told
    · cases called.symm.trans same
      exact .inr rfl

theorem Tries.tell_error (tries : session.Tries call) (err : Error) :
    (session.tell call (.error err)).Tells where
  succeeded := by
    simp only [tell, successes_error]
    exact tries.succeeded
  failed := fun bs member =>
    .inl (mem_unaccepted_error.mpr (tries.failed bs member))
  attempting := by
    rintro other delays ⟨⟩

theorem Tries.fail {inner : RequestSession W F S} {err : Error}
    (tries : session.Tries call)
    (told : inner.history =
      session.inner.history ++ [call.returned (.error err)]) :
    ({ session with inner } : RetriedSession W F S B D).Tries call where
  succeeded := by
    simp only [told, successes_error]
    exact tries.succeeded
  failed := by
    intro bs member
    simp only [told] at member
    rcases mem_unaccepted_error.mp member with earlier | same
    · exact tries.failed bs earlier
    · exact .inr same

theorem Tries.succeed {inner : RequestSession W F S}
    (tries : session.Tries call)
    (told : inner.history = session.inner.history ++ [call.returned (.ok ())]) :
    (({ session with inner } : RetriedSession W F S B D).tell call
      (.ok ())).Tells where
  succeeded := by
    simp only [tell, told, successes_ok, tries.succeeded]
  failed := by
    intro bs member
    simp only [tell, told] at member
    obtain ⟨earlier, final⟩ := mem_unaccepted_ok.mp member
    rcases tries.failed bs earlier with told | rfl
    · exact .inl (mem_unaccepted_ok.mpr ⟨told, final⟩)
    · cases final
  attempting := by
    rintro other delays ⟨⟩

variable [Delays B D]

theorem Tries.judge_error (tries : session.Tries call) (err : Error) :
    (session.judge call delays (.error err)).Tells := by
  simp only [judge]
  split
  · split
    · exact
        { succeeded := tries.succeeded
          failed := by
            intro bs member
            rcases tries.failed bs member with told | rfl
            · exact .inl told
            · exact .inr ⟨_, rfl⟩
          attempting := by rintro other delays ⟨⟩ }
    · exact tries.tell_error _
  · exact tries.tell_error _

theorem Tries.attempt {inner : RequestSession W F S}
    (tries : session.Tries call)
    (outcome : session.inner.Outcome inner call)
    (sound : inner.panicked = false) :
    (session.attempt call delays inner).Tells := by
  simp only [RetriedSession.attempt, sound, Bool.false_eq_true, if_false]
  cases outcome with
  | panics unsound => simp [sound] at unsound
  | waits _ called same =>
      rw [RequestSession.attempted_waiting called]
      exact
        { succeeded := by
            simp only [same]
            exact tries.succeeded
          failed := by
            intro bs member
            simp only [same] at member
            rcases tries.failed bs member with told | rfl
            · exact .inl told
            · exact .inr ⟨_, rfl⟩
          attempting := by
            rintro other delays ⟨⟩
            exact ⟨_, called⟩ }
  | returns result _ past told =>
      rw [RequestSession.attempted_returned past told]
      cases result with
      | ok value => exact tries.succeed told
      | error err => exact (tries.fail told).judge_error err

/-! ## Runs -/

@[simp] theorem judge_inner (result : Except Error Unit) :
    (session.judge call delays result).inner = session.inner := by
  cases result with
  | ok value => rfl
  | error err =>
      simp only [judge]
      split
      · split <;> rfl
      · rfl

@[simp] theorem attempt_inner (inner : RequestSession W F S) :
    (session.attempt call delays inner).inner = inner := by
  simp only [attempt]
  split
  · rfl
  · split
    · rfl
    · simp

end RetriedSession

/-- The event does to the requests of an attempt what is allowed. -/
def RetriedEvent.Within (allowed : RequestEvent → Prop) : RetriedEvent → Prop
  | .call _ => True
  | .resume fate => allowed (.resume fate)
  | .timeout performed => allowed (.drop performed)
  | .wake => True
  | .drop performed => allowed (.drop performed)

namespace RetriedSession

variable {invariant : RequestInvariant W F S} {model : RequestWriter W F S R A}
  {allowed : RequestEvent → Prop} {timeout : String}
  {session later : RetriedSession W F S B D}

/-- An invariant of the writer holds of the attempts, and the caller is told of
the successful ones. -/
structure Sound (invariant : RequestInvariant W F S)
    (session : RetriedSession W F S B D) : Prop where
  holds : invariant.Holds session.inner
  tells : session.Tells

theorem sound_new {writer : W} {service : S} {builder : B}
    (initially : invariant.idle [] writer service) :
    (RetriedSession.new writer service builder :
      RetriedSession W F S B D).Sound invariant where
  holds := .idle rfl rfl rfl initially
  tells :=
    { succeeded := rfl
      failed := by
        rintro bs ⟨⟩
      attempting := by
        rintro call delays ⟨⟩ }

variable [Delays B D]

theorem Sound.step (sound : session.Sound invariant)
    (maintained : invariant.Maintained model allowed)
    (calls : ∀ call, allowed (.call call)) {event : RetriedEvent}
    (permitted : event.Within allowed)
    (stepped : session.step model timeout event = some later) :
    later.Sound invariant := by
  obtain ⟨holds, tells⟩ := sound
  cases event with
  | call call =>
      simp only [RetriedSession.step] at stepped
      split at stepped
      · cases stepped
      · rename_i free
        have idle : session.call = none := by
          simpa [holds.sound] using free
        split at stepped
        · cases stepped
          exact ⟨holds, (tells.idle idle call).tell_error _⟩
        · obtain ⟨inner, began, rfl⟩ := Option.map_eq_some_iff.mp stepped
          have after := maintained.step holds (calls call) began
          have outcome := RequestSession.outcome_call holds.sound began
          exact ⟨by simpa using after,
            (tells.idle idle call).attempt outcome after.sound⟩
  | resume fate =>
      simp only [RetriedSession.step] at stepped
      split at stepped
      · rename_i call delays called
        obtain ⟨inner, resumed, rfl⟩ := Option.map_eq_some_iff.mp stepped
        obtain ⟨future, waits⟩ := tells.attempting call delays called
        have after := maintained.step holds permitted resumed
        have outcome := RequestSession.outcome_resume holds.sound waits resumed
        exact ⟨by simpa using after,
          (tells.busy called).attempt outcome after.sound⟩
      · cases stepped
  | timeout performed =>
      simp only [RetriedSession.step] at stepped
      split at stepped
      · rename_i call delays called
        obtain ⟨inner, dropped, rfl⟩ := Option.map_eq_some_iff.mp stepped
        obtain ⟨future, waits⟩ := tells.attempting call delays called
        have after := maintained.step holds permitted dropped
        have told := RequestSession.drop_history waits dropped
        exact ⟨by simpa using after,
          ((tells.busy called).fail told).judge_error _⟩
      · cases stepped
  | wake =>
      simp only [RetriedSession.step] at stepped
      split at stepped
      · rename_i call delays called
        obtain ⟨inner, began, rfl⟩ := Option.map_eq_some_iff.mp stepped
        have after := maintained.step holds (calls call) began
        have outcome := RequestSession.outcome_call holds.sound began
        exact ⟨by simpa using after,
          (tells.busy called).attempt outcome after.sound⟩
      · cases stepped
  | drop performed =>
      simp only [RetriedSession.step] at stepped
      split at stepped
      · rename_i call delays called
        obtain ⟨inner, dropped, rfl⟩ := Option.map_eq_some_iff.mp stepped
        obtain ⟨future, waits⟩ := tells.attempting call delays called
        have after := maintained.step holds permitted dropped
        have told := RequestSession.drop_history waits dropped
        obtain ⟨succeeded, failed⟩ := (tells.busy called).fail told
        have tries : ({ session with inner, lost := true } :
            RetriedSession W F S B D).Tries call := ⟨succeeded, failed⟩
        exact ⟨after, tries.tell_error _⟩
      · rename_i call delays called
        cases stepped
        obtain ⟨succeeded, failed⟩ := tells.busy called
        have tries : ({ session with lost := true } :
            RetriedSession W F S B D).Tries call := ⟨succeeded, failed⟩
        exact ⟨holds, tries.tell_error _⟩
      · cases stepped

/-- The invariant rule for sessions behind the retry layer. -/
theorem sound_run {writer : W} {service : S} {builder : B}
    {events : List RetriedEvent}
    (maintained : invariant.Maintained model allowed)
    (calls : ∀ call, allowed (.call call))
    (initially : invariant.idle [] writer service)
    (permitted : ∀ event ∈ events, event.Within allowed)
    (ran : run (step model timeout) (.new writer service builder) events =
      some session) :
    session.Sound invariant :=
  run_invariant
    (fun sound permitted stepped =>
      sound.step maintained calls permitted stepped)
    (sound_new initially) permitted ran

end RetriedSession

/-! ## Enough delays -/

/-- A request that fails makes its call fail with the same error, and no other
call fails, except with the errors that are excused. -/
structure RequestInvariant.Prompt (invariant : RequestInvariant W F S)
    (model : RequestWriter W F S R A) (excused : WriteCall → Error → Prop) :
    Prop where
  permanent : ∀ {call err}, excused call err → err.isTemporary = false
  starts : ∀ {history writer service call err},
    invariant.idle history writer service →
    (model.start writer call).2 = .returned (.error err) → excused call err
  fails : ∀ {history writer service call future} err,
    invariant.waiting history writer service call future →
    (model.resume writer future (.error err)).2 = .returned (.error err)
  answers : ∀ {history writer service call future err},
    invariant.waiting history writer service call future →
    (model.resume writer future
      (model.perform service (model.request future)).2).2 =
        .returned (.error err) → excused call err

/-- The error that a request fails with, if it does. -/
def Fate.error? : Fate → Option Error
  | .answered => none
  | .lost err => some err
  | .refused err => some err

namespace RequestSession

variable {invariant : RequestInvariant W F S} {model : RequestWriter W F S R A}
  {excused : WriteCall → Error → Prop} {session later : RequestSession W F S}
  {call : WriteCall} {future : F}

theorem attempted_after {outcome : W × Progress F (Except Error Unit)}
    {result : Except Error Unit}
    (sound : (session.after call outcome).panicked = false) :
    (session.after call outcome).attempted = some result ↔
      outcome.2 = .returned result := by
  obtain ⟨writer, progress⟩ := outcome
  cases progress with
  | suspended future => simp [after, attempted]
  | panicked message => cases sound
  | returned told =>
      have past : (session.after call (writer, .returned told)).attempted =
          some told :=
        attempted_returned rfl rfl
      simp [past]

theorem fails_call (prompt : invariant.Prompt model excused)
    (holds : invariant.Holds session)
    (began : session.step model (.call call) = some later)
    (sound : later.panicked = false) {err : Error}
    (failed : later.attempted = some (.error err)) :
    excused call err ∨ err = WriterSession.closedError := by
  cases holds with
  | idle inner unused unpanicked known =>
      simp only [step, unpanicked, unused, inner] at began
      cases began
      have returned := (attempted_after sound).mp failed
      exact .inl (prompt.starts known returned)
  | waiting inner called unpanicked known => simp [step, called] at began
  | ended inner unused unpanicked known =>
      simp only [step, unpanicked, unused, inner] at began
      have told : later.history = session.history ++
          [call.returned (.error WriterSession.closedError)] := by
        cases began
        rfl
      have past : later.call = none := by
        cases began
        rfl
      rw [attempted_returned past told] at failed
      cases failed
      exact .inr rfl

theorem fails_answered (prompt : invariant.Prompt model excused)
    (holds : invariant.Holds session)
    (called : session.call = some (call, future))
    (resumed : session.step model (.resume .answered) = some later)
    (sound : later.panicked = false) {err : Error}
    (failed : later.attempted = some (.error err)) : excused call err := by
  cases holds with
  | idle _ unused _ _ => simp [called] at unused
  | ended _ unused _ _ => simp [called] at unused
  | waiting inner waits unpanicked known =>
      cases called.symm.trans waits
      simp only [step, inner, called] at resumed
      cases resumed
      have returned := (attempted_after sound).mp failed
      exact prompt.answers known returned

theorem fails_resume (prompt : invariant.Prompt model excused)
    (holds : invariant.Holds session)
    (called : session.call = some (call, future)) {fate : Fate} {err : Error}
    (fails : fate.error? = some err)
    (resumed : session.step model (.resume fate) = some later)
    (sound : later.panicked = false) :
    later.attempted = some (.error err) := by
  cases holds with
  | idle _ unused _ _ => simp [called] at unused
  | ended _ unused _ _ => simp [called] at unused
  | waiting inner waits unpanicked known =>
      cases called.symm.trans waits
      simp only [step, inner, called] at resumed
      cases resumed
      apply (attempted_after sound).mpr
      cases fate with
      | answered => cases fails
      | lost cause =>
          cases fails
          exact prompt.fails _ known
      | refused cause =>
          cases fails
          exact prompt.fails _ known

end RequestSession

namespace RetriedSession

/-- How often requests have failed in the current call.  It is `none` as soon as
this is more than `limit` times, a failure is not temporary or a future is
dropped. -/
def failures (limit spent : Nat) : RetriedEvent → Option Nat
  | .call _ => some 0
  | .resume fate =>
      match fate.error? with
      | none => some spent
      | some err =>
          if err.isTemporary && spent < limit then some (spent + 1) else none
  | .timeout _ => if spent < limit then some (spent + 1) else none
  | .wake => some spent
  | .drop _ => none

/-- The delays are enough for the failures of each call. -/
def Mild (limit : Nat) (events : List RetriedEvent) : Prop :=
  (run (failures limit) 0 events).isSome = true

variable {invariant : RequestInvariant W F S} {model : RequestWriter W F S R A}
  {excused : WriteCall → Error → Prop} {allowed : RequestEvent → Prop}
  {timeout : String} {limit spent : Nat}
  {session later : RetriedSession W F S FixedDelays Nat} {call : WriteCall}
  {delays : Nat}

/-- Errors that the caller may be told of. -/
def Expected (excused : WriteCall → Error → Prop) (call : WriteCall)
    (err : Error) : Prop :=
  ∃ cause, err = cause.setPersistent ∧
    (excused call cause ∨ cause = WriterSession.closedError)

/-- The delays that are left, with those that have been spent, are all. -/
structure Endures (excused : WriteCall → Error → Prop) (limit spent : Nat)
    (session : RetriedSession W F S FixedDelays Nat) : Prop where
  held : session.lost = false
  builder : session.builder.maxTimes = limit
  delays : ∀ call phase, session.call = some (call, phase) →
    phase.delays + spent = limit
  told : ∀ call err, call.returned (.error err) ∈ session.history →
    Expected excused call err

theorem Endures.idle (endures : session.Endures excused limit spent)
    (free : session.call = none) : session.Endures excused limit 0 where
  held := endures.held
  builder := endures.builder
  delays := by simp [free]
  told := endures.told

theorem Endures.inner (endures : session.Endures excused limit spent)
    (inner : RequestSession W F S) :
    ({ session with inner } :
      RetriedSession W F S FixedDelays Nat).Endures excused limit spent :=
  ⟨endures.held, endures.builder, endures.delays, endures.told⟩

theorem returned_injective {call other : WriteCall}
    {result told : Except Error Unit}
    (same : (call.returned result : HistoryEntry Empty) = other.returned told) :
    call = other ∧ result = told := by
  cases call <;> cases other <;> cases same <;> exact ⟨rfl, rfl⟩

theorem Endures.tell {result : Except Error Unit}
    (endures : session.Endures excused limit spent)
    (expected : ∀ err, result = .error err → Expected excused call err) :
    (session.tell call result).Endures excused limit spent where
  held := endures.held
  builder := endures.builder
  delays := by
    rintro other phase ⟨⟩
  told := by
    intro other err member
    rcases List.mem_append.mp member with earlier | last
    · exact endures.told other err earlier
    · obtain ⟨rfl, same⟩ := returned_injective (List.mem_singleton.mp last)
      exact expected err same.symm

theorem Endures.spend {err : Error}
    (endures : session.Endures excused limit spent)
    (counted : delays + spent = limit) (enough : spent < limit)
    (temporary : err.isTemporary = true) :
    (session.judge call delays (.error err)).Endures excused limit
      (spent + 1) := by
  obtain ⟨left, rfl⟩ : ∃ left, delays = left + 1 :=
    Nat.exists_eq_succ_of_ne_zero (by omega)
  simp only [judge, temporary, if_true, Delays.next]
  exact
    { held := endures.held
      builder := endures.builder
      delays := by
        rintro other phase ⟨⟩
        simp only [RetryPhase.delays]
        omega
      told := endures.told }

theorem Endures.judge {result : Except Error Unit}
    (endures : session.Endures excused limit spent)
    (permanent : ∀ err, result = .error err → err.isTemporary = false ∧
      (excused call err ∨ err = WriterSession.closedError)) :
    (session.judge call delays result).Endures excused limit spent := by
  cases result with
  | ok value =>
      apply endures.tell
      rintro err ⟨⟩
  | error err =>
      obtain ⟨lasting, blame⟩ := permanent err rfl
      simp only [RetriedSession.judge, lasting, Bool.false_eq_true, if_false]
      apply endures.tell
      rintro other ⟨⟩
      exact ⟨err, rfl, blame⟩

theorem Endures.attempt {inner : RequestSession W F S}
    (endures : session.Endures excused limit spent)
    (counted : delays + spent = limit) (sound : inner.panicked = false)
    (permanent : ∀ err, inner.attempted = some (.error err) →
      err.isTemporary = false ∧
        (excused call err ∨ err = WriterSession.closedError)) :
    (session.attempt call delays inner).Endures excused limit spent := by
  simp only [RetriedSession.attempt, sound, Bool.false_eq_true, if_false]
  split
  · exact
      { held := endures.held
        builder := endures.builder
        delays := by
          rintro other phase ⟨⟩
          exact counted
        told := endures.told }
  · rename_i result attempted
    apply (endures.inner inner).judge
    rintro err rfl
    exact permanent err attempted

theorem Endures.attempt_fails {inner : RequestSession W F S} {err : Error}
    (endures : session.Endures excused limit spent)
    (counted : delays + spent = limit) (enough : spent < limit)
    (temporary : err.isTemporary = true) (sound : inner.panicked = false)
    (failed : inner.attempted = some (.error err)) :
    (session.attempt call delays inner).Endures excused limit (spent + 1) := by
  simp only [RetriedSession.attempt, sound, Bool.false_eq_true, if_false,
    failed]
  exact (endures.inner inner).spend counted enough temporary

theorem isTemporary_ioTimeout (call : WriteCall) :
    (TimeoutWrapper.ioTimeout timeout call).isTemporary = true := by
  rfl

theorem closedError_permanent :
    WriterSession.closedError.isTemporary = false := by
  rfl

theorem Endures.step (endures : session.Endures excused limit spent)
    (sound : session.Sound invariant)
    (maintained : invariant.Maintained model allowed)
    (prompt : invariant.Prompt model excused)
    (calls : ∀ call, allowed (.call call)) {event : RetriedEvent}
    (permitted : event.Within allowed) {total : Nat}
    (counts : failures limit spent event = some total)
    (stepped : session.step model timeout event = some later) :
    later.Endures excused limit total := by
  have soundLater := sound.step maintained calls permitted stepped
  obtain ⟨holds, tells⟩ := sound
  -- what a call that has begun fails with
  have lasting : ∀ {call err}, excused call err ∨
      err = WriterSession.closedError → err.isTemporary = false ∧
        (excused call err ∨ err = WriterSession.closedError) := by
    rintro call err (own | rfl)
    · exact ⟨prompt.permanent own, .inl own⟩
    · exact ⟨closedError_permanent, .inr rfl⟩
  cases event with
  | call call =>
      cases counts
      simp only [RetriedSession.step, endures.held] at stepped
      split at stepped
      · cases stepped
      · rename_i free
        have idle : session.call = none := by
          simpa [holds.sound] using free
        obtain ⟨inner, began, rfl⟩ := Option.map_eq_some_iff.mp stepped
        have after : inner.panicked = false := by
          simpa using soundLater.holds.sound
        apply (endures.idle idle).attempt
        · exact endures.builder
        · exact after
        · intro err failed
          exact lasting
            (RequestSession.fails_call prompt holds began after failed)
  | resume fate =>
      simp only [RetriedSession.step] at stepped
      split at stepped
      · rename_i call delays called
        obtain ⟨inner, resumed, rfl⟩ := Option.map_eq_some_iff.mp stepped
        have after : inner.panicked = false := by
          simpa using soundLater.holds.sound
        obtain ⟨future, waits⟩ := tells.attempting call delays called
        have left : delays + spent = limit := endures.delays call _ called
        simp only [failures] at counts
        split at counts
        · rename_i answered
          cases counts
          have same : fate = .answered := by
            cases fate with
            | answered => rfl
            | lost err => cases answered
            | refused err => cases answered
          subst same
          apply endures.attempt left after
          intro err failed
          exact lasting (.inl (RequestSession.fails_answered prompt holds
            waits resumed after failed))
        · rename_i err fails
          split at counts
          · rename_i within
            cases counts
            obtain ⟨temporary, enough⟩ : err.isTemporary = true ∧
                spent < limit := by
              simpa using within
            have failed := RequestSession.fails_resume prompt holds waits
              fails resumed after
            exact endures.attempt_fails left enough temporary after failed
          · cases counts
      · cases stepped
  | timeout performed =>
      simp only [RetriedSession.step] at stepped
      split at stepped
      · rename_i call delays called
        obtain ⟨inner, dropped, rfl⟩ := Option.map_eq_some_iff.mp stepped
        have left : delays + spent = limit := endures.delays call _ called
        simp only [failures] at counts
        split at counts
        · rename_i enough
          cases counts
          exact (endures.inner inner).spend left enough
            (isTemporary_ioTimeout call)
        · cases counts
      · cases stepped
  | wake =>
      cases counts
      simp only [RetriedSession.step] at stepped
      split at stepped
      · rename_i call delays called
        obtain ⟨inner, began, rfl⟩ := Option.map_eq_some_iff.mp stepped
        have after : inner.panicked = false := by
          simpa using soundLater.holds.sound
        have left : delays + spent = limit := endures.delays call _ called
        apply endures.attempt left after
        intro err failed
        exact lasting
          (RequestSession.fails_call prompt holds began after failed)
      · cases stepped
  | drop performed => cases counts

theorem Endures.run {total : Nat} {events : List RetriedEvent}
    (maintained : invariant.Maintained model allowed)
    (prompt : invariant.Prompt model excused)
    (calls : ∀ call, allowed (.call call))
    (endures : session.Endures excused limit spent)
    (sound : session.Sound invariant)
    (permitted : ∀ event ∈ events, event.Within allowed)
    (counts : Automaton.run (failures limit) spent events = some total)
    (ran : Automaton.run (RetriedSession.step model timeout) session events =
      some later) :
    later.Endures excused limit total := by
  induction events generalizing session spent with
  | nil =>
      cases counts
      cases ran
      exact endures
  | cons event events induction =>
      obtain ⟨middle, counted, rest⟩ := run_cons_eq_some_iff.mp counts
      obtain ⟨next, stepped, others⟩ := run_cons_eq_some_iff.mp ran
      have first : event.Within allowed := permitted event List.mem_cons_self
      exact induction
        (endures.step sound maintained prompt calls first counted stepped)
        (sound.step maintained calls first stepped)
        (fun other member => permitted other (List.mem_cons_of_mem event member))
        rest others

/-- In mild weather the caller is told of no failure, except of those that are
not due to a request. -/
theorem expected_run {writer : W} {service : S} {builder : FixedDelays}
    {events : List RetriedEvent}
    (maintained : invariant.Maintained model allowed)
    (prompt : invariant.Prompt model excused)
    (calls : ∀ call, allowed (.call call))
    (initially : invariant.idle [] writer service)
    (permitted : ∀ event ∈ events, event.Within allowed)
    (mild : Mild builder.maxTimes events)
    (ran : run (step model timeout) (.new writer service builder) events =
      some session) {err : Error}
    (told : call.returned (.error err) ∈ session.history) :
    Expected excused call err := by
  obtain ⟨spent, counted⟩ := Option.isSome_iff_exists.mp mild
  have endures : (RetriedSession.new writer service builder :
      RetriedSession W F S FixedDelays Nat).Endures excused builder.maxTimes
        0 :=
    { held := rfl
      builder := rfl
      delays := by
        rintro other phase ⟨⟩
      told := by
        rintro other cause ⟨⟩ }
  have sound : (RetriedSession.new writer service builder :
      RetriedSession W F S FixedDelays Nat).Sound invariant :=
    sound_new initially
  exact (endures.run maintained prompt calls sound permitted counted
    ran).told call err told

end RetriedSession

end OpenDal
