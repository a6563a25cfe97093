import OpenDal.Raw.WriterPanics

/-!
# Writes after a late failure

`close` gives the cached buffer to the queue before it waits for the parts, and
`abort` drops it before it calls the service.  Where such a call fails after
that, it leaves behind an upload without a cached buffer, and nothing brings
one back: every later `write` panics.  No other call does.
-/

namespace OpenDal

open Automaton

section Caches

variable {W WF CF AF E L : Type}

def Progress.map {F G α : Type} (wrap : F → G) : Progress F α → Progress G α
  | .suspended future => .suspended (wrap future)
  | .returned value => .returned value
  | .panicked message => .panicked message

def CallFuture.isWrite : CallFuture WF CF AF → Bool
  | .write _ _ => true
  | _ => false

/-- Resume the call in flight, whichever it is. -/
def OioWrite.resume (model : OioWrite W WF CF AF E L) (writer : W)
    (event : E) : CallFuture WF CF AF →
      Option (W × Progress (CallFuture WF CF AF) (Except Error Unit))
  | .write bs future => (model.resumeWrite writer future event).map
      fun (next, progress, _) => (next, progress.map (.write bs))
  | .close future => (model.resumeClose writer future event).map
      fun (next, progress, _) => (next, progress.map .close)
  | .abort future => (model.resumeAbort writer future event).map
      fun (next, progress, _) => (next, progress.map .abort)

namespace WriterSession

/-- The call in flight is one of the `late` ones, and it returns `Err`. -/
def FailsLate (model : OioWrite W WF CF AF E L)
    (late : CallFuture WF CF AF → Prop)
    (session : WriterSession W WF CF AF L) (event : SessionEvent E) : Prop :=
  ∃ call later, session.call = some call ∧ late call ∧
    session.step model event = some later ∧ later.call = none ∧
    later.panicked = false ∧ later.writer.inner.isSome = true

/-- What resuming `call` does to a session. -/
def Resumed (session later : WriterSession W WF CF AF L)
    (call : CallFuture WF CF AF) (next : W) :
    Progress (CallFuture WF CF AF) (Except Error Unit) → Prop
  | .suspended future => later.panicked = session.panicked ∧
      later.writer.inner = some next ∧ later.call = some future
  | .returned (.error _) => later.panicked = session.panicked ∧
      later.writer.inner = some next ∧ later.call = none
  | .returned (.ok ()) => later.panicked = session.panicked ∧
      later.writer.inner = (if call.isWrite then some next else none) ∧
      later.call = none
  | .panicked _ => later.panicked = true

variable {model : OioWrite W WF CF AF E L}
  {session later : WriterSession W WF CF AF L} {event : E}

theorem resume_cases (stepped : session.step model (.resume event) =
    some later) :
    ∃ writer call next progress, session.writer.inner = some writer ∧
      session.call = some call ∧
      model.resume writer event call = some (next, progress) ∧
      session.Resumed later call next progress := by
  simp only [step] at stepped
  split at stepped
  · rename_i writer bs future inner called
    obtain ⟨⟨next, progress, served⟩, resumed, rfl⟩ :=
      Option.map_eq_some_iff.mp stepped
    refine ⟨writer, _, next, progress.map (.write bs), inner, called, ?_, ?_⟩
    · simp [OioWrite.resume, resumed]
    · cases progress with
      | suspended future => exact ⟨rfl, rfl, rfl⟩
      | panicked message => rfl
      | returned result => cases result <;> exact ⟨rfl, rfl, rfl⟩
  · rename_i writer future inner called
    obtain ⟨⟨next, progress, served⟩, resumed, rfl⟩ :=
      Option.map_eq_some_iff.mp stepped
    refine ⟨writer, _, next, progress.map .close, inner, called, ?_, ?_⟩
    · simp [OioWrite.resume, resumed]
    · cases progress with
      | suspended future => exact ⟨rfl, rfl, rfl⟩
      | panicked message => rfl
      | returned result => cases result <;> exact ⟨rfl, rfl, rfl⟩
  · rename_i writer future inner called
    obtain ⟨⟨next, progress, served⟩, resumed, rfl⟩ :=
      Option.map_eq_some_iff.mp stepped
    refine ⟨writer, _, next, progress.map .abort, inner, called, ?_, ?_⟩
    · simp [OioWrite.resume, resumed]
    · cases progress with
      | suspended future => exact ⟨rfl, rfl, rfl⟩
      | panicked message => rfl
      | returned result => cases result <;> exact ⟨rfl, rfl, rfl⟩
  · cases stepped

/-- What is true of the writer of a session that has not panicked, between two
calls and during one. -/
def Now (session : WriterSession W WF CF AF L) (idle : W → Prop)
    (busy : W → CallFuture WF CF AF → Prop) : Prop :=
  session.panicked = false → ∀ writer, session.writer.inner = some writer →
    match session.call with
    | none => idle writer
    | some call => busy writer call

end WriterSession

/-- When the cached buffer of an upload is missing, which calls give it away,
and what is true of the writer during a call before and after that has
happened. -/
structure Caches (W WF CF AF : Type) where
  spent : W → Prop
  late : CallFuture WF CF AF → Prop
  held : W → CallFuture WF CF AF → Prop
  gone : W → CallFuture WF CF AF → Prop

namespace Caches

/-- Only a late call that fails takes the buffer with it. -/
def AfterHeld (caches : Caches W WF CF AF) (call : CallFuture WF CF AF)
    (next : W) :
    Progress (CallFuture WF CF AF) (Except Error Unit) → Prop
  | .suspended future => caches.held next future
  | .returned (.error _) => (caches.late call → caches.spent next) ∧
      (¬ caches.late call → ¬ caches.spent next)
  | .returned (.ok ()) => call.isWrite = true → ¬ caches.spent next
  | .panicked _ => True

/-- Without the buffer no `write` comes to its end. -/
def AfterGone (caches : Caches W WF CF AF) (call : CallFuture WF CF AF)
    (next : W) :
    Progress (CallFuture WF CF AF) (Except Error Unit) → Prop
  | .suspended future => caches.gone next future
  | .returned (.error _) => caches.spent next
  | .returned (.ok ()) => call.isWrite = false
  | .panicked _ => True

structure Lawful (caches : Caches W WF CF AF)
    (model : OioWrite W WF CF AF E L) : Prop where
  startHeld : ∀ {writer} call, ¬ caches.spent writer →
    caches.held writer (model.start call)
  startGone : ∀ {writer} call, caches.spent writer →
    caches.gone writer (model.start call)
  resumeHeld : ∀ {writer event call next progress},
    caches.held writer call →
    model.resume writer event call = some (next, progress) →
    caches.AfterHeld call next progress
  resumeGone : ∀ {writer event call next progress},
    caches.gone writer call →
    model.resume writer event call = some (next, progress) →
    caches.AfterGone call next progress
  background : ∀ {writer event next served},
    model.background writer event = some (next, served) →
    (caches.spent next ↔ caches.spent writer) ∧
      ∀ call, (caches.held writer call → caches.held next call) ∧
        (caches.gone writer call → caches.gone next call)
  unwritten : ∀ {call}, caches.late call → call.isWrite = false

def Level (caches : Caches W WF CF AF)
    (session : WriterSession W WF CF AF L) : Prop :=
  session.Now (¬ caches.spent ·) caches.held

def Gap (caches : Caches W WF CF AF) (session : WriterSession W WF CF AF L) :
    Prop :=
  session.Now caches.spent caches.gone

variable {caches : Caches W WF CF AF} {model : OioWrite W WF CF AF E L}
  {session later : WriterSession W WF CF AF L} {event : SessionEvent E}

/-- The steps that are not those of a call in flight keep what they have
found. -/
theorem Lawful.now {idle : W → Prop} {busy : W → CallFuture WF CF AF → Prop}
    (starts : ∀ {writer} call, idle writer → busy writer (model.start call))
    (moves : ∀ {writer event next served},
      model.background writer event = some (next, served) →
      (idle writer → idle next) ∧ ∀ call, busy writer call → busy next call)
    (resumes : ∀ {resumption writer call next progress},
      event = .resume resumption → session.call = some call →
      busy writer call →
      model.resume writer resumption call = some (next, progress) →
      session.Resumed later call next progress → later.Now idle busy)
    (now : session.Now idle busy)
    (stepped : session.step model event = some later) :
    later.Now idle busy := by
  intro sound writer inner
  cases event with
  | call call =>
      simp only [WriterSession.step] at stepped
      split at stepped
      · cases stepped
      · rename_i ready
        simp only [Bool.or_eq_true, not_or, Bool.not_eq_true,
          Option.isSome_eq_false_iff, Option.isNone_iff_eq_none] at ready
        split at stepped
        · rename_i closed
          cases stepped
          simp [closed] at inner
        · rename_i found held
          cases stepped
          cases held.symm.trans inner
          have before := now ready.1 writer held
          rw [ready.2] at before
          exact starts call before
  | resume event =>
      obtain ⟨found, call, next, progress, held, called, resumed, outcome⟩ :=
        WriterSession.resume_cases stepped
      have unpanicked : session.panicked = false := by
        cases progress with
        | suspended future => exact outcome.1 ▸ sound
        | panicked message => exact absurd (outcome.symm.trans sound) (by simp)
        | returned result => cases result <;> exact outcome.1 ▸ sound
      have before := now unpanicked found held
      rw [called] at before
      exact resumes rfl called before resumed outcome sound writer inner
  | background event =>
      simp only [WriterSession.step] at stepped
      split at stepped
      · rename_i found unpanicked held
        obtain ⟨⟨next, served⟩, moved, rfl⟩ :=
          Option.map_eq_some_iff.mp stepped
        cases inner
        obtain ⟨idles, busies⟩ := moves moved
        have before := now unpanicked found held
        cases called : session.call with
        | none =>
            rw [called] at before
            simpa [called] using idles before
        | some call =>
            rw [called] at before
            simpa [called] using busies call before
      · cases stepped

theorem Lawful.keeps (lawful : caches.Lawful model)
    (level : caches.Level session)
    (early : ¬ session.FailsLate model caches.late event)
    (stepped : session.step model event = some later) :
    caches.Level later := by
  refine Lawful.now lawful.startHeld ?_ ?_ level stepped
  · intro writer resumption next served moved
    obtain ⟨same, busy⟩ := lawful.background moved
    exact ⟨fun kept spent => kept (same.mp spent), fun call => (busy call).1⟩
  · intro resumption writer call next progress _ called held resumed outcome
    have after := lawful.resumeHeld held resumed
    intro sound found inner
    cases progress with
    | panicked message => exact absurd (outcome.symm.trans sound) (by simp)
    | suspended future =>
        obtain ⟨_, same, busy⟩ := outcome
        cases same.symm.trans inner
        simp only [busy]
        exact after
    | returned result =>
        cases result with
        | error err =>
            obtain ⟨_, same, idle⟩ := outcome
            cases same.symm.trans inner
            have kept : ¬ caches.late call := by
              intro late
              exact early ⟨call, later, called, late, stepped, idle, sound,
                by simp [same]⟩
            simpa only [idle] using after.2 kept
        | ok value =>
            obtain ⟨_, same, idle⟩ := outcome
            cases written : call.isWrite with
            | false => simp [same, written] at inner
            | true =>
                rw [written] at same
                cases same.symm.trans inner
                simpa only [idle] using after written

theorem Lawful.breaks (lawful : caches.Lawful model)
    (level : caches.Level session)
    (failed : session.FailsLate model caches.late event)
    (stepped : session.step model event = some later) :
    caches.Gap later := by
  obtain ⟨call, other, called, late, same, idle, sound, inner⟩ := failed
  cases stepped.symm.trans same
  cases event with
  | call new => simp [WriterSession.step, called] at stepped
  | background moved =>
      simp only [WriterSession.step] at stepped
      split at stepped
      · obtain ⟨_, _, rfl⟩ := Option.map_eq_some_iff.mp stepped
        simp [called] at idle
      · cases stepped
  | resume resumption =>
      obtain ⟨writer, flying, next, progress, held, flies, resumed,
        outcome⟩ := WriterSession.resume_cases stepped
      cases called.symm.trans flies
      intro _ found foundInner
      cases progress with
      | panicked message => exact absurd (outcome.symm.trans sound) (by simp)
      | suspended future => exact absurd (outcome.2.2.symm.trans idle) (by simp)
      | returned result =>
          have before : caches.held writer call := by
            have unpanicked : session.panicked = false := by
              cases result <;> exact outcome.1 ▸ sound
            have now := level unpanicked writer held
            rwa [called] at now
          have after := lawful.resumeHeld before resumed
          cases result with
          | error err =>
              cases outcome.2.1.symm.trans foundInner
              simpa only [idle] using after.1 late
          | ok value =>
              rw [outcome.2.1, lawful.unwritten late] at foundInner
              cases foundInner

theorem Lawful.stays (lawful : caches.Lawful model) (gap : caches.Gap session)
    (stepped : session.step model event = some later) :
    caches.Gap later := by
  refine Lawful.now lawful.startGone ?_ ?_ gap stepped
  · intro writer resumption next served moved
    obtain ⟨same, busy⟩ := lawful.background moved
    exact ⟨same.mpr, fun call => (busy call).2⟩
  · intro resumption writer call next progress _ _ gone resumed outcome
    have after := lawful.resumeGone gone resumed
    intro sound found inner
    cases progress with
    | panicked message => exact absurd (outcome.symm.trans sound) (by simp)
    | suspended future =>
        obtain ⟨_, same, busy⟩ := outcome
        cases same.symm.trans inner
        simp only [busy]
        exact after
    | returned result =>
        cases result with
        | error err =>
            obtain ⟨_, same, idle⟩ := outcome
            cases same.symm.trans inner
            simp only [idle]
            exact after
        | ok value =>
            have closed : call.isWrite = false := after
            rw [outcome.2.1, closed] at inner
            cases inner

end Caches

/-! ## Sessions -/

/-- No call has failed late. -/
def Untroubled (model : OioWrite W WF CF AF E L)
    (late : CallFuture WF CF AF → Prop) (writer : W)
    (events : List (SessionEvent E)) : Prop :=
  Along (WriterSession.step model)
    (fun (session : WriterSession W WF CF AF L) event =>
      ¬ session.FailsLate model late event)
    (WriterSession.new writer) events

/-- A session panics only in a `write` that follows a late failure, and there
it does. -/
structure PanicsAfterFailure (model : OioWrite W WF CF AF E L)
    (late : CallFuture WF CF AF → Prop) (poll : E) (writer : W) : Prop where
  /-- As long as nothing is written after a late failure, there is no panic,
  and no call gets stuck. -/
  safe : ∀ (events : List (SessionEvent E))
    (session : WriterSession W WF CF AF L),
    run (WriterSession.step model) (WriterSession.new writer) events =
      some session →
    (∀ before bs after, events = before ++ .call (.write bs) :: after →
      Untroubled model late writer before) →
    session.panicked = false ∧ (session.call.isSome = true →
      ∃ event, (session.step model event).isSome = true)
  panics : ∀ (events : List (SessionEvent E))
    (session : WriterSession W WF CF AF L),
    run (WriterSession.step model) (WriterSession.new writer) events =
      some session →
    session.panicked = false → session.call = none →
    session.writer.inner.isSome = true →
    ¬ Untroubled model late writer events →
    ∀ bs, ∃ later, run (WriterSession.step model) session
        [.call (.write bs), .resume poll] = some later ∧
      later.panicked = true

theorem Caches.Lawful.panicsAfterFailure {caches : Caches W WF CF AF}
    {model : OioWrite W WF CF AF E L} (lawful : caches.Lawful model)
    {condition : SessionCondition W WF CF AF E} {writer : W} {poll : E}
    (fresh : ¬ caches.spent writer)
    (never : NeverPanics model condition writer)
    (writes : ∀ {accepted inner bs}, ¬ caches.spent inner →
      condition.call accepted inner (.write bs))
    (others : ∀ {accepted inner call}, (∀ bs, call ≠ .write bs) →
      condition.call accepted inner call)
    (resumes : ∀ call event, condition.resume call event)
    (panics : ∀ {inner} bs, caches.spent inner → ∃ next message,
      model.resume inner poll (model.start (.write bs)) =
        some (next, .panicked message)) :
    PanicsAfterFailure model caches.late poll writer := by
  have level : caches.Level
      (WriterSession.new writer : WriterSession W WF CF AF L) := by
    intro _ found inner
    cases inner
    exact fresh
  have keeps : ∀ {state event next}, caches.Level state →
      ¬ WriterSession.FailsLate model caches.late state event →
      WriterSession.step model state event = some next →
      caches.Level next :=
    fun level early stepped => lawful.keeps level early stepped
  constructor
  · intro events session ran untroubled
    apply never events session ran
    apply along_of_reached ran
    intro before event after state next split ran' stepped
    cases event with
    | background event => trivial
    | resume event => exact fun future _ => resumes future event
    | call call =>
        intro inner found
        cases call with
        | close => exact others (by simp)
        | abort => exact others (by simp)
        | write bs =>
            apply writes
            have now := run_invariant_along keeps level
              (untroubled before bs after split) ran'
            simp only [WriterSession.step] at stepped
            split at stepped
            · cases stepped
            · rename_i ready
              simp only [Bool.or_eq_true, not_or, Bool.not_eq_true,
                Option.isSome_eq_false_iff, Option.isNone_iff_eq_none]
                at ready
              have kept := now ready.1 inner found
              rwa [ready.2] at kept
  · intro events session ran sound idle alive troubled bs
    obtain ⟨inner, found⟩ := Option.isSome_iff_exists.mp alive
    have gap : caches.Gap session :=
      (run_level_or_gap keeps
        (fun level failed stepped =>
          lawful.breaks level (not_not.mp failed) stepped)
        (fun gap stepped => lawful.stays gap stepped) level ran).2 troubled
    have spent := gap sound inner found
    rw [idle] at spent
    obtain ⟨next, message, panicked⟩ := panics bs spent
    simp only [OioWrite.resume, OioWrite.start, Option.map_eq_some_iff,
      Prod.mk.injEq] at panicked
    obtain ⟨⟨after, progress, served⟩, resumed, _, mapped⟩ := panicked
    cases progress with
    | suspended future => cases mapped
    | returned result => cases mapped
    | panicked text =>
        let flying : WriterSession W WF CF AF L :=
          { session with call := some (.write bs (model.write bs)) }
        have called : session.step model (.call (.write bs)) =
            some flying := by
          simp [WriterSession.step, sound, idle, found, OioWrite.start, flying]
        have broken : flying.step model (.resume poll) =
            some (flying.afterWrite bs (after, .panicked text, served)) := by
          simp only [WriterSession.step, flying, found, resumed,
            Option.map_some]
        exact ⟨_, run_cons_eq_some_iff.mpr ⟨_, called,
          run_cons_eq_some_iff.mpr ⟨_, broken, run_nil _ _⟩⟩, rfl⟩

end Caches

/-! ## `MultipartWriter` -/

namespace MultipartSession

open MultipartWriter

def Spent (writer : MultipartWriter) : Prop :=
  writer.uploadId ≠ none ∧ writer.cache = none

/-- `close` has submitted the cached buffer, or `abort` has dropped it. -/
def Late : CallFuture WriteFuture CloseFuture AbortFuture → Prop
  | .close (.draining _ _) => True
  | .close (.completing _) => True
  | .abort (.aborting _ _) => True
  | _ => False

def Held (writer : MultipartWriter) :
    CallFuture WriteFuture CloseFuture AbortFuture → Prop
  | .write _ (.unresumed _) => ¬ Spent writer
  | .write _ _ => writer.cache ≠ none
  | .close .unresumed => ¬ Spent writer
  | .close (.writingOnce _ _) => writer.uploadId = none
  | .close (.executing _ _) => writer.uploadId ≠ none ∧ writer.cache ≠ none
  | .close _ => Spent writer
  | .abort .unresumed => ¬ Spent writer
  | .abort (.aborting _ _) => Spent writer

def Gone (writer : MultipartWriter) :
    CallFuture WriteFuture CloseFuture AbortFuture → Prop
  | .write _ (.unresumed _) => Spent writer
  | .write _ _ => False
  | .close (.writingOnce _ _) => False
  | .close (.executing _ _) => False
  | .close _ => Spent writer
  | .abort _ => Spent writer

def caches : Caches MultipartWriter WriteFuture CloseFuture AbortFuture where
  spent := Spent
  late := Late
  held := Held
  gone := Gone

variable {writer next : MultipartWriter} {bs : Buffer} {event : Event}
  {progress : Progress (CallFuture WriteFuture CloseFuture AbortFuture)
    (Except Error Unit)}

theorem held_pollWrite {future : WriteFuture} {outcome : WriteProgress}
    (held : Held writer (.write bs future))
    (polled : writer.pollWrite future = some (next, outcome)) :
    caches.AfterHeld (.write bs future) next (outcome.map (.write bs)) := by
  cases future with
  | unresumed other =>
      simp only [pollWrite] at polled
      split at polled
      · rename_i uploadId known
        cases cached : writer.cache with
        | none => exact absurd ⟨by simp [known], cached⟩ held
        | some cache =>
            rw [submitCache_of_cached uploadId other cached] at polled
            cases polled
            simp [Progress.map, Caches.AfterHeld, caches, Held, cached]
      · split at polled
        · rename_i unknown empty
          rw [fillCache, empty] at polled
          cases polled
          simp [Progress.map, Caches.AfterHeld, caches, Spent]
        · rename_i cached
          cases polled
          simp [Progress.map, Caches.AfterHeld, caches, Held, cached]
  | initiating other => cases polled
  | executing other future =>
      simp only [pollWrite, Option.bind_eq_bind,
        Option.bind_eq_some_iff] at polled
      obtain ⟨⟨tasks, executed⟩, _, same⟩ := polled
      cases executed with
      | suspended future =>
          cases same
          exact held
      | panicked message =>
          cases same
          trivial
      | returned result =>
          cases result with
          | error err =>
              cases same
              exact ⟨False.elim, fun _ spent => held spent.2⟩
          | ok value =>
              cases same
              simp [Progress.map, Caches.AfterHeld, caches, Spent]

theorem held_initiated {new : Buffer} {answer : Except Error String}
    (held : Held writer (.write bs (.initiating new))) :
    caches.AfterHeld (.write bs (.initiating new))
      (writer.initiated new answer).1
      ((writer.initiated new answer).2.map (.write bs)) := by
  cases answer with
  | error err => exact ⟨False.elim, fun _ spent => held spent.2⟩
  | ok uploadId =>
      obtain ⟨cache, cached⟩ := Option.ne_none_iff_exists'.mp held
      simp [initiated, submitCache, cached, Progress.map, Caches.AfterHeld,
        caches, Held]

theorem held_pollClose {future : CloseFuture} {outcome : CloseProgress}
    (held : Held writer (.close future))
    (polled : writer.pollClose future = some (next, outcome)) :
    caches.AfterHeld (.close future) next (outcome.map .close) := by
  cases future with
  | unresumed =>
      simp only [pollClose] at polled
      split at polled
      · rename_i unknown _
        cases polled
        exact unknown
      · rename_i unknown _
        cases polled
        exact unknown
      · rename_i known cached
        cases polled
        exact ⟨by simp [known], by simp [cached]⟩
      · rename_i known cached
        exact absurd ⟨by simp [known], cached⟩ held
  | writingOnce size body => cases polled
  | executing uploadId future =>
      simp only [pollClose, Option.bind_eq_bind,
        Option.bind_eq_some_iff] at polled
      obtain ⟨⟨tasks, executed⟩, _, same⟩ := polled
      cases executed with
      | suspended future =>
          cases same
          exact held
      | panicked message =>
          cases same
          trivial
      | returned result =>
          cases result with
          | error err =>
              cases same
              exact ⟨False.elim, fun _ spent => held.2 spent.2⟩
          | ok value =>
              cases same
              exact ⟨held.1, rfl⟩
  | draining uploadId future =>
      simp only [pollClose, Option.bind_eq_bind,
        Option.bind_eq_some_iff] at polled
      obtain ⟨⟨tasks, drained⟩, _, same⟩ := polled
      have lost : (¬ Late (.close (.draining uploadId future))) → False :=
        fun early => early trivial
      cases drained with
      | suspended future =>
          cases same
          exact held
      | panicked message =>
          cases same
          trivial
      | returned value =>
          cases value with
          | none =>
              simp only at same
              split at same
              · cases same
                exact ⟨fun _ => held, fun early => (lost early).elim⟩
              · cases same
                exact held
          | some result =>
              cases result with
              | error err =>
                  cases same
                  exact ⟨fun _ => held, fun early => (lost early).elim⟩
              | ok part =>
                  cases same
                  exact held
  | completing uploadId => cases polled

theorem held_resume
    {call : CallFuture WriteFuture CloseFuture AbortFuture}
    (held : Held writer call)
    (resumed : model.resume writer event call = some (next, progress)) :
    caches.AfterHeld call next progress := by
  cases call with
  | write bs future =>
      obtain ⟨⟨later, outcome, served⟩, answered, same⟩ :=
        Option.map_eq_some_iff.mp resumed
      cases same
      simp only [model] at answered
      unfold resumeWrite at answered
      split at answered
      · obtain ⟨⟨_, _⟩, polled, same⟩ := Option.map_eq_some_iff.mp answered
        cases same
        exact held_pollWrite held polled
      · cases answered
        exact held_initiated held
      · simp only [Option.bind_eq_bind, Option.bind_eq_some_iff] at answered
        obtain ⟨future, _, same⟩ := answered
        cases same
        exact held
      · cases answered
  | close future =>
      obtain ⟨⟨later, outcome, served⟩, answered, same⟩ :=
        Option.map_eq_some_iff.mp resumed
      cases same
      simp only [model] at answered
      unfold resumeClose at answered
      split at answered
      · obtain ⟨⟨_, _⟩, polled, same⟩ := Option.map_eq_some_iff.mp answered
        cases same
        exact held_pollClose held polled
      · rename_i answer
        cases answered
        cases answer with
        | ok value => exact fun written => by cases written
        | error err => exact ⟨False.elim, fun _ spent => spent.1 held⟩
      · simp only [Option.bind_eq_bind, Option.bind_eq_some_iff] at answered
        obtain ⟨future, _, same⟩ := answered
        cases same
        exact held
      · rename_i answer
        cases answered
        cases answer with
        | ok value => exact fun written => by cases written
        | error err =>
            exact ⟨fun _ => held, fun early => (early trivial).elim⟩
      · cases answered
  | abort future =>
      obtain ⟨⟨later, outcome, served⟩, answered, same⟩ :=
        Option.map_eq_some_iff.mp resumed
      cases same
      simp only [model] at answered
      unfold resumeAbort at answered
      split at answered
      · obtain ⟨⟨_, _⟩, polled, same⟩ := Option.map_eq_some_iff.mp answered
        cases same
        cases future with
        | aborting uploadId found => cases polled
        | unresumed =>
            simp only [pollAbort] at polled
            split at polled
            · cases polled
              exact fun written => by cases written
            · rename_i known
              cases polled
              exact ⟨by simp [known], rfl⟩
      · rename_i answer
        cases answered
        cases answer with
        | ok value => exact fun written => by cases written
        | error err =>
            exact ⟨fun _ => held, fun early => (early trivial).elim⟩
      · cases answered

theorem gone_pollClose {future : CloseFuture} {outcome : CloseProgress}
    (gone : Gone writer (.close future))
    (polled : writer.pollClose future = some (next, outcome)) :
    caches.AfterGone (.close future) next (outcome.map .close) := by
  cases future with
  | unresumed =>
      obtain ⟨known, empty⟩ := gone
      simp only [pollClose, empty] at polled
      split at polled
      · rename_i unknown _
        exact absurd unknown known
      · rename_i impossible
        cases impossible
      · rename_i impossible
        cases impossible
      · cases polled
        exact ⟨known, empty⟩
  | writingOnce size body => exact gone.elim
  | executing uploadId future => exact gone.elim
  | draining uploadId future =>
      simp only [pollClose, Option.bind_eq_bind,
        Option.bind_eq_some_iff] at polled
      obtain ⟨⟨tasks, drained⟩, _, same⟩ := polled
      cases drained with
      | suspended future =>
          cases same
          exact gone
      | panicked message =>
          cases same
          trivial
      | returned value =>
          cases value with
          | none =>
              simp only at same
              split at same
              · cases same
                exact gone
              · cases same
                exact gone
          | some result =>
              cases result with
              | error err =>
                  cases same
                  exact gone
              | ok part =>
                  cases same
                  exact gone
  | completing uploadId => cases polled

theorem spent_pollWrite (spent : Spent writer) (bs : Buffer) :
    writer.pollWrite (.unresumed bs) =
      some (writer, .panicked "pending write must exist") := by
  obtain ⟨uploadId, known⟩ := Option.ne_none_iff_exists'.mp spent.1
  simp [pollWrite, known, submitCache, spent.2]

theorem gone_resume
    {call : CallFuture WriteFuture CloseFuture AbortFuture}
    (gone : Gone writer call)
    (resumed : model.resume writer event call = some (next, progress)) :
    caches.AfterGone call next progress := by
  cases call with
  | write bs future =>
      cases future with
      | initiating new => exact gone.elim
      | executing new future => exact gone.elim
      | unresumed new =>
          obtain ⟨⟨later, outcome, served⟩, answered, same⟩ :=
            Option.map_eq_some_iff.mp resumed
          cases same
          cases event with
          | poll =>
              simp only [model, resumeWrite, spent_pollWrite gone,
                Option.map_some] at answered
              cases answered
              trivial
          | _ => cases answered
  | close future =>
      obtain ⟨⟨later, outcome, served⟩, answered, same⟩ :=
        Option.map_eq_some_iff.mp resumed
      cases same
      simp only [model] at answered
      unfold resumeClose at answered
      split at answered
      · obtain ⟨⟨_, _⟩, polled, same⟩ := Option.map_eq_some_iff.mp answered
        cases same
        exact gone_pollClose gone polled
      · exact gone.elim
      · exact gone.elim
      · rename_i answer
        cases answered
        cases answer with
        | ok value => exact rfl
        | error err => exact gone
      · cases answered
  | abort future =>
      obtain ⟨⟨later, outcome, served⟩, answered, same⟩ :=
        Option.map_eq_some_iff.mp resumed
      cases same
      simp only [model] at answered
      unfold resumeAbort at answered
      split at answered
      · obtain ⟨⟨_, _⟩, polled, same⟩ := Option.map_eq_some_iff.mp answered
        cases same
        cases future with
        | aborting uploadId found => cases polled
        | unresumed =>
            simp only [pollAbort] at polled
            split at polled
            · cases polled
              exact rfl
            · cases polled
              exact ⟨gone.1, rfl⟩
      · rename_i answer
        cases answered
        cases answer with
        | ok value => exact rfl
        | error err => exact gone
      · cases answered

theorem caches_lawful : caches.Lawful model where
  startHeld := fun call kept => by cases call <;> exact kept
  startGone := fun call spent => by cases call <;> exact spent
  resumeHeld := held_resume
  resumeGone := gone_resume
  background := by
    intro writer event next served moved
    obtain ⟨position, reply, input, tasks, finished, _, rfl, rfl⟩ :=
      background_eq_some moved
    exact ⟨Iff.rfl, fun call => ⟨fun held => held, fun gone => gone⟩⟩
  unwritten := by
    intro call late
    cases call with
    | write bs future => exact late.elim
    | close future => rfl
    | abort future => rfl

theorem panicsAfterFailure (capacity : Nat) :
    PanicsAfterFailure model Late .poll (MultipartWriter.new capacity) := by
  refine caches_lawful.panicsAfterFailure (fun spent => spent.1 rfl)
    (neverPanics capacity) ?_ ?_ (fun _ _ => trivial) ?_
  · intro accepted inner bs kept
    by_cases unknown : inner.uploadId = none
    · exact .inl unknown
    · exact .inr fun empty => kept ⟨unknown, empty⟩
  · intro accepted inner call other
    cases call with
    | write bs => exact absurd rfl (other bs)
    | close => trivial
    | abort => trivial
  · intro inner bs spent
    exact ⟨inner, "pending write must exist", by
      simp [OioWrite.resume, OioWrite.start, model, resumeWrite,
        spent_pollWrite spent, Progress.map]⟩

end MultipartSession

/-! ## `BlockWriter` -/

namespace BlockSession

open BlockWriter

variable {U : Type} {uuid : Nat → U}

def Spent (state : Drawing U) : Prop :=
  state.writer.started = true ∧ state.writer.cache = none

/-- `close` has submitted the cached buffer, or `abort` has dropped it. -/
def Late : CallFuture (WriteFuture U) (CloseFuture U) (AbortFuture U) → Prop
  | .close (.draining _) => True
  | .close .completing => True
  | .abort (.aborting _ _) => True
  | _ => False

def Held (state : Drawing U) :
    CallFuture (WriteFuture U) (CloseFuture U) (AbortFuture U) → Prop
  | .write _ (.unresumed _) => ¬ Spent state
  | .write _ _ => state.writer.cache ≠ none
  | .close .unresumed => ¬ Spent state
  | .close (.writingOnce _ _) => state.writer.started = false
  | .close (.executing _) =>
      state.writer.started = true ∧ state.writer.cache ≠ none
  | .close _ => Spent state
  | .abort .unresumed => ¬ Spent state
  | .abort (.aborting _ _) => Spent state

def Gone (state : Drawing U) :
    CallFuture (WriteFuture U) (CloseFuture U) (AbortFuture U) → Prop
  | .write _ (.unresumed _) => Spent state
  | .write _ _ => False
  | .close (.writingOnce _ _) => False
  | .close (.executing _) => False
  | .close _ => Spent state
  | .abort _ => Spent state

def caches :
    Caches (Drawing U) (WriteFuture U) (CloseFuture U) (AbortFuture U) where
  spent := Spent
  late := Late
  held := Held
  gone := Gone

variable {state next : Drawing U} {bs : Buffer} {event : Event}
  {progress : Progress
    (CallFuture (WriteFuture U) (CloseFuture U) (AbortFuture U))
    (Except Error Unit)}

theorem held_pollWrite {fresh : U} {drawn : Nat} {future : WriteFuture U}
    {writer : BlockWriter U} {outcome : WriteProgress U}
    (held : Held state (.write bs future))
    (polled : state.writer.pollWrite fresh future = some (writer, outcome)) :
    caches.AfterHeld (.write bs future) ⟨writer, drawn⟩
      (outcome.map (.write bs)) := by
  cases future with
  | unresumed other =>
      cases cached : state.writer.cache with
      | some cache =>
          rw [pollWrite_submit cached] at polled
          cases polled
          simp [Progress.map, Caches.AfterHeld, caches, Held, cached]
      | none =>
          have unstarted : state.writer.started = false := by
            cases started : state.writer.started with
            | false => rfl
            | true => exact absurd ⟨started, cached⟩ held
          rw [pollWrite_first unstarted cached] at polled
          cases polled
          simp [Progress.map, Caches.AfterHeld, caches, Spent]
  | executing other future =>
      simp only [pollWrite, Option.bind_eq_bind,
        Option.bind_eq_some_iff] at polled
      obtain ⟨⟨tasks, executed⟩, _, same⟩ := polled
      cases executed with
      | suspended future =>
          cases same
          exact held
      | panicked message =>
          cases same
          trivial
      | returned result =>
          cases result with
          | error err =>
              cases same
              exact ⟨False.elim, fun _ spent => held spent.2⟩
          | ok value =>
              cases same
              simp [Progress.map, Caches.AfterHeld, caches, Spent]

theorem held_pollClose {fresh : U} {drawn : Nat} {future : CloseFuture U}
    {writer : BlockWriter U} {outcome : CloseProgress U}
    (held : Held state (.close future))
    (polled : state.writer.pollClose fresh future = some (writer, outcome)) :
    caches.AfterHeld (.close future) ⟨writer, drawn⟩
      (outcome.map .close) := by
  cases future with
  | unresumed =>
      simp only [pollClose] at polled
      split at polled
      · rename_i unstarted _
        cases polled
        exact unstarted
      · rename_i unstarted _
        cases polled
        exact unstarted
      · rename_i started cached
        cases polled
        exact ⟨started, by simp [cached]⟩
      · rename_i started cached
        exact absurd ⟨started, cached⟩ held
  | writingOnce size body => cases polled
  | executing future =>
      simp only [pollClose, Option.bind_eq_bind,
        Option.bind_eq_some_iff] at polled
      obtain ⟨⟨tasks, executed⟩, _, same⟩ := polled
      cases executed with
      | suspended future =>
          cases same
          exact held
      | panicked message =>
          cases same
          trivial
      | returned result =>
          cases result with
          | error err =>
              cases same
              exact ⟨False.elim, fun _ spent => held.2 spent.2⟩
          | ok value =>
              cases same
              exact ⟨held.1, rfl⟩
  | draining future =>
      simp only [pollClose, Option.bind_eq_bind,
        Option.bind_eq_some_iff] at polled
      obtain ⟨⟨tasks, drained⟩, _, same⟩ := polled
      cases drained with
      | suspended future =>
          cases same
          exact held
      | panicked message =>
          cases same
          trivial
      | returned value =>
          cases value with
          | none =>
              cases same
              exact held
          | some result =>
              cases result with
              | error err =>
                  cases same
                  exact ⟨fun _ => held, fun early => (early trivial).elim⟩
              | ok blockId =>
                  cases same
                  exact held
  | completing => cases polled

variable [ToString U]

theorem held_resume
    {call : CallFuture (WriteFuture U) (CloseFuture U) (AbortFuture U)}
    (held : Held state call)
    (resumed : (model uuid).resume state event call =
      some (next, progress)) :
    caches.AfterHeld call next progress := by
  cases call with
  | write bs future =>
      obtain ⟨⟨later, outcome, served⟩, answered, same⟩ :=
        Option.map_eq_some_iff.mp resumed
      cases same
      simp only [model] at answered
      unfold resumeWrite at answered
      split at answered
      · obtain ⟨⟨_, _⟩, polled, same⟩ := Option.map_eq_some_iff.mp answered
        cases same
        exact held_pollWrite held polled
      · simp only [Option.bind_eq_bind, Option.bind_eq_some_iff] at answered
        obtain ⟨future, _, same⟩ := answered
        cases same
        exact held
      · cases answered
  | close future =>
      obtain ⟨⟨later, outcome, served⟩, answered, same⟩ :=
        Option.map_eq_some_iff.mp resumed
      cases same
      simp only [model] at answered
      unfold resumeClose at answered
      split at answered
      · obtain ⟨⟨_, _⟩, polled, same⟩ := Option.map_eq_some_iff.mp answered
        cases same
        exact held_pollClose held polled
      · rename_i answer
        cases answered
        cases answer with
        | ok value => exact fun written => by cases written
        | error err =>
            refine ⟨False.elim, fun _ spent => ?_⟩
            exact absurd (spent.1.symm.trans held) (by simp)
      · simp only [Option.bind_eq_bind, Option.bind_eq_some_iff] at answered
        obtain ⟨future, _, same⟩ := answered
        cases same
        exact held
      · rename_i answer
        cases answered
        cases answer with
        | ok value => exact fun written => by cases written
        | error err =>
            exact ⟨fun _ => held, fun early => (early trivial).elim⟩
      · cases answered
  | abort future =>
      obtain ⟨⟨later, outcome, served⟩, answered, same⟩ :=
        Option.map_eq_some_iff.mp resumed
      cases same
      simp only [model] at answered
      unfold resumeAbort at answered
      split at answered
      · obtain ⟨⟨_, _⟩, polled, same⟩ := Option.map_eq_some_iff.mp answered
        cases same
        cases future with
        | aborting blockIds found => cases polled
        | unresumed =>
            simp only [pollAbort] at polled
            split at polled
            · cases polled
              exact fun written => by cases written
            · rename_i started
              cases polled
              exact ⟨by simpa using started, rfl⟩
      · rename_i answer
        cases answered
        cases answer with
        | ok value => exact fun written => by cases written
        | error err =>
            exact ⟨fun _ => held, fun early => (early trivial).elim⟩
      · cases answered

omit [ToString U] in
theorem gone_pollClose {fresh : U} {drawn : Nat} {future : CloseFuture U}
    {writer : BlockWriter U} {outcome : CloseProgress U}
    (gone : Gone state (.close future))
    (polled : state.writer.pollClose fresh future = some (writer, outcome)) :
    caches.AfterGone (.close future) ⟨writer, drawn⟩
      (outcome.map .close) := by
  cases future with
  | unresumed =>
      obtain ⟨started, empty⟩ := gone
      simp only [pollClose, started, empty] at polled
      cases polled
      exact ⟨started, empty⟩
  | writingOnce size body => exact gone.elim
  | executing future => exact gone.elim
  | draining future =>
      simp only [pollClose, Option.bind_eq_bind,
        Option.bind_eq_some_iff] at polled
      obtain ⟨⟨tasks, drained⟩, _, same⟩ := polled
      cases drained with
      | suspended future =>
          cases same
          exact gone
      | panicked message =>
          cases same
          trivial
      | returned value =>
          cases value with
          | none =>
              cases same
              exact gone
          | some result => cases result <;> cases same <;> exact gone
  | completing => cases polled

omit [ToString U] in
theorem spent_pollWrite (spent : Spent state) (fresh : U) (bs : Buffer) :
    state.writer.pollWrite fresh (.unresumed bs) =
      some (state.writer, .panicked "pending write must exist") := by
  obtain ⟨⟨started, blockIds, cache, tasks⟩, drawn⟩ := state
  obtain ⟨begun, empty⟩ := spent
  cases begun
  cases empty
  rfl

theorem gone_resume
    {call : CallFuture (WriteFuture U) (CloseFuture U) (AbortFuture U)}
    (gone : Gone state call)
    (resumed : (model uuid).resume state event call =
      some (next, progress)) :
    caches.AfterGone call next progress := by
  cases call with
  | write bs future =>
      cases future with
      | executing new future => exact gone.elim
      | unresumed new =>
          obtain ⟨⟨later, outcome, served⟩, answered, same⟩ :=
            Option.map_eq_some_iff.mp resumed
          cases same
          cases event with
          | poll =>
              simp only [model, resumeWrite, spent_pollWrite gone,
                Option.map_some] at answered
              cases answered
              trivial
          | _ => cases answered
  | close future =>
      obtain ⟨⟨later, outcome, served⟩, answered, same⟩ :=
        Option.map_eq_some_iff.mp resumed
      cases same
      simp only [model] at answered
      unfold resumeClose at answered
      split at answered
      · obtain ⟨⟨_, _⟩, polled, same⟩ := Option.map_eq_some_iff.mp answered
        cases same
        exact gone_pollClose gone polled
      · exact gone.elim
      · exact gone.elim
      · rename_i answer
        cases answered
        cases answer with
        | ok value => exact rfl
        | error err => exact gone
      · cases answered
  | abort future =>
      obtain ⟨⟨later, outcome, served⟩, answered, same⟩ :=
        Option.map_eq_some_iff.mp resumed
      cases same
      simp only [model] at answered
      unfold resumeAbort at answered
      split at answered
      · obtain ⟨⟨_, _⟩, polled, same⟩ := Option.map_eq_some_iff.mp answered
        cases same
        cases future with
        | aborting blockIds found => cases polled
        | unresumed =>
            simp only [pollAbort] at polled
            split at polled
            · cases polled
              exact rfl
            · cases polled
              exact ⟨gone.1, rfl⟩
      · rename_i answer
        cases answered
        cases answer with
        | ok value => exact rfl
        | error err => exact gone
      · cases answered

theorem caches_lawful : caches.Lawful (model uuid) where
  startHeld := fun call kept => by cases call <;> exact kept
  startGone := fun call spent => by cases call <;> exact spent
  resumeHeld := held_resume
  resumeGone := gone_resume
  background := by
    intro state event next served moved
    obtain ⟨position, reply, input, tasks, finished, _, rfl, rfl⟩ :=
      background_eq_some moved
    exact ⟨Iff.rfl, fun call => ⟨fun held => held, fun gone => gone⟩⟩
  unwritten := by
    intro call late
    cases call with
    | write bs future => exact late.elim
    | close future => rfl
    | abort future => rfl

theorem panicsAfterFailure (uuid : Nat → U) (capacity : Nat) :
    PanicsAfterFailure (model uuid) Late .poll (new capacity) := by
  refine caches_lawful.panicsAfterFailure (fun spent => ?_)
    (neverPanics uuid capacity) ?_ ?_ (fun _ _ => trivial) ?_
  · cases spent.1
  · intro accepted inner bs kept
    cases started : inner.writer.started with
    | false => exact .inl started
    | true => exact .inr fun empty => kept ⟨started, empty⟩
  · intro accepted inner call other
    cases call with
    | write bs => exact absurd rfl (other bs)
    | close => trivial
    | abort => trivial
  · intro inner bs spent
    exact ⟨⟨inner.writer, inner.drawn + 1⟩, "pending write must exist", by
      simp [OioWrite.resume, OioWrite.start, model, resumeWrite,
        spent_pollWrite spent, Progress.map]⟩

end BlockSession

/-- The three writers, behind `CompleteWriter`. -/
theorem writers_never_panic {U : Type} [ToString U] (uuid : Nat → U)
    (capacity : Nat) :
    PanicsAfterFailure MultipartSession.model MultipartSession.Late .poll
        (.new capacity) ∧
      PanicsAfterFailure (BlockSession.model uuid) BlockSession.Late .poll
        (BlockSession.new capacity) ∧
      NeverPanics PositionSession.model PositionSession.panicCondition
        (.new capacity) :=
  ⟨MultipartSession.panicsAfterFailure capacity,
    BlockSession.panicsAfterFailure uuid capacity,
    PositionSession.neverPanics capacity⟩

namespace WriterPanics

def bytes : Buffer := .fromBytes [1, 2, 3]

def unavailable : Error :=
  (Error.new .unexpected "service unavailable").setTemporary

/-- `close` fails in its last step, and the caller goes on writing. -/
def multipartEvents : List (SessionEvent MultipartSession.Event) :=
  [.call (.write bytes), .resume .poll,
    .call (.write bytes), .resume .poll, .resume (.initiated (.ok "upload")),
    .resume .poll,
    .resume (.finishAwaited (.answered (.ok ⟨0, "etag", none⟩))),
    .resume .poll,
    .call .close, .resume .poll, .resume .poll,
    .resume (.finishAwaited (.answered (.ok ⟨1, "etag", none⟩))),
    .resume .poll, .resume .poll, .resume .poll, .resume .poll,
    .resume (.completed (.error unavailable)),
    .call (.write bytes), .resume .poll]

def blockEvents : List (SessionEvent BlockSession.Event) :=
  [.call (.write bytes), .resume .poll,
    .call (.write bytes), .resume .poll, .resume .poll,
    .resume (.finishAwaited (.answered (.ok ()))), .resume .poll,
    .call .close, .resume .poll, .resume .poll,
    .resume (.finishAwaited (.answered (.ok ()))), .resume .poll,
    .resume .poll, .resume .poll, .resume .poll,
    .resume (.completed (.error unavailable)),
    .call (.write bytes), .resume .poll]

end WriterPanics

open WriterPanics

/-- A `write` after a `close` that failed in its last step panics. -/
theorem writers_never_panic_fails :
    (¬ ∀ (events : List (SessionEvent MultipartSession.Event)) session,
      run (WriterSession.step MultipartSession.model)
        (WriterSession.new (.new 1)) events = some session →
      session.panicked = false) ∧
    ¬ ∀ (events : List (SessionEvent BlockSession.Event)) session,
      run (WriterSession.step (BlockSession.model (fun draw : Nat => draw)))
        (WriterSession.new (BlockSession.new 1)) events = some session →
      session.panicked = false := by
  constructor
  · intro always
    cases always multipartEvents _ rfl
  · intro always
    cases always blockEvents _ rfl

end OpenDal
