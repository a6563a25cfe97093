import OpenDal.Layers.RetriedWriter
import OpenDal.Raw.AppendWriter
import OpenDal.Services.OnedriveWriter

/-!
# Retried uploads

What is stored, as far as the caller of a retried writer can tell.  An append
is attempted again after its answer was lost, but the service checks the
offset, so it is not stored twice: the write fails instead.  A `close` stores
everything anew, so it can be repeated.
-/

namespace OpenDal

open Automaton

theorem RetriedSession.Tells.acceptedWrites {W F S B D : Type}
    {session : RetriedSession W F S B D} (tells : session.Tells) :
    acceptedWrites session.history = acceptedWrites session.inner.history := by
  rw [← acceptedWrites_successes, tells.succeeded, acceptedWrites_successes]

theorem RetriedSession.Tells.acceptedBytes {W F S B D : Type}
    {session : RetriedSession W F S B D} (tells : session.Tells) :
    acceptedBytes session.history = acceptedBytes session.inner.history := by
  rw [OpenDal.acceptedBytes, tells.acceptedWrites, ← OpenDal.acceptedBytes]

/-! ## Appends -/

namespace AppendWriter

abbrev Retried : Type :=
  RetriedSession AppendWriter WriteFuture Bytes FixedDelays Nat

/-- No write fails of its own accord unless an answer has been lost. -/
theorem prompt {weather : Weather} (kept : weather ≠ .losing)
    (initial : Bytes) :
    (invariant weather initial).Prompt model fun _ _ => False where
  permanent := fun excused => excused.elim
  starts := by
    intro history writer object call err _ failed
    cases call with
    | write bs =>
        simp only [model, start] at failed
        split at failed
        · cases failed
        · cases failed
    | close => cases failed
    | abort => cases failed
  fails := by
    intro history writer object call future err _
    cases future <;> rfl
  answers := by
    intro history writer object call future err waits failed
    cases future with
    | offset bs => cases failed
    | append offset bs =>
        obtain ⟨_, known, tracks⟩ := waits
        simp only [model, request, perform] at failed
        split at failed
        · cases failed
        · rename_i misfit
          exact kept (tracks.losing_of_misfit known misfit)

/-- Retrying neither duplicates nor loses an append.  The object is the initial
one, followed by the writes that the caller was told are accepted, and by at
most one more, which has failed or is under way.  There is none unless an
answer has been lost.  If none has, and no call fails more often than it is
retried, no write fails before the end of the session. -/
theorem retried_appends_once {weather : Weather} {timeout : String}
    {builder : FixedDelays} {initial : Bytes} {events : List RetriedEvent}
    {session : Retried}
    (allowed : ∀ event ∈ events, event.Within weather.Allows)
    (ran : run (RetriedSession.step model timeout)
      (.new .new initial builder) events = some session) :
    session.inner.panicked = false ∧
      (∃ extra, Stored initial session.history session.inner.service extra ∧
        (extra = [] ∨ weather = .losing ∧
          ∃ bs, session.Unaccepted bs ∧ extra = bs.bytes)) ∧
      (weather ≠ .losing → RetriedSession.Mild builder.maxTimes events →
        ∀ bs err, .wrote bs (.error err) ∈ session.history →
          err = WriterSession.closedError.setPersistent) := by
  have calls : ∀ call, weather.Allows (.call call) := fun _ => trivial
  have sound := RetriedSession.sound_run (maintained weather initial) calls
    (tracks_new weather initial) allowed ran
  obtain ⟨⟨extra, stored, kind⟩, _⟩ := explained_of_holds sound.holds
  refine ⟨sound.holds.sound, ⟨extra, ?_, ?_⟩, ?_⟩
  · rw [Stored, sound.tells.acceptedBytes]
    exact stored
  · rcases kind with empty | ⟨losing, _, bs, member, same⟩
    · exact .inl empty
    · exact .inr ⟨losing, bs, sound.tells.failed bs member, same⟩
  · intro kept mild bs err member
    have told : (WriteCall.write bs).returned (.error err) ∈
        session.history := member
    obtain ⟨cause, rfl, impossible | closed⟩ :=
      RetriedSession.expected_run (maintained weather initial)
        (prompt kept initial) calls (tracks_new weather initial) allowed mild
        ran told
    · exact impossible.elim
    · rw [closed]

def unavailable : Error :=
  (Error.new .unexpected "service unavailable").setTemporary

/-- The request for the offset is refused once, and so is the append. -/
def refusedTwice : List RetriedEvent :=
  [.call (.write (.fromBytes [1, 2])), .resume (.refused unavailable), .wake,
    .resume .answered, .resume (.refused unavailable), .wake,
    .resume .answered]

/-- The second append is stored, but its attempt times out; the next one finds
the object longer than expected. -/
def timedOut : List RetriedEvent :=
  refusedTwice ++ [.call (.write (.fromBytes [3])), .timeout true, .wake,
    .resume .answered]

theorem retried_appends_once_refused :
    (∃ session : Retried,
      run (RetriedSession.step model "10") (.new .new [0] ⟨3⟩) refusedTwice =
          some session ∧
        session.inner.service = [0, 1, 2] ∧
        ∀ bs err, .wrote bs (.error err) ∈ session.history →
          err = WriterSession.closedError.setPersistent) ∧
      ∃ session : Retried,
        run (RetriedSession.step model "10") (.new .new [0] ⟨3⟩) timedOut =
            some session ∧
          session.inner.service = [0, 1, 2, 3] ∧
          ∃ extra, Stored [0] session.history session.inner.service extra ∧
            (extra = [] ∨ Weather.losing = .losing ∧
              ∃ bs, session.Unaccepted bs ∧ extra = bs.bytes) := by
  obtain ⟨first, ran, stored⟩ : ∃ session : Retried,
      run (RetriedSession.step model "10") (.new .new [0] ⟨3⟩) refusedTwice =
          some session ∧ session.inner.service = [0, 1, 2] :=
    ⟨_, rfl, rfl⟩
  obtain ⟨second, resumed, grown⟩ : ∃ session : Retried,
      run (RetriedSession.step model "10") (.new .new [0] ⟨3⟩) timedOut =
          some session ∧ session.inner.service = [0, 1, 2, 3] :=
    ⟨_, rfl, rfl⟩
  have failing : ∀ event ∈ refusedTwice,
      event.Within Weather.failing.Allows := by
    simp [refusedTwice, RetriedEvent.Within, Weather.Allows]
  have losing : ∀ event ∈ timedOut, event.Within Weather.losing.Allows := by
    simp [timedOut, refusedTwice, RetriedEvent.Within, Weather.Allows]
  have mild : RetriedSession.Mild 3 refusedTwice := rfl
  exact ⟨⟨first, ran, stored,
      (retried_appends_once failing ran).2.2 (by simp) mild⟩,
    second, resumed, grown, (retried_appends_once losing resumed).2.1⟩

end AppendWriter

/-! ## Uploads at once -/

namespace OneShotWriter

variable {F S R A : Type} {inner : OneShotWrite F S R A}
  {object : S → Option Bytes} {sane : S → Prop}
  {storing : Buffer → F → S → Prop}

/-- The second write of a session fails. -/
def Second (call : WriteCall) (err : Error) : Prop :=
  err = multipleWrites ∧ ∃ bs, call = .write bs

theorem prompt (stores : inner.StoresAtOnce object sane storing)
    (fails : ∀ future err,
      inner.resume future (.error err) = .returned (.error err))
    (initial : Option Bytes) :
    (invariant False object sane storing initial).Prompt (model inner)
      Second where
  permanent := by
    rintro call err ⟨rfl, _⟩
    rfl
  starts := by
    intro history writer service call err _ failed
    cases call with
    | write bs =>
        simp only [model, start] at failed
        split at failed
        · cases failed
          exact ⟨rfl, bs, rfl⟩
        · cases failed
    | close =>
        simp only [model, start] at failed
        split at failed
        · exact absurd failed (stores.starts _ _)
        · exact absurd failed (stores.starts _ _)
    | abort => cases failed
  fails := fun err _ => fails _ err
  answers := by
    intro history writer service call future err waits failed
    obtain ⟨_, held, tracks, _⟩ := waits
    exact absurd failed (stores.accepts tracks.sane held err)

theorem Finished.told {calm : Prop} {initial : Option Bytes}
    {history told : List (HistoryEntry Empty)} {service : S}
    (finished : Finished calm object initial history service)
    (same : successes told = successes history) :
    Finished False object initial told service := by
  have writes : acceptedWrites told = acceptedWrites history := by
    rw [← acceptedWrites_successes, same, acceptedWrites_successes]
  have bytes : acceptedBytes told = acceptedBytes history := by
    rw [acceptedBytes, writes, ← acceptedBytes]
  have closed : Closed told ↔ Closed history := by
    show WriteCall.close.returned (.ok ()) ∈ told ↔
      WriteCall.close.returned (.ok ()) ∈ history
    rw [← mem_successes, same, mem_successes]
  exact
    { single := by
        rw [writes]
        exact finished.single
      whole := by
        rw [Whole, bytes]
        exact finished.whole
      stored := by
        rw [closed, bytes]
        exact finished.stored
      smooth := False.elim }

/-- Behind the retry layer the object is the initial one, empty, or all of the
accepted bytes, and it is all of them once the caller was told that `close` has
succeeded.  If no `close` fails more often than it is retried, none fails
before the end of the session. -/
theorem retried_stores_whole (stores : inner.StoresAtOnce object sane storing)
    (fails : ∀ future err,
      inner.resume future (.error err) = .returned (.error err))
    {timeout : String} {builder : FixedDelays} {initial : S}
    {events : List RetriedEvent}
    {session : RetriedSession OneShotWriter F S FixedDelays Nat}
    (saneInitially : sane initial)
    (ran : run (RetriedSession.step (model inner) timeout)
      (.new .new initial builder) events = some session) :
    session.inner.panicked = false ∧
      Finished False object (object initial) session.history
        session.inner.service ∧
      (RetriedSession.Mild builder.maxTimes events →
        ∀ err, .closed (.error err) ∈ session.history →
          err = WriterSession.closedError.setPersistent) := by
  have calls : ∀ call, Permits False (.call call) := fun _ => trivial
  have permitted : ∀ event ∈ events, event.Within (Permits False) := by
    intro event _
    cases event with
    | call call => trivial
    | wake => trivial
    | timeout performed => exact id
    | drop performed => exact id
    | resume fate =>
        cases fate with
        | answered => trivial
        | lost err => exact id
        | refused err => exact id
  have sound := RetriedSession.sound_run
    (maintained stores (object initial)) calls (idle_new saneInitially)
    permitted ran
  refine ⟨sound.holds.sound,
    (finished_of_holds sound.holds).told sound.tells.succeeded, ?_⟩
  intro mild err member
  have told : WriteCall.close.returned (.error err) ∈ session.history := member
  obtain ⟨cause, rfl, second | closed⟩ :=
    RetriedSession.expected_run (maintained stores (object initial))
      (prompt stores fails (object initial)) calls (idle_new saneInitially)
      permitted mild ran told
  · obtain ⟨_, bs, impossible⟩ := second
    cases impossible
  · rw [closed]

end OneShotWriter

namespace OneDriveWriter

abbrev Retried : Type :=
  RetriedSession OneShotWriter WriteFuture OneDrive FixedDelays Nat

theorem resume_error (future : WriteFuture) (err : Error) :
    model.resume future (.error err) = .returned (.error err) := by
  cases future <;> rfl

/-- Retried uploads to OneDrive.  A fragment that fails costs the whole upload
session, but not the file, and the next attempt starts a session anew. -/
theorem retried_writes_whole {timeout : String} {builder : FixedDelays}
    {initial : OneDrive} {events : List RetriedEvent}
    {session : Retried}
    (ran : run (RetriedSession.step (OneShotWriter.model model) timeout)
      (.new .new initial builder) events = some session) :
    session.inner.panicked = false ∧
      OneShotWriter.Finished False OneDrive.file initial.file session.history
        session.inner.service ∧
      (RetriedSession.Mild builder.maxTimes events →
        ∀ err, .closed (.error err) ∈ session.history →
          err = WriterSession.closedError.setPersistent) :=
  OneShotWriter.retried_stores_whole storesAtOnce resume_error trivial ran

/-- The answer to the upload is lost, and the upload is repeated. -/
def repeatedUpload : List RetriedEvent :=
  [.call (.write (.fromBytes [1, 2])), .call .close,
    .resume (.lost AppendWriter.unavailable), .wake, .timeout false, .wake,
    .resume .answered]

theorem retried_writes_whole_repeated :
    ∃ session : Retried,
      run (RetriedSession.step (OneShotWriter.model model) "10")
          (.new .new ⟨some [0], []⟩ ⟨2⟩) repeatedUpload = some session ∧
        session.inner.service.file = some [1, 2] ∧
        OneShotWriter.Finished False OneDrive.file (some [0]) session.history
          session.inner.service ∧
        ∀ err, .closed (.error err) ∈ session.history →
          err = WriterSession.closedError.setPersistent := by
  obtain ⟨session, ran, stored⟩ : ∃ session : Retried,
      run (RetriedSession.step (OneShotWriter.model model) "10")
          (.new .new ⟨some [0], []⟩ ⟨2⟩) repeatedUpload = some session ∧
        session.inner.service.file = some [1, 2] :=
    ⟨_, rfl, rfl⟩
  have mild : RetriedSession.Mild 2 repeatedUpload := rfl
  have whole := retried_writes_whole ran
  exact ⟨session, ran, stored, whole.2.1, whole.2.2 mild⟩

end OneDriveWriter

end OpenDal
