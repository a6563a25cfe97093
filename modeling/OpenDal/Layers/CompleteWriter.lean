import OpenDal.Automaton
import OpenDal.Raw.ConcurrentTasks
import OpenDal.Types.Buffer

/-!
# `CompleteWriter`

The layer forgets its inner writer once `close` or `abort` has returned `Ok`,
and refuses every call after that.

A session is any sequence of calls on a writer behind the layer.  The history
of a session holds the results of the calls and every call of the service with
its answer, in the order in which they come to their ends.  The writer itself
is a parameter: what its futures do when they are resumed, and what happens to
it in the background.
-/

namespace OpenDal

open Automaton

inductive WriteCall where
  | write (bs : Buffer)
  | close
  | abort

/-- A writer of `oio::Write`.  A future is resumed by an event `E` of the
environment; this, or an event in the background, may show a call `L` of the
service. -/
structure OioWrite (W WF CF AF E L : Type) where
  write : Buffer → WF
  close : CF
  abort : AF
  resumeWrite : W → WF → E →
    Option (W × Progress WF (Except Error Unit) × Option L)
  resumeClose : W → CF → E →
    Option (W × Progress CF (Except Error Unit) × Option L)
  resumeAbort : W → AF → E →
    Option (W × Progress AF (Except Error Unit) × Option L)
  background : W → E → Option (W × Option L)

structure CompleteWriter (W : Type) where
  inner : Option W

/-- The call in flight. -/
inductive CallFuture (WF CF AF : Type) where
  | write (bs : Buffer) (future : WF)
  | close (future : CF)
  | abort (future : AF)

/-- What comes to its end in a session. -/
inductive HistoryEntry (L : Type) where
  | wrote (bs : Buffer) (result : Except Error Unit)
  | closed (result : Except Error Unit)
  | aborted (result : Except Error Unit)
  | served (call : L)

structure WriterSession (W WF CF AF L : Type) where
  writer : CompleteWriter W
  call : Option (CallFuture WF CF AF)
  history : List (HistoryEntry L)
  panicked : Bool

inductive SessionEvent (E : Type) where
  | call (call : WriteCall)
  | resume (event : E)
  | background (event : E)

variable {W WF CF AF E L : Type}

namespace OioWrite

def start (model : OioWrite W WF CF AF E L) : WriteCall → CallFuture WF CF AF
  | .write bs => .write bs (model.write bs)
  | .close => .close model.close
  | .abort => .abort model.abort

end OioWrite

namespace WriteCall

def returned (result : Except Error Unit) : WriteCall → HistoryEntry L
  | .write bs => .wrote bs result
  | .close => .closed result
  | .abort => .aborted result

end WriteCall

namespace WriterSession

def new (writer : W) : WriterSession W WF CF AF L :=
  { writer := ⟨some writer⟩
    call := none
    history := []
    panicked := false }

def closedError : Error :=
  .new .unexpected "writer has been closed or aborted"

/-- The history with a call of the service, if there was one. -/
def serve (session : WriterSession W WF CF AF L) (served : Option L) :
    List (HistoryEntry L) :=
  session.history ++ (served.map .served).toList

def afterWrite (session : WriterSession W WF CF AF L) (bs : Buffer) :
    W × Progress WF (Except Error Unit) × Option L →
      WriterSession W WF CF AF L
  | (inner, .suspended future, served) =>
      { session with
        writer := ⟨some inner⟩
        call := some (.write bs future)
        history := session.serve served }
  | (inner, .returned result, served) =>
      { session with
        writer := ⟨some inner⟩
        call := none
        history := session.serve served ++ [.wrote bs result] }
  | (inner, .panicked _, served) =>
      { writer := ⟨some inner⟩
        call := none
        history := session.serve served
        panicked := true }

def afterClose (session : WriterSession W WF CF AF L) :
    W × Progress CF (Except Error Unit) × Option L →
      WriterSession W WF CF AF L
  | (inner, .suspended future, served) =>
      { session with
        writer := ⟨some inner⟩
        call := some (.close future)
        history := session.serve served }
  | (inner, .returned (.error err), served) =>
      { session with
        writer := ⟨some inner⟩
        call := none
        history := session.serve served ++ [.closed (.error err)] }
  | (_, .returned (.ok ()), served) =>
      { session with
        writer := ⟨none⟩
        call := none
        history := session.serve served ++ [.closed (.ok ())] }
  | (inner, .panicked _, served) =>
      { writer := ⟨some inner⟩
        call := none
        history := session.serve served
        panicked := true }

def afterAbort (session : WriterSession W WF CF AF L) :
    W × Progress AF (Except Error Unit) × Option L →
      WriterSession W WF CF AF L
  | (inner, .suspended future, served) =>
      { session with
        writer := ⟨some inner⟩
        call := some (.abort future)
        history := session.serve served }
  | (inner, .returned (.error err), served) =>
      { session with
        writer := ⟨some inner⟩
        call := none
        history := session.serve served ++ [.aborted (.error err)] }
  | (_, .returned (.ok ()), served) =>
      { session with
        writer := ⟨none⟩
        call := none
        history := session.serve served ++ [.aborted (.ok ())] }
  | (inner, .panicked _, served) =>
      { writer := ⟨some inner⟩
        call := none
        history := session.serve served
        panicked := true }

/-- A session ends with a panic; otherwise the caller makes one call after the
other, whatever they return. -/
def step (model : OioWrite W WF CF AF E L)
    (session : WriterSession W WF CF AF L) :
    SessionEvent E → Option (WriterSession W WF CF AF L)
  | .call call =>
      if session.panicked || session.call.isSome then
        none
      else
        match session.writer.inner with
        | none => some { session with
            history := session.history ++
              [call.returned (.error closedError)] }
        | some _ => some { session with call := some (model.start call) }
  | .resume event =>
      match session.writer.inner, session.call with
      | some inner, some (.write bs future) =>
          (model.resumeWrite inner future event).map (session.afterWrite bs)
      | some inner, some (.close future) =>
          (model.resumeClose inner future event).map session.afterClose
      | some inner, some (.abort future) =>
          (model.resumeAbort inner future event).map session.afterAbort
      | _, _ => none
  | .background event =>
      match session.panicked, session.writer.inner with
      | false, some inner => (model.background inner event).map
          fun (inner, served) => { session with
            writer := ⟨some inner⟩
            history := session.serve served }
      | _, _ => none

end WriterSession

/-! ## What a history shows -/

namespace HistoryEntry

/-- A write that has returned `Ok`. -/
def accepted? : HistoryEntry L → Option Buffer
  | .wrote bs (.ok ()) => some bs
  | _ => none

def served? : HistoryEntry L → Option L
  | .served call => some call
  | _ => none

/-- `close` or `abort` has returned `Ok`. -/
def isFinal : HistoryEntry L → Bool
  | .closed (.ok ()) => true
  | .aborted (.ok ()) => true
  | _ => false

end HistoryEntry

/-- The writes that have returned `Ok`. -/
def acceptedWrites (history : List (HistoryEntry L)) : List Buffer :=
  history.filterMap HistoryEntry.accepted?

/-- The calls that have reached the service. -/
def serviceLog (history : List (HistoryEntry L)) : List L :=
  history.filterMap HistoryEntry.served?

@[simp] theorem acceptedWrites_append (left right : List (HistoryEntry L)) :
    acceptedWrites (left ++ right) = acceptedWrites left ++ acceptedWrites right :=
  List.filterMap_append

@[simp] theorem serviceLog_append (left right : List (HistoryEntry L)) :
    serviceLog (left ++ right) = serviceLog left ++ serviceLog right :=
  List.filterMap_append

@[simp] theorem acceptedWrites_singleton (entry : HistoryEntry L) :
    acceptedWrites [entry] = entry.accepted?.toList := by
  cases found : entry.accepted? with
  | none => simp [acceptedWrites, found]
  | some bs => simp [acceptedWrites, found]

@[simp] theorem serviceLog_singleton (entry : HistoryEntry L) :
    serviceLog [entry] = entry.served?.toList := by
  cases found : entry.served? with
  | none => simp [serviceLog, found]
  | some call => simp [serviceLog, found]

@[simp] theorem acceptedWrites_serve (session : WriterSession W WF CF AF L)
    (served : Option L) :
    acceptedWrites (session.serve served) = acceptedWrites session.history := by
  cases served with
  | none => simp [WriterSession.serve]
  | some call => simp [WriterSession.serve, HistoryEntry.accepted?]

@[simp] theorem serviceLog_serve (session : WriterSession W WF CF AF L)
    (served : Option L) :
    serviceLog (session.serve served) =
      serviceLog session.history ++ served.toList := by
  cases served with
  | none => simp [WriterSession.serve]
  | some call => simp [WriterSession.serve, HistoryEntry.served?]

/-- A commit is one that succeeded; `covers` relates the accepted writes, the
calls of the service so far and the commit. -/
structure CommitSpec (L : Type) where
  isCommit : L → Bool
  covers : List Buffer → List L → L → Prop

/-- There is one commit at most. -/
def CommitsOnce (spec : CommitSpec L) (history : List (HistoryEntry L)) :
    Prop :=
  ((serviceLog history).filter spec.isCommit).length ≤ 1

/-- Nothing reaches the service once `close` or `abort` has returned `Ok`. -/
def QuietAfterEnd (history : List (HistoryEntry L)) : Prop :=
  history.Pairwise fun earlier later =>
    earlier.isFinal = true → later.served? = none

/-- A commit covers the writes accepted before it. -/
def CommitsCover (spec : CommitSpec L) (history : List (HistoryEntry L)) :
    Prop :=
  ∀ index call, history[index]? = some (.served call) →
    spec.isCommit call = true →
      spec.covers (acceptedWrites (history.take index))
        (serviceLog (history.take index)) call

/-- Nothing has been committed, and the session has not ended. -/
structure Live (spec : CommitSpec L) (history : List (HistoryEntry L)) :
    Prop where
  uncommitted : (serviceLog history).filter spec.isCommit = []
  unfinished : ∀ entry ∈ history, entry.isFinal = false

/-- All that is asked of a history. -/
structure WellCommitted (spec : CommitSpec L)
    (history : List (HistoryEntry L)) : Prop where
  once : CommitsOnce spec history
  quiet : QuietAfterEnd history
  covered : CommitsCover spec history

section Histories

variable {spec : CommitSpec L} {history : List (HistoryEntry L)}

theorem live_nil (spec : CommitSpec L) : Live spec [] :=
  ⟨rfl, by simp⟩

theorem wellCommitted_nil (spec : CommitSpec L) : WellCommitted spec [] where
  once := Nat.zero_le _
  quiet := List.Pairwise.nil
  covered := by simp [CommitsCover]

theorem CommitsCover.concat {entry : HistoryEntry L}
    (covered : CommitsCover spec history)
    (last : ∀ call, entry = .served call → spec.isCommit call = true →
      spec.covers (acceptedWrites history) (serviceLog history) call) :
    CommitsCover spec (history ++ [entry]) := by
  intro index call found commits
  by_cases earlier : index < history.length
  · rw [List.getElem?_append_left earlier] at found
    rw [List.take_append_of_le_length (Nat.le_of_lt earlier)]
    exact covered index call found commits
  · have atEnd : index = history.length := by
      have within := (List.getElem?_eq_some_iff.mp found).1
      simp only [List.length_append, List.length_singleton] at within
      omega
    subst atEnd
    rw [List.getElem?_concat_length, Option.some.injEq] at found
    rw [List.take_left]
    exact last call found commits

theorem WellCommitted.concat_result {entry : HistoryEntry L}
    (committed : WellCommitted spec history)
    (result : entry.served? = none) :
    WellCommitted spec (history ++ [entry]) where
  once := by
    have same : serviceLog (history ++ [entry]) = serviceLog history := by
      simp [serviceLog, result]
    rw [CommitsOnce, same]
    exact committed.once
  quiet := by
    refine List.pairwise_append.mpr ⟨committed.quiet,
      List.pairwise_singleton _ entry, ?_⟩
    intro earlier _ last isLast _
    rw [List.mem_singleton.mp isLast]
    exact result
  covered := by
    apply committed.covered.concat
    intro call served
    subst served
    cases result

theorem Live.concat_served (live : Live spec history) {call : L}
    (uncommitted : spec.isCommit call = false) :
    Live spec (history ++ [.served call]) where
  uncommitted := by
    have logged : serviceLog [HistoryEntry.served call] = [call] := rfl
    rw [serviceLog_append, List.filter_append, live.uncommitted, logged]
    simp [uncommitted]
  unfinished := by
    intro entry member
    rcases List.mem_append.mp member with earlier | last
    · exact live.unfinished entry earlier
    · rw [List.mem_singleton.mp last]
      rfl

theorem Live.concat_result (live : Live spec history)
    {entry : HistoryEntry L} (result : entry.served? = none)
    (unfinished : entry.isFinal = false) :
    Live spec (history ++ [entry]) where
  uncommitted := by
    have same : serviceLog (history ++ [entry]) = serviceLog history := by
      simp [serviceLog, result]
    rw [same]
    exact live.uncommitted
  unfinished := by
    intro other member
    rcases List.mem_append.mp member with earlier | last
    · exact live.unfinished other earlier
    · rw [List.mem_singleton.mp last]
      exact unfinished

theorem WellCommitted.concat_served
    (committed : WellCommitted spec history) (live : Live spec history)
    {call : L}
    (covers : spec.isCommit call = true →
      spec.covers (acceptedWrites history) (serviceLog history) call) :
    WellCommitted spec (history ++ [.served call]) where
  once := by
    have logged : serviceLog [HistoryEntry.served call] = [call] := rfl
    rw [CommitsOnce, serviceLog_append, List.filter_append,
      live.uncommitted, logged, List.nil_append]
    exact List.length_filter_le _ _
  quiet := by
    refine List.pairwise_append.mpr ⟨committed.quiet,
      List.pairwise_singleton _ _, ?_⟩
    intro earlier member last _ final
    rw [live.unfinished earlier member] at final
    cases final
  covered := by
    apply committed.covered.concat
    intro other same
    cases same
    exact covers

end Histories

/-! ## Invariants of sessions -/

/-- Which calls, and which events for the call in flight, are considered. -/
structure SessionCondition (W WF CF AF E : Type) where
  call : List Buffer → W → WriteCall → Prop
  resume : CallFuture WF CF AF → E → Prop

/-- The condition holds in the step. -/
def SessionCondition.Meets (condition : SessionCondition W WF CF AF E)
    (session : WriterSession W WF CF AF L) : SessionEvent E → Prop
  | .call call => ∀ writer, session.writer.inner = some writer →
      condition.call (acceptedWrites session.history) writer call
  | .resume event => ∀ future, session.call = some future →
      condition.resume future event
  | .background _ => True

/-- An invariant of a writer, in terms of the accepted writes and of the calls
of the service: one for the times between the calls, and one for each
call. -/
structure Stages (W WF CF AF L : Type) where
  idle : List Buffer → List L → W → Prop
  writing : List Buffer → List L → W → Buffer → WF → Prop
  closing : List Buffer → List L → W → CF → Prop
  aborting : List Buffer → List L → W → AF → Prop

namespace Stages

def Holds (stages : Stages W WF CF AF L) (accepted : List Buffer)
    (log : List L) (writer : W) : Option (CallFuture WF CF AF) → Prop
  | none => stages.idle accepted log writer
  | some (.write bs future) => stages.writing accepted log writer bs future
  | some (.close future) => stages.closing accepted log writer future
  | some (.abort future) => stages.aborting accepted log writer future

/-- What resuming `write` has to come to. -/
def AfterWrite (stages : Stages W WF CF AF L) (panics : Prop)
    (accepted : List Buffer) (log : List L) (writer : W) (bs : Buffer) :
    Progress WF (Except Error Unit) → Prop
  | .suspended future => stages.writing accepted log writer bs future
  | .returned (.ok ()) => stages.idle (accepted ++ [bs]) log writer
  | .returned (.error _) => stages.idle accepted log writer
  | .panicked _ => panics

/-- What resuming `close` has to come to. -/
def AfterClose (stages : Stages W WF CF AF L) (panics : Prop)
    (accepted : List Buffer) (log : List L) (writer : W) :
    Progress CF (Except Error Unit) → Prop
  | .suspended future => stages.closing accepted log writer future
  | .returned (.ok ()) => True
  | .returned (.error _) => stages.idle accepted log writer
  | .panicked _ => panics

/-- What resuming `abort` has to come to. -/
def AfterAbort (stages : Stages W WF CF AF L) (panics : Prop)
    (accepted : List Buffer) (log : List L) (writer : W) :
    Progress AF (Except Error Unit) → Prop
  | .suspended future => stages.aborting accepted log writer future
  | .returned (.ok ()) => True
  | .returned (.error _) => stages.idle accepted log writer
  | .panicked _ => panics

/-- The obligations for an invariant. -/
structure Maintained (stages : Stages W WF CF AF L)
    (model : OioWrite W WF CF AF E L) (spec : CommitSpec L)
    (condition : SessionCondition W WF CF AF E) (panics : Prop) : Prop where
  start : ∀ {accepted log writer} call,
    stages.idle accepted log writer →
    condition.call accepted writer call →
    stages.Holds accepted log writer (some (model.start call))
  resumeWrite : ∀ {accepted log writer bs future event later progress served},
    stages.writing accepted log writer bs future →
    condition.resume (.write bs future) event →
    model.resumeWrite writer future event = some (later, progress, served) →
    (∀ call, served = some call → spec.isCommit call = false) ∧
      stages.AfterWrite panics accepted (log ++ served.toList) later bs
        progress
  resumeClose : ∀ {accepted log writer future event later progress served},
    stages.closing accepted log writer future →
    condition.resume (.close future) event →
    model.resumeClose writer future event = some (later, progress, served) →
    (∀ call, served = some call → spec.isCommit call = true →
      progress = .returned (.ok ()) ∧ spec.covers accepted log call) ∧
      stages.AfterClose panics accepted (log ++ served.toList) later progress
  resumeAbort : ∀ {accepted log writer future event later progress served},
    stages.aborting accepted log writer future →
    condition.resume (.abort future) event →
    model.resumeAbort writer future event = some (later, progress, served) →
    (∀ call, served = some call → spec.isCommit call = false) ∧
      stages.AfterAbort panics accepted (log ++ served.toList) later progress
  background : ∀ {accepted log writer event later served} call,
    stages.Holds accepted log writer call →
    model.background writer event = some (later, served) →
    (∀ call, served = some call → spec.isCommit call = false) ∧
      stages.Holds accepted (log ++ served.toList) later call

/-- How far a session has come for which an invariant holds. -/
inductive Governs (stages : Stages W WF CF AF L) (spec : CommitSpec L)
    (panics : Prop) (session : WriterSession W WF CF AF L) : Prop where
  | running {writer : W} (inner : session.writer.inner = some writer)
      (sound : session.panicked = false) (live : Live spec session.history)
      (holds : stages.Holds (acceptedWrites session.history)
        (serviceLog session.history) writer session.call)
  | ended (inner : session.writer.inner = none)
      (sound : session.panicked = false) (idle : session.call = none)
  | broken (panicked : session.panicked = true) (idle : session.call = none)
      (explained : panics)

variable {stages : Stages W WF CF AF L} {model : OioWrite W WF CF AF E L}
  {spec : CommitSpec L} {condition : SessionCondition W WF CF AF E}
  {panics : Prop} {session later : WriterSession W WF CF AF L}

theorem live_serve (live : Live spec session.history) {served : Option L}
    (uncommitted : ∀ call, served = some call →
      spec.isCommit call = false) :
    Live spec (session.serve served) := by
  cases served with
  | none => simpa [WriterSession.serve] using live
  | some call => exact live.concat_served (uncommitted call rfl)

theorem wellCommitted_serve (committed : WellCommitted spec session.history)
    (live : Live spec session.history) {served : Option L}
    (covers : ∀ call, served = some call → spec.isCommit call = true →
      spec.covers (acceptedWrites session.history)
        (serviceLog session.history) call) :
    WellCommitted spec (session.serve served) := by
  cases served with
  | none => simpa [WriterSession.serve] using committed
  | some call => exact committed.concat_served live (covers call rfl)

theorem wellCommitted_serve_of_uncommitted
    (committed : WellCommitted spec session.history)
    (live : Live spec session.history) {served : Option L}
    (uncommitted : ∀ call, served = some call →
      spec.isCommit call = false) :
    WellCommitted spec (session.serve served) := by
  apply wellCommitted_serve committed live
  intro call same commits
  rw [uncommitted call same] at commits
  cases commits

theorem holds_result {writer : W} {entry : HistoryEntry L}
    {served : Option L} (result : entry.served? = none)
    (idle : stages.idle
      (acceptedWrites session.history ++ entry.accepted?.toList)
      (serviceLog session.history ++ served.toList) writer) :
    stages.Holds (acceptedWrites (session.serve served ++ [entry]))
      (serviceLog (session.serve served ++ [entry])) writer none := by
  simpa [result, Holds] using idle

theorem governs_afterWrite {bs : Buffer} {writer : W} {served : Option L}
    {progress : Progress WF (Except Error Unit)}
    (sound : session.panicked = false)
    (live : Live spec session.history)
    (committed : WellCommitted spec session.history)
    (uncommitted : ∀ call, served = some call → spec.isCommit call = false)
    (after : stages.AfterWrite panics (acceptedWrites session.history)
      (serviceLog session.history ++ served.toList) writer bs progress) :
    WellCommitted spec
        (session.afterWrite bs (writer, progress, served)).history ∧
      stages.Governs spec panics
        (session.afterWrite bs (writer, progress, served)) := by
  have logged := wellCommitted_serve_of_uncommitted committed live uncommitted
  have stillLive := live_serve live uncommitted
  cases progress with
  | suspended future =>
      refine ⟨logged, .running rfl sound stillLive ?_⟩
      simp only [WriterSession.afterWrite, acceptedWrites_serve,
        serviceLog_serve]
      exact after
  | returned result =>
      refine ⟨logged.concat_result rfl, ?_⟩
      refine .running rfl sound (stillLive.concat_result rfl rfl) ?_
      cases result with
      | ok done => exact holds_result rfl after
      | error err =>
          apply holds_result rfl
          simp only [HistoryEntry.accepted?, Option.toList_none,
            List.append_nil]
          exact after
  | panicked message => exact ⟨logged, .broken rfl rfl after⟩

theorem governs_afterAbort {writer : W} {served : Option L}
    {progress : Progress AF (Except Error Unit)}
    (sound : session.panicked = false)
    (live : Live spec session.history)
    (committed : WellCommitted spec session.history)
    (uncommitted : ∀ call, served = some call → spec.isCommit call = false)
    (after : stages.AfterAbort panics (acceptedWrites session.history)
      (serviceLog session.history ++ served.toList) writer progress) :
    WellCommitted spec
        (session.afterAbort (writer, progress, served)).history ∧
      stages.Governs spec panics
        (session.afterAbort (writer, progress, served)) := by
  have logged := wellCommitted_serve_of_uncommitted committed live uncommitted
  have stillLive := live_serve live uncommitted
  cases progress with
  | suspended future =>
      refine ⟨logged, .running rfl sound stillLive ?_⟩
      simp only [WriterSession.afterAbort, acceptedWrites_serve,
        serviceLog_serve]
      exact after
  | returned result =>
      cases result with
      | ok done => exact ⟨logged.concat_result rfl, .ended rfl sound rfl⟩
      | error err =>
          refine ⟨logged.concat_result rfl, ?_⟩
          refine .running rfl sound (stillLive.concat_result rfl rfl) ?_
          apply holds_result rfl
          simp only [HistoryEntry.accepted?, Option.toList_none,
            List.append_nil]
          exact after
  | panicked message => exact ⟨logged, .broken rfl rfl after⟩

theorem governs_afterClose {writer : W} {served : Option L}
    {progress : Progress CF (Except Error Unit)}
    (sound : session.panicked = false)
    (live : Live spec session.history)
    (committed : WellCommitted spec session.history)
    (commit : ∀ call, served = some call → spec.isCommit call = true →
      progress = .returned (.ok ()) ∧
        spec.covers (acceptedWrites session.history)
          (serviceLog session.history) call)
    (after : stages.AfterClose panics (acceptedWrites session.history)
      (serviceLog session.history ++ served.toList) writer progress) :
    WellCommitted spec
        (session.afterClose (writer, progress, served)).history ∧
      stages.Governs spec panics
        (session.afterClose (writer, progress, served)) := by
  have logged : WellCommitted spec (session.serve served) := by
    apply wellCommitted_serve committed live
    intro call same commits
    exact (commit call same commits).2
  have stillLive : progress ≠ .returned (.ok ()) →
      Live spec (session.serve served) := by
    intro open_
    apply live_serve live
    intro call same
    by_contra commits
    exact open_ (commit call same (by simpa using commits)).1
  cases progress with
  | suspended future =>
      refine ⟨logged, .running rfl sound (stillLive (by simp)) ?_⟩
      simp only [WriterSession.afterClose, acceptedWrites_serve,
        serviceLog_serve]
      exact after
  | returned result =>
      cases result with
      | ok done => exact ⟨logged.concat_result rfl, .ended rfl sound rfl⟩
      | error err =>
          refine ⟨logged.concat_result rfl, ?_⟩
          refine .running rfl sound
            ((stillLive (by simp)).concat_result rfl rfl) ?_
          apply holds_result rfl
          simp only [HistoryEntry.accepted?, Option.toList_none,
            List.append_nil]
          exact after
  | panicked message => exact ⟨logged, .broken rfl rfl after⟩

/-- A session that is governed, with the history that is asked for. -/
def Sound (stages : Stages W WF CF AF L) (spec : CommitSpec L)
    (panics : Prop) (session : WriterSession W WF CF AF L) : Prop :=
  WellCommitted spec session.history ∧ stages.Governs spec panics session

theorem Maintained.step {event : SessionEvent E}
    (maintained : stages.Maintained model spec condition panics)
    (governed : stages.Sound spec panics session)
    (meets : condition.Meets session event)
    (stepped : session.step model event = some later) :
    stages.Sound spec panics later := by
  obtain ⟨committed, phase⟩ := governed
  cases phase with
  | running inner sound live holds =>
      rename_i writer
      cases event with
      | call call =>
          simp only [WriterSession.step, sound, Bool.false_or, inner] at stepped
          split at stepped
          · cases stepped
          · rename_i idle
            cases stepped
            have unused : session.call = none := by simpa using idle
            rw [unused] at holds
            have started := maintained.start call holds (meets writer inner)
            exact ⟨committed, .running inner rfl live started⟩
      | resume event =>
          simp only [WriterSession.step, inner] at stepped
          split at stepped
          · rename_i bs future same called
            cases same
            rw [called] at holds
            obtain ⟨⟨next, progress, served⟩, resumed, rfl⟩ :=
              Option.map_eq_some_iff.mp stepped
            obtain ⟨uncommitted, after⟩ :=
              maintained.resumeWrite holds (meets _ called) resumed
            exact governs_afterWrite sound live committed uncommitted after
          · rename_i future same called
            cases same
            rw [called] at holds
            obtain ⟨⟨next, progress, served⟩, resumed, rfl⟩ :=
              Option.map_eq_some_iff.mp stepped
            obtain ⟨commit, after⟩ :=
              maintained.resumeClose holds (meets _ called) resumed
            exact governs_afterClose sound live committed commit after
          · rename_i future same called
            cases same
            rw [called] at holds
            obtain ⟨⟨next, progress, served⟩, resumed, rfl⟩ :=
              Option.map_eq_some_iff.mp stepped
            obtain ⟨uncommitted, after⟩ :=
              maintained.resumeAbort holds (meets _ called) resumed
            exact governs_afterAbort sound live committed uncommitted after
          · cases stepped
      | background event =>
          simp only [WriterSession.step, sound, inner] at stepped
          obtain ⟨⟨next, served⟩, moved, rfl⟩ :=
            Option.map_eq_some_iff.mp stepped
          obtain ⟨uncommitted, after⟩ :=
            maintained.background session.call holds moved
          refine ⟨wellCommitted_serve_of_uncommitted committed live uncommitted,
            .running rfl rfl (live_serve live uncommitted) ?_⟩
          simp only [acceptedWrites_serve, serviceLog_serve]
          exact after
  | ended inner sound idle =>
      cases event with
      | call call =>
          simp only [WriterSession.step, sound, idle, inner] at stepped
          cases stepped
          have result : (call.returned (.error WriterSession.closedError) :
              HistoryEntry L).served? = none := by
            cases call <;> rfl
          exact ⟨committed.concat_result result, .ended inner rfl rfl⟩
      | resume event => simp [WriterSession.step, inner] at stepped
      | background event => simp [WriterSession.step, inner] at stepped
  | broken panicked idle explained =>
      cases event with
      | call call => simp [WriterSession.step, panicked] at stepped
      | resume event => simp [WriterSession.step, idle] at stepped
      | background event => simp [WriterSession.step, panicked] at stepped

theorem Maintained.run {writer : W} {events : List (SessionEvent E)}
    (maintained : stages.Maintained model spec condition panics)
    (initially : stages.idle [] [] writer)
    (meets : Along (WriterSession.step model) condition.Meets
      (WriterSession.new writer) events)
    (ran : run (WriterSession.step model) (WriterSession.new writer) events =
      some session) :
    stages.Sound spec panics session := by
  have start : stages.Sound spec panics
      (WriterSession.new writer : WriterSession W WF CF AF L) :=
    ⟨wellCommitted_nil spec,
      .running rfl rfl (live_nil spec) initially⟩
  exact run_invariant_along
    (fun governed meets stepped => maintained.step governed meets stepped)
    start meets ran

end Stages

/-! ## Whole sessions -/

/-- Only `close` commits, and it returns then. -/
structure CommitsLast (model : OioWrite W WF CF AF E L) (spec : CommitSpec L) :
    Prop where
  write : ∀ {writer future event later progress call},
    model.resumeWrite writer future event =
      some (later, progress, some call) → spec.isCommit call = false
  close : ∀ {writer future event later progress call},
    model.resumeClose writer future event =
      some (later, progress, some call) → spec.isCommit call = true →
      progress = .returned (.ok ())
  abort : ∀ {writer future event later progress call},
    model.resumeAbort writer future event =
      some (later, progress, some call) → spec.isCommit call = false
  background : ∀ {writer event later call},
    model.background writer event = some (later, some call) →
      spec.isCommit call = false

/-- No invariant at all, which is enough for a single commit. -/
def noStages (W WF CF AF L : Type) : Stages W WF CF AF L where
  idle := fun _ _ _ => True
  writing := fun _ _ _ _ _ => True
  closing := fun _ _ _ _ => True
  aborting := fun _ _ _ _ => True

theorem noStages_holds (accepted : List Buffer) (log : List L) (writer : W)
    (call : Option (CallFuture WF CF AF)) :
    (noStages W WF CF AF L).Holds accepted log writer call := by
  cases call with
  | none => trivial
  | some call => cases call <;> trivial

theorem CommitsLast.maintained {model : OioWrite W WF CF AF E L}
    {spec : CommitSpec L} (last : CommitsLast model spec) :
    (noStages W WF CF AF L).Maintained model
      { spec with covers := fun _ _ _ => True }
      { call := fun _ _ _ => True, resume := fun _ _ => True } True where
  start := fun call _ _ => noStages_holds _ _ _ _
  resumeWrite := by
    intro _ _ _ _ _ _ _ progress served _ _ resumed
    refine ⟨fun call same => last.write (same ▸ resumed), ?_⟩
    match progress with
    | .suspended _ | .returned (.ok ()) | .returned (.error _) |
      .panicked _ => trivial
  resumeClose := by
    intro _ _ _ _ _ _ progress served _ _ resumed
    refine ⟨fun call same commits =>
      ⟨last.close (same ▸ resumed) commits, trivial⟩, ?_⟩
    match progress with
    | .suspended _ | .returned (.ok ()) | .returned (.error _) |
      .panicked _ => trivial
  resumeAbort := by
    intro _ _ _ _ _ _ progress served _ _ resumed
    refine ⟨fun call same => last.abort (same ▸ resumed), ?_⟩
    match progress with
    | .suspended _ | .returned (.ok ()) | .returned (.error _) |
      .panicked _ => trivial
  background := fun call _ moved =>
    ⟨fun served same => last.background (same ▸ moved),
      noStages_holds _ _ _ _⟩

/-- No session commits twice or goes on after its end, and under the condition
a commit covers all writes. -/
def CommitsSafely (model : OioWrite W WF CF AF E L) (spec : CommitSpec L)
    (condition : SessionCondition W WF CF AF E) (writer : W) : Prop :=
  ∀ (events : List (SessionEvent E)) (session : WriterSession W WF CF AF L),
    run (WriterSession.step model) (WriterSession.new writer) events =
      some session →
    CommitsOnce spec session.history ∧ QuietAfterEnd session.history ∧
      (Along (WriterSession.step model) condition.Meets
        (WriterSession.new writer) events →
        CommitsCover spec session.history)

theorem commitsSafely {model : OioWrite W WF CF AF E L} {spec : CommitSpec L}
    {condition : SessionCondition W WF CF AF E} {writer : W}
    {stages : Stages W WF CF AF L} {panics : Prop}
    (last : CommitsLast model spec)
    (maintained : stages.Maintained model spec condition panics)
    (initially : stages.idle [] [] writer) :
    CommitsSafely model spec condition writer := by
  intro events session ran
  have always : Along (WriterSession.step model)
      (SessionCondition.Meets
        { call := fun _ _ _ => True, resume := fun _ _ => True })
      (WriterSession.new writer) events := by
    apply along_of_mem
    intro event _ state
    cases event with
    | call call => exact fun _ _ => trivial
    | resume event => exact fun _ _ => trivial
    | background event => trivial
  have single := (last.maintained.run trivial always ran).1
  refine ⟨single.once, single.quiet, ?_⟩
  intro meets
  exact (maintained.run initially meets ran).1.covered

end OpenDal
