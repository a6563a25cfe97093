import OpenDal.Raw.RequestWriter

/-!
# `OneShotWriter`

The writer keeps one buffer and stores it when it is closed.  Storing it may
take a service several requests: `OneShotWrite` is the future `write_once`,
and `StoresAtOnce` what is asked of it, namely that it stores everything or
nothing, whatever becomes of its requests.  Then the object is never a part of
what has been written.
-/

namespace OpenDal

open Automaton

/-- `write_once` of the trait `OneShotWrite`, from its first request to its
end. -/
structure OneShotWrite (F S R A : Type) where
  writeOnce : Buffer → Progress F (Except Error Unit)
  request : F → R
  perform : S → R → S × Except Error A
  resume : F → Except Error A → Progress F (Except Error Unit)

structure OneShotWriter where
  buffer : Option Buffer

namespace OneShotWriter

variable {F S R A : Type}

def new : OneShotWriter :=
  ⟨none⟩

def multipleWrites : Error :=
  .new .unsupported "OneShotWriter doesn't support multiple write"

def start (inner : OneShotWrite F S R A) (self : OneShotWriter) :
    WriteCall → OneShotWriter × Progress F (Except Error Unit)
  | .write bs =>
      match self.buffer with
      | some _ => (self, .returned (.error multipleWrites))
      | none => ({ self with buffer := some bs }, .returned (.ok ()))
  | .close =>
      match self.buffer with
      | some bs => (self, inner.writeOnce bs)
      | none => (self, inner.writeOnce Buffer.new)
  | .abort => ({ self with buffer := none }, .returned (.ok ()))

def model (inner : OneShotWrite F S R A) :
    RequestWriter OneShotWriter F S R A where
  start := start inner
  request := inner.request
  perform := inner.perform
  resume := fun self future answer => (self, inner.resume future answer)

end OneShotWriter

/-! ## What is asked of `write_once` -/

namespace OneShotWrite

variable {F S R A : Type}

def serve (inner : OneShotWrite F S R A) (service : S) (future : F) :
    Fate → S × Except Error A
  | .answered => inner.perform service (inner.request future)
  | .lost err => ((inner.perform service (inner.request future)).1, .error err)
  | .refused err => (service, .error err)

/-- The object is the old one or all of `bs`. -/
def Between (object : S → Option Bytes) (bs : Buffer) (service later : S) :
    Prop :=
  object later = object service ∨ object later = some bs.bytes

/-- How far `write_once` of `bs` has come: an `Ok` means that it is stored. -/
def Reached (object : S → Option Bytes) (storing : Buffer → F → S → Prop)
    (bs : Buffer) (service : S) :
    Progress F (Except Error Unit) → Prop
  | .suspended future => storing bs future service
  | .returned (.ok ()) => object service = some bs.bytes
  | .returned (.error _) => True
  | .panicked _ => False

/-- `storing` is the invariant of a `write_once` that waits for an answer, and
`sane` one of the service.  No request that is answered is turned down. -/
structure StoresAtOnce (inner : OneShotWrite F S R A)
    (object : S → Option Bytes) (sane : S → Prop)
    (storing : Buffer → F → S → Prop) : Prop where
  begins : ∀ {service} bs, sane service →
    Reached object storing bs service (inner.writeOnce bs)
  serves : ∀ {service bs future} fate, sane service →
    storing bs future service →
    sane (inner.serve service future fate).1 ∧
      Between object bs service (inner.serve service future fate).1 ∧
      Reached object storing bs (inner.serve service future fate).1
        (inner.resume future (inner.serve service future fate).2)
  accepts : ∀ {service bs future}, sane service →
    storing bs future service → ∀ err,
    inner.resume future (inner.perform service (inner.request future)).2 ≠
      .returned (.error err)
  starts : ∀ bs err, inner.writeOnce bs ≠ .returned (.error err)

end OneShotWrite

/-! ## The invariant -/

namespace OneShotWriter

open OneShotWrite

variable {F S R A : Type} {inner : OneShotWrite F S R A} {calm : Prop}
  {object : S → Option Bytes} {sane : S → Prop}
  {storing : Buffer → F → S → Prop} {initial : Option Bytes}
  {history : List (HistoryEntry Empty)} {writer : OneShotWriter}
  {service : S}

/-- The object is the initial one, or the whole of what was in the writer at
some `close`: nothing, or what has been accepted. -/
def Whole (initial : Option Bytes) (history : List (HistoryEntry Empty))
    (found : Option Bytes) : Prop :=
  found = initial ∨ found = some [] ∨ found = some (acceptedBytes history)

/-- What `close` is going to write. -/
def Holds (history : List (HistoryEntry Empty)) (writer : OneShotWriter) :
    Prop :=
  acceptedWrites history = writer.buffer.toList

/-- `close` fails after the end of the session only. -/
def NoFailures (history : List (HistoryEntry Empty)) : Prop :=
  ∀ err, .closed (.error err) ∈ history → err = WriterSession.closedError

structure Tracks (calm : Prop) (object : S → Option Bytes) (sane : S → Prop)
    (initial : Option Bytes) (history : List (HistoryEntry Empty))
    (writer : OneShotWriter) (service : S) : Prop where
  holds : Holds history writer
  whole : Whole initial history (object service)
  sane : sane service
  smooth : calm → NoFailures history

/-- `close` has returned `Ok`. -/
def Closed (history : List (HistoryEntry Empty)) : Prop :=
  .closed (.ok ()) ∈ history

structure Finished (calm : Prop) (object : S → Option Bytes)
    (initial : Option Bytes) (history : List (HistoryEntry Empty))
    (service : S) : Prop where
  single : (acceptedWrites history).length ≤ 1
  whole : Whole initial history (object service)
  stored : Closed history → object service = some (acceptedBytes history)
  smooth : calm → NoFailures history

/-- In calm weather all requests are answered. -/
def Permits (calm : Prop) : RequestEvent → Prop
  | .call _ | .resume .answered => True
  | _ => ¬ calm

def invariant (calm : Prop) (object : S → Option Bytes) (sane : S → Prop)
    (storing : Buffer → F → S → Prop) (initial : Option Bytes) :
    RequestInvariant OneShotWriter F S where
  idle := fun history writer service =>
    Tracks calm object sane initial history writer service ∧ ¬ Closed history
  waiting := fun history writer service call future =>
    call = .close ∧ storing (writer.buffer.getD Buffer.new) future service ∧
      Tracks calm object sane initial history writer service ∧ ¬ Closed history
  ended := fun history service => Finished calm object initial history service

theorem Holds.bytes (holds : Holds history writer) :
    (writer.buffer.getD Buffer.new).bytes = acceptedBytes history := by
  rw [acceptedBytes, holds]
  cases writer.buffer with
  | none => rfl
  | some bs => simp

theorem acceptedWrites_error (call : WriteCall) (err : Error) :
    acceptedWrites (history ++ [call.returned (.error err)]) =
      acceptedWrites history := by
  cases call <;> simp [WriteCall.returned, HistoryEntry.accepted?]

theorem acceptedWrites_final {call : WriteCall} (final : call.isFinal = true)
    (result : Except Error Unit) :
    acceptedWrites (history ++ [call.returned result]) =
      acceptedWrites history := by
  cases call with
  | write bs => cases final
  | close => simp [WriteCall.returned, HistoryEntry.accepted?]
  | abort => simp [WriteCall.returned, HistoryEntry.accepted?]

/-- The call is not `close`. -/
def Quiet : WriteCall → Prop
  | .close => False
  | _ => True

theorem NoFailures.result (none : NoFailures history) {call : WriteCall}
    {result : Except Error Unit}
    (harmless : Quiet call ∨ result.isOk = true ∨
      result = .error WriterSession.closedError) :
    NoFailures (history ++ [call.returned result]) := by
  intro err member
  rcases List.mem_append.mp member with earlier | last
  · exact none err earlier
  · have same := List.mem_singleton.mp last
    cases call with
    | write bs => cases same
    | abort => cases same
    | close =>
        cases same
        rcases harmless with quiet | succeeded | closed
        · exact quiet.elim
        · cases succeeded
        · cases closed
          rfl

theorem closed_error (call : WriteCall) (err : Error) :
    Closed (history ++ [call.returned (.error err)]) ↔ Closed history := by
  cases call <;> simp [Closed, WriteCall.returned]

theorem Tracks.fail
    (tracks : Tracks calm object sane initial history writer service)
    (call : WriteCall) (err : Error)
    (rough : calm → Quiet call ∨ err = WriterSession.closedError) :
    Tracks calm object sane initial (history ++ [call.returned (.error err)])
      writer service where
  holds := by
    rw [Holds, acceptedWrites_error]
    exact tracks.holds
  whole := by
    rw [Whole, acceptedBytes_error]
    exact tracks.whole
  sane := tracks.sane
  smooth := by
    intro still
    apply (tracks.smooth still).result
    rcases rough still with quiet | closed
    · exact .inl quiet
    · exact .inr (.inr (by rw [closed]))

/-- While `close` waits, the object becomes all of the buffer, if anything. -/
theorem Tracks.serve {later : S}
    (tracks : Tracks calm object sane initial history writer service)
    (between : Between object (writer.buffer.getD Buffer.new) service later)
    (saneLater : sane later) :
    Tracks calm object sane initial history writer later where
  holds := tracks.holds
  whole := by
    rcases between with same | stored
    · rw [same]
      exact tracks.whole
    · rw [stored, tracks.holds.bytes]
      exact .inr (.inr rfl)
  sane := saneLater
  smooth := tracks.smooth

theorem Tracks.finish {call : WriteCall}
    (tracks : Tracks calm object sane initial history writer service)
    (final : call.isFinal = true) (result : Except Error Unit)
    (harmless : Quiet call ∨ result.isOk = true)
    (stored : Closed (history ++ [call.returned result]) →
      object service = some (acceptedBytes history)) :
    Finished calm object initial (history ++ [call.returned result])
      service where
  single := by
    rw [acceptedWrites_final final, tracks.holds]
    cases writer.buffer with
    | none => exact Nat.zero_le 1
    | some bs => exact Nat.le_refl 1
  whole := by
    rw [Whole, acceptedBytes_final final]
    exact tracks.whole
  stored := by
    rw [acceptedBytes_final final]
    exact stored
  smooth := fun still => (tracks.smooth still).result (by
    rcases harmless with quiet | succeeded
    · exact .inl quiet
    · exact .inr (.inl succeeded))

theorem Tracks.close
    (tracks : Tracks calm object sane initial history writer service)
    (opened : ¬ Closed history) {progress : Progress F (Except Error Unit)}
    (reached : Reached object storing (writer.buffer.getD Buffer.new) service
      progress)
    (accepted : calm → ∀ err, progress ≠ .returned (.error err)) :
    (invariant calm object sane storing initial).After history service .close
      (writer, progress) := by
  match progress, reached with
  | .suspended future, reached => exact ⟨rfl, reached, tracks, opened⟩
  | .returned (.ok ()), reached =>
      apply tracks.finish rfl _ (.inr rfl)
      intro _
      rw [← tracks.holds.bytes]
      exact reached
  | .returned (.error err), _ =>
      exact ⟨tracks.fail .close err
        (fun still => absurd rfl (accepted still err)), by
        simpa [WriteCall.returned, Closed] using opened⟩
  | .panicked _, reached => exact reached.elim

theorem Finished.closed
    (finished : Finished calm object initial history service)
    (call : WriteCall) :
    Finished calm object initial
      (history ++ [call.returned (.error WriterSession.closedError)])
      service where
  single := by
    rw [acceptedWrites_error]
    exact finished.single
  whole := by
    rw [Whole, acceptedBytes_error]
    exact finished.whole
  stored := by
    rw [closed_error, acceptedBytes_error]
    exact finished.stored
  smooth := fun still =>
    (finished.smooth still).result (.inr (.inr rfl))

theorem Tracks.accept
    (tracks : Tracks calm object sane initial history writer service)
    (unused : writer.buffer = none) (bs : Buffer) :
    Tracks calm object sane initial (history ++ [.wrote bs (.ok ())])
      { writer with buffer := some bs } service where
  holds := by
    have empty := tracks.holds
    rw [Holds, unused] at empty
    simp [Holds, empty, HistoryEntry.accepted?]
  whole := by
    have none : acceptedBytes history = [] := by
      rw [← tracks.holds.bytes, unused]
      rfl
    rcases tracks.whole with old | empty | stored
    · exact .inl old
    · exact .inr (.inl empty)
    · rw [none] at stored
      exact .inr (.inl stored)
  sane := tracks.sane
  smooth := by
    intro still
    have quiet : Quiet (.write bs) := trivial
    exact (tracks.smooth still).result (.inl quiet)

theorem maintained
    (stores : StoresAtOnce inner object sane storing)
    (initial : Option Bytes) :
    (invariant calm object sane storing initial).Maintained (model inner)
      (Permits calm) where
  start := by
    intro history writer service call idle
    obtain ⟨tracks, opened⟩ := idle
    cases call with
    | write bs =>
        simp only [model, start]
        split
        · exact ⟨tracks.fail (.write bs) _ (fun _ => .inl trivial),
            by simpa [WriteCall.returned, Closed] using opened⟩
        · rename_i unused
          exact ⟨tracks.accept unused bs,
            by simpa [WriteCall.returned, Closed] using opened⟩
    | close =>
        have begun := stores.begins (writer.buffer.getD Buffer.new) tracks.sane
        have same : (model inner).start writer .close =
            (writer, inner.writeOnce (writer.buffer.getD Buffer.new)) := by
          cases known : writer.buffer <;> simp [model, start, known]
        rw [same]
        exact tracks.close opened begun fun _ => stores.starts _
    | abort =>
        have quiet : Quiet .abort := trivial
        apply tracks.finish rfl _ (.inl quiet)
        intro closed
        have unclosed : ¬ Closed (history ++
            [WriteCall.abort.returned (.ok ())]) := by
          simpa [WriteCall.returned, Closed] using opened
        exact absurd closed unclosed
  resume := by
    intro history writer service call future fate permitted waiting
    obtain ⟨rfl, held, tracks, opened⟩ := waiting
    obtain ⟨saneLater, between, reached⟩ :=
      stores.serves fate tracks.sane held
    have served : (model inner).serve service future fate =
        inner.serve service future fate := by
      cases fate <;> rfl
    rw [served]
    apply (tracks.serve between saneLater).close opened reached
    intro still
    cases fate with
    | answered => exact stores.accepts tracks.sane held
    | lost err => exact absurd still permitted
    | refused err => exact absurd still permitted
  drop := by
    intro history writer service call future performed permitted waiting
    obtain ⟨rfl, held, tracks, opened⟩ := waiting
    have still : ¬ Closed (history ++
        [WriteCall.close.returned (.error RequestSession.dropped)]) := by
      simpa [WriteCall.returned, Closed] using opened
    have rough : calm → Quiet .close ∨
        RequestSession.dropped = WriterSession.closedError :=
      fun calm => absurd calm permitted
    cases performed with
    | false => exact ⟨tracks.fail .close _ rough, still⟩
    | true =>
        obtain ⟨saneLater, between, _⟩ :=
          stores.serves (.lost RequestSession.dropped) tracks.sane held
        exact ⟨(tracks.serve between saneLater).fail .close _ rough, still⟩
  closed := fun call finished => finished.closed call

theorem idle_new {initial : S} (saneInitially : sane initial) :
    (invariant calm object sane storing (object initial)).idle [] .new
      initial := by
  refine ⟨⟨rfl, .inl rfl, saneInitially, ?_⟩, ?_⟩
  · simp [NoFailures]
  · simp [Closed]

theorem Tracks.finished
    (tracks : Tracks calm object sane initial history writer service)
    (opened : ¬ Closed history) :
    Finished calm object initial history service where
  single := by
    rw [tracks.holds]
    cases writer.buffer with
    | none => exact Nat.zero_le 1
    | some bs => exact Nat.le_refl 1
  whole := tracks.whole
  stored := fun closed => absurd closed opened
  smooth := tracks.smooth

theorem finished_of_holds {session : RequestSession OneShotWriter F S}
    (holds : (invariant calm object sane storing initial).Holds session) :
    Finished calm object initial session.history session.service := by
  cases holds with
  | idle _ _ _ known => exact known.1.finished known.2
  | waiting _ _ _ known => exact known.2.2.1.finished known.2.2.2
  | ended _ _ _ known => exact known

/-- Over a service that stores a buffer at once, no session shows a part of
what has been written: the object is the initial one, empty, or all of the
accepted bytes, of which there is one buffer at most, and it is all of them
once `close` has returned `Ok`.  In calm weather `close` does not fail. -/
theorem stores_whole (stores : StoresAtOnce inner object sane storing)
    {initial : S} {events : List RequestEvent}
    {session : RequestSession OneShotWriter F S} (saneInitially : sane initial)
    (permitted : ∀ event ∈ events, Permits calm event)
    (ran : run (RequestSession.step (model inner)) (.new .new initial) events =
      some session) :
    session.panicked = false ∧
      Finished calm object (object initial) session.history
        session.service := by
  have holds := (maintained stores (object initial)).run
    (idle_new saneInitially) permitted ran
  exact ⟨holds.sound, finished_of_holds holds⟩

end OneShotWriter

end OpenDal
