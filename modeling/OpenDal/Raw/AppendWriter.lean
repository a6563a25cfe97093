import OpenDal.Raw.RequestWriter

/-!
# `AppendWriter`

The writer asks once for the length of the object and counts from there.  The
services that check the offset of an append (OSS, OBS, COS and Azure Blob)
refuse one that does not fit, so a write is never stored twice: when the
answer to an append is lost, the offset of the writer stays behind the object,
and every later append is refused.
-/

namespace OpenDal

structure AppendWriter where
  offset : Option Nat
deriving DecidableEq, Repr

namespace AppendWriter

open Automaton

/-- A request of the trait `AppendWrite`. -/
inductive Request where
  | offset
  | append (offset size : Nat) (body : Buffer)

/-- Where `write` waits. -/
inductive WriteFuture where
  | offset (bs : Buffer)
  | append (offset : Nat) (bs : Buffer)

def new : AppendWriter :=
  ⟨none⟩

def start (self : AppendWriter) :
    WriteCall → AppendWriter × Progress WriteFuture (Except Error Unit)
  | .write bs =>
      match self.offset with
      | some offset => (self, .suspended (.append offset bs))
      | none => (self, .suspended (.offset bs))
  | .close => (self, .returned (.ok ()))
  | .abort => (self, .returned (.ok ()))

def request : WriteFuture → Request
  | .offset _ => .offset
  | .append offset bs => .append offset bs.len bs

/-- The offset is updated after an append has succeeded. -/
def resume (self : AppendWriter) :
    WriteFuture → Except Error Nat →
      AppendWriter × Progress WriteFuture (Except Error Unit)
  | _, .error err => (self, .returned (.error err))
  | .offset bs, .ok offset =>
      ({ self with offset := some offset }, .suspended (.append offset bs))
  | .append offset bs, .ok _ =>
      ({ self with offset := some (offset + bs.len) }, .returned (.ok ()))

/-! ## The service -/

def positionNotEqual : Error :=
  .new .unexpected "position is not equal to the length of the object"

/-- An appendable object, of which only the content counts.  The answer to an
append carries nothing that is used. -/
def perform (object : Bytes) : Request → Bytes × Except Error Nat
  | .offset => (object, .ok object.length)
  | .append offset _ body =>
      if offset = object.length then
        (object ++ body.bytes, .ok 0)
      else
        (object, .error positionNotEqual)

def model : RequestWriter AppendWriter WriteFuture Bytes Request Nat where
  start := start
  request := request
  perform := perform
  resume := resume

abbrev Session : Type := RequestSession AppendWriter WriteFuture Bytes

/-! ## The invariant -/

/-- What may happen to requests: nothing, they may fail, and their answers may
be lost, too. -/
inductive Weather where
  | calm
  | failing
  | losing
deriving DecidableEq

def Weather.Allows (weather : Weather) : RequestEvent → Prop
  | .call _ | .resume .answered => True
  | .resume (.refused _) | .drop false => weather ≠ .calm
  | .resume (.lost _) | .drop true => weather = .losing

theorem Weather.ne_calm {weather : Weather} (losing : weather = .losing) :
    weather ≠ .calm := by
  simp [losing]

/-- The object is the initial one, then the accepted writes, then `extra`. -/
def Stored (initial : Bytes) (history : List (HistoryEntry Empty))
    (object extra : Bytes) : Prop :=
  object = initial ++ acceptedBytes history ++ extra

/-- `extra` is one write that has failed, and no write has been accepted
since. -/
def Failed (history : List (HistoryEntry Empty)) (extra : Bytes) : Prop :=
  ∃ bs ∈ unaccepted history, extra = bs.bytes

/-- Writes fail after the end of the session only. -/
def NoFailures (history : List (HistoryEntry Empty)) : Prop :=
  ∀ bs err, (bs, .error err) ∈ writeResults history →
    err = WriterSession.closedError

/-- What holds of the object in every phase of a session. -/
structure Explained (weather : Weather) (initial : Bytes)
    (history : List (HistoryEntry Empty)) (object : Bytes) (stale : Prop) :
    Prop where
  stored : ∃ extra, Stored initial history object extra ∧
    (extra = [] ∨ weather = .losing ∧ stale ∧ Failed history extra)
  smooth : weather ≠ .calm ∨ NoFailures history

/-- A writer that knows its offset stands where the accepted writes end. -/
structure Tracks (weather : Weather) (initial : Bytes)
    (history : List (HistoryEntry Empty)) (writer : AppendWriter)
    (object : Bytes) : Prop where
  counts : ∀ offset, writer.offset = some offset →
    offset = (initial ++ acceptedBytes history).length
  explained : Explained weather initial history object
    (writer.offset.isSome = true)

def Waits (weather : Weather) (initial : Bytes)
    (history : List (HistoryEntry Empty)) (writer : AppendWriter)
    (object : Bytes) (call : WriteCall) : WriteFuture → Prop
  | .offset bs => call = .write bs ∧ writer.offset = none ∧
      Tracks weather initial history writer object
  | .append offset bs => call = .write bs ∧ writer.offset = some offset ∧
      Tracks weather initial history writer object

def invariant (weather : Weather) (initial : Bytes) :
    RequestInvariant AppendWriter WriteFuture Bytes where
  idle := Tracks weather initial
  waiting := Waits weather initial
  ended := fun history object =>
    Explained weather initial history object True

section Steps

variable {weather : Weather} {initial object : Bytes}
  {history : List (HistoryEntry Empty)} {writer : AppendWriter} {stale : Prop}

theorem Explained.mono {other : Prop}
    (explained : Explained weather initial history object stale)
    (implies : stale → other) :
    Explained weather initial history object other := by
  obtain ⟨⟨extra, stored, kind⟩, smooth⟩ := explained
  refine ⟨⟨extra, stored, ?_⟩, smooth⟩
  rcases kind with empty | ⟨loses, known, failed⟩
  · exact .inl empty
  · exact .inr ⟨loses, implies known, failed⟩

theorem Explained.final
    (explained : Explained weather initial history object stale)
    {call : WriteCall} (final : call.isFinal = true)
    (result : Except Error Unit) :
    Explained weather initial (history ++ [call.returned result]) object
      stale := by
  obtain ⟨⟨extra, stored, kind⟩, smooth⟩ := explained
  refine ⟨⟨extra, ?_, ?_⟩, ?_⟩
  · rw [Stored, acceptedBytes_final final]
    exact stored
  · simpa only [Failed, unaccepted_final final] using kind
  · simpa only [NoFailures, writeResults_final final] using smooth

/-- A write that fails leaves the object alone, unless its append is stored
nevertheless. -/
theorem Explained.fail
    (explained : Explained weather initial history object stale)
    {bs : Buffer} {err : Error}
    (permitted : weather ≠ .calm ∨ err = WriterSession.closedError) :
    Explained weather initial (history ++ [.wrote bs (.error err)]) object
      stale := by
  have results : writeResults [(.wrote bs (.error err) :
      HistoryEntry Empty)] = [(bs, .error err)] := rfl
  obtain ⟨⟨extra, stored, kind⟩, smooth⟩ := explained
  refine ⟨⟨extra, ?_, ?_⟩, ?_⟩
  · have same : acceptedBytes (history ++ [.wrote bs (.error err)]) =
        acceptedBytes history := acceptedBytes_error (.write bs) err
    rw [Stored, same]
    exact stored
  · rcases kind with empty | ⟨loses, known, other, member, same⟩
    · exact .inl empty
    · refine .inr ⟨loses, known, other, ?_, same⟩
      rw [unaccepted_error]
      exact List.mem_cons_of_mem bs member
  · rcases permitted with fails | closed
    · exact .inl fails
    · rcases smooth with fails | none
      · exact .inl fails
      · apply Or.inr
        intro other cause member
        rw [writeResults_append, results] at member
        rcases List.mem_append.mp member with earlier | last
        · exact none other cause earlier
        · cases List.mem_singleton.mp last
          exact closed

theorem Tracks.fail (tracks : Tracks weather initial history writer object)
    {bs : Buffer} {err : Error} (permitted : weather ≠ .calm) :
    Tracks weather initial (history ++ [.wrote bs (.error err)]) writer
      object where
  counts := by
    have same : acceptedBytes (history ++ [.wrote bs (.error err)]) =
        acceptedBytes history := acceptedBytes_error (.write bs) err
    rw [same]
    exact tracks.counts
  explained := tracks.explained.fail (.inl permitted)

/-- Where the offset fits, nothing is stored behind the accepted writes. -/
theorem Tracks.stored_of_fits
    (tracks : Tracks weather initial history writer object)
    (known : writer.offset = some object.length) :
    object = initial ++ acceptedBytes history := by
  have fits := tracks.counts _ known
  obtain ⟨extra, stored, _⟩ := tracks.explained.stored
  rw [Stored] at stored
  have none : extra = [] := by
    have total := congrArg List.length stored
    rw [List.length_append] at total
    rw [← List.length_eq_zero_iff]
    omega
  simpa [none] using stored

theorem Tracks.losing_of_misfit {offset : Nat}
    (tracks : Tracks weather initial history writer object)
    (known : writer.offset = some offset) (misfit : offset ≠ object.length) :
    weather = .losing := by
  have counted := tracks.counts offset known
  obtain ⟨extra, stored, none | ⟨losing, _, _⟩⟩ := tracks.explained.stored
  · rw [Stored, none, List.append_nil] at stored
    rw [← stored] at counted
    exact absurd counted misfit
  · exact losing

theorem Tracks.append
    (tracks : Tracks weather initial history writer object)
    (known : writer.offset = some object.length) (bs : Buffer) :
    Tracks weather initial (history ++ [.wrote bs (.ok ())])
      { writer with offset := some (object.length + bs.len) }
      (object ++ bs.bytes) where
  counts := by
    have stored := tracks.stored_of_fits known
    rintro offset ⟨⟩
    rw [acceptedBytes_wrote, ← List.append_assoc, ← stored,
      List.length_append, Buffer.length_bytes]
  explained := by
    have stored := tracks.stored_of_fits known
    refine ⟨⟨[], ?_, .inl rfl⟩, ?_⟩
    · rw [Stored, acceptedBytes_wrote, stored]
      simp
    · rcases tracks.explained.smooth with rough | none
      · exact .inl rough
      · apply Or.inr
        intro other err member
        have results : writeResults [(.wrote bs (.ok ()) :
            HistoryEntry Empty)] = [(bs, .ok ())] := rfl
        rw [writeResults_append, results] at member
        rcases List.mem_append.mp member with earlier | last
        · exact none other err earlier
        · cases List.mem_singleton.mp last

theorem Tracks.lose (tracks : Tracks weather initial history writer object)
    (known : writer.offset = some object.length) (losing : weather = .losing)
    (bs : Buffer) (err : Error) :
    Tracks weather initial (history ++ [.wrote bs (.error err)]) writer
      (object ++ bs.bytes) where
  counts := (tracks.fail (Weather.ne_calm losing)).counts
  explained := by
    have stored := tracks.stored_of_fits known
    have same : acceptedBytes (history ++ [.wrote bs (.error err)]) =
        acceptedBytes history := acceptedBytes_error (.write bs) err
    refine ⟨⟨bs.bytes, ?_, .inr ⟨losing, by simp [known], bs, ?_, rfl⟩⟩,
      .inl (Weather.ne_calm losing)⟩
    · rw [Stored, same, ← stored]
    · simp

/-- What the service makes of an append whose answer does not arrive. -/
theorem Tracks.unanswered {offset : Nat}
    (tracks : Tracks weather initial history writer object)
    (known : writer.offset = some offset) (losing : weather = .losing)
    (bs : Buffer) (err : Error) :
    Tracks weather initial (history ++ [.wrote bs (.error err)]) writer
      (perform object (.append offset bs.len bs)).1 := by
  simp only [perform]
  split
  · rename_i fits
    subst fits
    exact tracks.lose known losing bs err
  · exact tracks.fail (Weather.ne_calm losing)

end Steps

theorem maintained (weather : Weather) (initial : Bytes) :
    (invariant weather initial).Maintained model weather.Allows where
  start := by
    intro history writer object call tracks
    cases call with
    | write bs =>
        simp only [model, start]
        split
        · rename_i offset known
          exact ⟨rfl, known, tracks⟩
        · rename_i unknown
          exact ⟨rfl, unknown, tracks⟩
    | close => exact (tracks.explained.final rfl _).mono fun _ => trivial
    | abort => exact (tracks.explained.final rfl _).mono fun _ => trivial
  resume := by
    intro history writer object call future fate permitted waits
    cases future with
    | offset bs =>
        obtain ⟨rfl, unknown, tracks⟩ := waits
        cases fate with
        | answered =>
            have empty : object = initial ++ acceptedBytes history := by
              obtain ⟨extra, stored, none | ⟨_, known, _⟩⟩ :=
                tracks.explained.stored
              · simpa [Stored, none] using stored
              · simp [unknown] at known
            refine ⟨rfl, rfl, ?_, tracks.explained.mono fun _ => rfl⟩
            rintro offset ⟨⟩
            rw [empty]
        | lost err => exact tracks.fail (Weather.ne_calm permitted)
        | refused err => exact tracks.fail permitted
    | append offset bs =>
        obtain ⟨rfl, known, tracks⟩ := waits
        cases fate with
        | answered =>
            simp only [RequestWriter.serve, model, request, perform]
            split
            · rename_i fits
              subst fits
              exact tracks.append known bs
            · rename_i misfit
              have losing := tracks.losing_of_misfit known misfit
              exact tracks.fail (Weather.ne_calm losing)
        | lost err => exact tracks.unanswered known permitted bs err
        | refused err => exact tracks.fail permitted
  drop := by
    intro history writer object call future performed permitted waits
    cases future with
    | offset bs =>
        obtain ⟨rfl, _, tracks⟩ := waits
        cases performed with
        | true => exact tracks.fail (Weather.ne_calm permitted)
        | false => exact tracks.fail permitted
    | append offset bs =>
        obtain ⟨rfl, known, tracks⟩ := waits
        cases performed with
        | true => exact tracks.unanswered known permitted bs _
        | false => exact tracks.fail permitted
  closed := by
    intro history object call explained
    cases call with
    | write bs => exact explained.fail (.inr rfl)
    | close => exact explained.final rfl _
    | abort => exact explained.final rfl _

theorem explained_of_holds {weather : Weather} {initial : Bytes}
    {session : Session} (holds : (invariant weather initial).Holds session) :
    Explained weather initial session.history session.service True := by
  cases holds with
  | idle _ _ _ tracks => exact tracks.explained.mono fun _ => trivial
  | waiting _ _ _ waits =>
      rename_i call future _ _ _
      cases future with
      | offset bs => exact waits.2.2.explained.mono fun _ => trivial
      | append offset bs => exact waits.2.2.explained.mono fun _ => trivial
  | ended _ _ _ explained => exact explained

theorem tracks_new (weather : Weather) (initial : Bytes) :
    Tracks weather initial [] .new initial where
  counts := by simp [new]
  explained := ⟨⟨[], by simp [Stored], .inl rfl⟩,
    .inr (by simp [NoFailures, writeResults])⟩

/-- Whatever the caller does, whatever fails and wherever futures are dropped,
the object is the initial one, followed by the accepted writes in order, each
once.  Behind them there is at most one write more: one that has failed, and
after which no write is accepted.  There is none if no answer has been lost,
and in calm weather no write fails before the end of the session. -/
theorem appends_once {weather : Weather} {initial : Bytes}
    {events : List RequestEvent} {session : Session}
    (allowed : ∀ event ∈ events, weather.Allows event)
    (ran : run (RequestSession.step model) (.new .new initial) events =
      some session) :
    session.panicked = false ∧
      (∃ extra, Stored initial session.history session.service extra ∧
        (extra = [] ∨ weather = .losing ∧ Failed session.history extra)) ∧
      (weather = .calm → NoFailures session.history) := by
  have holds := (maintained weather initial).run
    (tracks_new weather initial) allowed ran
  have explained := explained_of_holds holds
  obtain ⟨⟨extra, stored, kind⟩, smooth⟩ := explained
  refine ⟨holds.sound, ⟨extra, stored, ?_⟩, ?_⟩
  · rcases kind with empty | ⟨losing, _, failed⟩
    · exact .inl empty
    · exact .inr ⟨losing, failed⟩
  · intro calm
    rcases smooth with rough | none
    · exact absurd calm rough
    · exact none

/-- The answer to the second append is lost, and the write is refused when it
is issued again. -/
def lostAppend : List RequestEvent :=
  [.call (.write (.fromBytes [1, 2])), .resume .answered, .resume .answered,
    .call (.write (.fromBytes [3])), .resume (.lost RequestSession.dropped),
    .call (.write (.fromBytes [3])), .resume .answered, .call .close]

theorem appends_once_lost :
    ∃ session : Session,
      run (RequestSession.step model) (.new .new [0]) lostAppend =
          some session ∧
        session.service = [0, 1, 2, 3] ∧
        ∃ extra, Stored [0] session.history session.service extra ∧
          (extra = [] ∨ Weather.losing = .losing ∧
            Failed session.history extra) := by
  refine ⟨_, rfl, rfl, ?_⟩
  have allowed : ∀ event ∈ lostAppend, Weather.losing.Allows event := by
    simp [lostAppend, Weather.Allows]
  exact (appends_once allowed rfl).2.1

end AppendWriter

end OpenDal
