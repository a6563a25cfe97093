import OpenDal.Raw.OneShotWriter

/-!
# The writer of OneDrive

A small buffer is stored by one request.  A large one goes through an upload
session: the service takes the fragments one behind the other, checks the
`Content-Range` of each, and replaces the file with the last of them.  A
failed `write_once` leaves its session behind and the next one opens another,
so a file is never made of two attempts.
-/

namespace OpenDal

/-- An upload session of the service, outside of the repository. -/
structure UploadSession where
  received : Bytes
  /-- The length of the file, known from the first fragment on. -/
  total : Option Nat
  open_ : Bool

structure OneDrive where
  file : Option Bytes
  /-- The upload URL of a session is its place. -/
  sessions : List UploadSession

namespace OneDriveWriter

def maxSimpleSize : Nat := 4 * 1024 * 1024

def chunkSizeFactor : Nat := 327680

inductive Request where
  | uploadSimple (size : Nat) (body : Buffer)
  | createUploadSession
  | chunkedUpload (url offset chunkEnd totalLen : Nat) (body : Bytes)

/-- Where `write_once` waits.  A fragment in flight is the front of the bytes
that are left. -/
inductive WriteFuture where
  | simple (bs : Buffer)
  | session (totalBytes : Bytes)
  | chunk (url offset : Nat) (left : Bytes) (totalLen : Nat)

def writeOnce (bs : Buffer) : Progress WriteFuture (Except Error Unit) :=
  if bs.len ≤ maxSimpleSize then
    .suspended (.simple bs)
  else
    .suspended (.session bs.bytes)

/-- The last byte of the fragment at `offset`. -/
def chunkEnd (offset totalLen : Nat) : Nat :=
  (if totalLen < offset + chunkSizeFactor then
    totalLen
  else
    offset + chunkSizeFactor) - 1

def request : WriteFuture → Request
  | .simple bs => .uploadSimple bs.len bs
  | .session _ => .createUploadSession
  | .chunk url offset left totalLen =>
      .chunkedUpload url offset (chunkEnd offset totalLen) totalLen
        (left.take chunkSizeFactor)

/-- The head of the loop over the fragments. -/
def nextChunk (url offset : Nat) (left : Bytes) (totalLen : Nat) :
    Progress WriteFuture (Except Error Unit) :=
  match left with
  | [] => .returned (.ok ())
  | _ :: _ => .suspended (.chunk url offset left totalLen)

def resume :
    WriteFuture → Except Error Nat → Progress WriteFuture (Except Error Unit)
  | _, .error err => .returned (.error err)
  | .simple _, .ok _ => .returned (.ok ())
  | .session totalBytes, .ok url =>
      nextChunk url 0 totalBytes totalBytes.length
  | .chunk url offset left totalLen, .ok _ =>
      nextChunk url (offset + chunkSizeFactor) (left.drop chunkSizeFactor)
        totalLen

theorem nextChunk_of_ne_nil {left : Bytes} (nonempty : left ≠ [])
    (url offset totalLen : Nat) :
    nextChunk url offset left totalLen =
      .suspended (.chunk url offset left totalLen) := by
  cases left with
  | nil => exact absurd rfl nonempty
  | cons byte left => rfl

/-! ## The service -/

def invalidRange : Error :=
  .new .unexpected "invalidRange"

/-- The fragment is the next one, it is as long as its `Content-Range` says,
and only the last one may have an odd length. -/
def UploadSession.takes (session : UploadSession)
    (offset chunkEnd totalLen : Nat) (body : Bytes) : Bool :=
  session.open_ && offset == session.received.length &&
    body.length + offset == chunkEnd + 1 && !body.isEmpty &&
    chunkEnd < totalLen && session.total.all (· == totalLen) &&
    (chunkEnd + 1 == totalLen || body.length % chunkSizeFactor == 0)

/-- The answer to `createUploadSession` is the URL of the session; the other
answers carry nothing that is used. -/
def perform (drive : OneDrive) : Request → OneDrive × Except Error Nat
  | .uploadSimple _ body => ({ drive with file := some body.bytes }, .ok 0)
  | .createUploadSession =>
      ({ drive with sessions := drive.sessions ++ [⟨[], none, true⟩] },
        .ok drive.sessions.length)
  | .chunkedUpload url offset chunkEnd totalLen body =>
      match drive.sessions[url]? with
      | none => (drive, .error invalidRange)
      | some session =>
          if UploadSession.takes session offset chunkEnd totalLen body then
            let received := session.received ++ body
            let isLast := decide (chunkEnd + 1 = totalLen)
            let sessions := drive.sessions.set url
              ⟨received, some totalLen, !isLast⟩
            let file := if isLast then some received else drive.file
            ({ file, sessions }, .ok 0)
          else
            (drive, .error invalidRange)

def model : OneShotWrite WriteFuture OneDrive Request Nat where
  writeOnce := writeOnce
  request := request
  perform := perform
  resume := resume

/-! ## One fragment -/

/-- The session has received what is in front of the fragment in flight. -/
structure Uploads (bytes : Bytes) (url offset : Nat) (left : Bytes)
    (totalLen : Nat) (drive : OneDrive) : Prop where
  behind : bytes.drop offset = left
  unfinished : offset < bytes.length
  measured : totalLen = bytes.length
  aligned : chunkSizeFactor ∣ offset
  received : ∃ session, drive.sessions[url]? = some session ∧
    session.received = bytes.take offset ∧ session.open_ = true ∧
    session.total.all (· == totalLen) = true

def Storing (bs : Buffer) : WriteFuture → OneDrive → Prop
  | .simple found, _ => found = bs
  | .session totalBytes, _ => totalBytes = bs.bytes ∧ totalBytes ≠ []
  | .chunk url offset left totalLen, drive =>
      Uploads bs.bytes url offset left totalLen drive

variable {bytes left : Bytes} {url offset totalLen : Nat} {drive : OneDrive}

theorem chunkSizeFactor_pos : 0 < chunkSizeFactor := by
  decide

theorem length_chunk
    (uploads : Uploads bytes url offset left totalLen drive) :
    (left.take chunkSizeFactor).length + offset =
        chunkEnd offset totalLen + 1 ∧
      chunkEnd offset totalLen < totalLen ∧
      (chunkEnd offset totalLen + 1 = totalLen ∨
        chunkEnd offset totalLen + 1 = offset + chunkSizeFactor) := by
  have remaining : left.length = bytes.length - offset := by
    rw [← uploads.behind, List.length_drop]
  have within := uploads.unfinished
  have total := uploads.measured
  have positive := chunkSizeFactor_pos
  rw [List.length_take, chunkEnd]
  split <;> omega

theorem takes_chunk {session : UploadSession}
    (uploads : Uploads bytes url offset left totalLen drive)
    (found : drive.sessions[url]? = some session) :
    UploadSession.takes session offset (chunkEnd offset totalLen) totalLen
      (left.take chunkSizeFactor) = true := by
  obtain ⟨other, same, received, isOpen, total⟩ := uploads.received
  cases found.symm.trans same
  obtain ⟨length, within, kind⟩ := length_chunk uploads
  have unfinished := uploads.unfinished
  have start : offset = session.received.length := by
    rw [received, List.length_take]
    omega
  have filled : (left.take chunkSizeFactor).isEmpty = false := by
    rw [List.isEmpty_eq_false_iff, ← List.length_pos_iff]
    rcases kind with last | full
    · have total := uploads.measured
      omega
    · have positive := chunkSizeFactor_pos
      omega
  have even : chunkEnd offset totalLen + 1 = totalLen ∨
      (left.take chunkSizeFactor).length % chunkSizeFactor = 0 := by
    rcases kind with last | full
    · exact .inl last
    · apply Or.inr
      have whole : (left.take chunkSizeFactor).length = chunkSizeFactor := by
        omega
      rw [whole, Nat.mod_self]
  simp only [UploadSession.takes, isOpen, ← start, length, filled, within,
    total, beq_self_eq_true, Bool.not_false,
    decide_true, Bool.true_and, Bool.or_eq_true, beq_iff_eq]
  simpa using even

/-- What a fragment does to the service: its session grows, and the last one
replaces the file. -/
theorem perform_chunk
    (uploads : Uploads bytes url offset left totalLen drive) :
    ∃ sessions,
      perform drive (request (.chunk url offset left totalLen)) =
        (⟨if chunkEnd offset totalLen + 1 = totalLen then some bytes
          else drive.file, sessions⟩, .ok 0) ∧
      (chunkEnd offset totalLen + 1 ≠ totalLen →
        sessions[url]? = some ⟨bytes.take (offset + chunkSizeFactor),
          some totalLen, true⟩) := by
  obtain ⟨session, found, received, isOpen, total⟩ := uploads.received
  have takes := takes_chunk uploads found
  obtain ⟨length, within, kind⟩ := length_chunk uploads
  have grown : session.received ++ left.take chunkSizeFactor =
      bytes.take (offset + chunkSizeFactor) := by
    rw [received, ← uploads.behind, List.take_add]
  refine ⟨drive.sessions.set url ⟨bytes.take (offset + chunkSizeFactor),
    some totalLen, !decide (chunkEnd offset totalLen + 1 = totalLen)⟩, ?_, ?_⟩
  · simp only [perform, request, found, takes, if_true, grown,
      decide_eq_true_eq]
    split
    · rename_i last
      have all : bytes.take (offset + chunkSizeFactor) = bytes := by
        apply List.take_of_length_le
        have measured := uploads.measured
        have fits := List.length_take_le chunkSizeFactor left
        omega
      rw [all]
    · rfl
  · intro going
    have isIndex := (List.getElem?_eq_some_iff.mp found).1
    rw [List.getElem?_set_self isIndex]
    simp [going]

open OneShotWrite (Between Reached)

/-- The upload goes on behind the fragment, or it is complete. -/
theorem Uploads.answered {bs : Buffer}
    (uploads : Uploads bs.bytes url offset left totalLen drive) :
    let served := perform drive (request (.chunk url offset left totalLen))
    Between OneDrive.file bs drive served.1 ∧
      Reached OneDrive.file Storing bs served.1
        (resume (.chunk url offset left totalLen) served.2) ∧
      ∀ err, resume (.chunk url offset left totalLen) served.2 ≠
        .returned (.error err) := by
  obtain ⟨sessions, performed, goes⟩ := perform_chunk uploads
  obtain ⟨length, within, kind⟩ := length_chunk uploads
  have measured := uploads.measured
  have rest : left.drop chunkSizeFactor =
      bs.bytes.drop (offset + chunkSizeFactor) := by
    rw [← uploads.behind, List.drop_drop]
  have fits := List.length_take_le chunkSizeFactor left
  rw [performed]
  simp only [resume]
  by_cases past : bs.bytes.length ≤ offset + chunkSizeFactor
  · have last : chunkEnd offset totalLen + 1 = totalLen := by
      rw [chunkEnd]
      split <;> omega
    have finished : left.drop chunkSizeFactor = [] := by
      rw [rest, List.drop_eq_nil_iff]
      exact past
    rw [finished, if_pos last]
    exact ⟨.inr rfl, rfl, by simp [nextChunk]⟩
  · have going : chunkEnd offset totalLen + 1 ≠ totalLen := by
      rw [chunkEnd]
      split <;> omega
    have unfinished : left.drop chunkSizeFactor ≠ [] := by
      rw [rest, ne_eq, List.drop_eq_nil_iff]
      exact past
    rw [nextChunk_of_ne_nil unfinished, if_neg going]
    have uploading : Uploads bs.bytes url (offset + chunkSizeFactor)
        (left.drop chunkSizeFactor) totalLen ⟨drive.file, sessions⟩ :=
      { behind := rest.symm
        unfinished := Nat.lt_of_not_le past
        measured := measured
        aligned := Nat.dvd_add uploads.aligned (Nat.dvd_refl _)
        received := ⟨_, goes going, rfl, rfl, by simp⟩ }
    exact ⟨.inl rfl, uploading, by simp⟩

/-! ## `write_once` -/

/-- A session that has just been opened for a large buffer. -/
theorem uploads_opened (drive : OneDrive) (nonempty : bytes ≠ []) :
    Uploads bytes drive.sessions.length 0 bytes bytes.length
      ⟨drive.file, drive.sessions ++ [⟨[], none, true⟩]⟩ where
  behind := List.drop_zero
  unfinished := List.length_pos_iff.mpr nonempty
  measured := rfl
  aligned := Nat.dvd_zero _
  received := ⟨_, List.getElem?_concat_length, by simp, rfl, rfl⟩

theorem storing_answered {bs : Buffer} {future : WriteFuture}
    (storing : Storing bs future drive) :
    let served := perform drive (request future)
    Between OneDrive.file bs drive served.1 ∧
      Reached OneDrive.file Storing bs served.1
        (resume future served.2) ∧
      ∀ err, resume future served.2 ≠ .returned (.error err) := by
  cases future with
  | simple found =>
      cases storing
      exact ⟨.inr rfl, rfl, by simp [resume, perform, request]⟩
  | session totalBytes =>
      obtain ⟨rfl, nonempty⟩ := storing
      simp only [perform, request, resume, nextChunk_of_ne_nil nonempty]
      exact ⟨.inl rfl, uploads_opened drive nonempty, by simp⟩
  | chunk url offset left totalLen => exact Uploads.answered storing

theorem storesAtOnce :
    model.StoresAtOnce OneDrive.file (fun _ => True) Storing where
  begins := by
    intro drive bs _
    simp only [model, writeOnce]
    split
    · rfl
    · rename_i large
      refine ⟨rfl, ?_⟩
      intro empty
      have none : bs.len = 0 := by
        rw [← Buffer.length_bytes, empty, List.length_nil]
      omega
  serves := by
    intro drive bs future fate _ storing
    obtain ⟨between, reached, _⟩ := storing_answered storing
    refine ⟨trivial, ?_⟩
    cases fate with
    | answered => exact ⟨between, reached⟩
    | lost err => cases future <;> exact ⟨between, trivial⟩
    | refused err => cases future <;> exact ⟨.inl rfl, trivial⟩
  accepts := fun _ storing => (storing_answered storing).2.2
  starts := by
    intro bs err
    simp only [model, writeOnce]
    split <;> simp

/-! ## Uploads that are not disturbed -/

/-- A `close` that waits for an answer. -/
def closingSession (history : List (HistoryEntry Empty))
    (writer : OneShotWriter) (service : OneDrive) (future : WriteFuture) :
    RequestSession OneShotWriter WriteFuture OneDrive :=
  { writer := ⟨some writer⟩
    service
    call := some (.close, future)
    history
    panicked := false }

theorem run_fragments {bs : Buffer} (history : List (HistoryEntry Empty))
    (writer : OneShotWriter) (count : Nat)
    (uploads : Uploads bs.bytes url offset left totalLen drive)
    (remaining : left.length ≤ count * chunkSizeFactor) :
    ∃ events later, (∀ event ∈ events, event = .resume .answered) ∧
      Automaton.run (RequestSession.step (OneShotWriter.model model))
        (closingSession history writer drive
          (.chunk url offset left totalLen)) events = some later ∧
      later.history = history ++ [.closed (.ok ())] ∧
      later.service.file = some bs.bytes := by
  induction count generalizing drive offset left with
  | zero =>
      have within := uploads.unfinished
      have length : left.length = bs.bytes.length - offset := by
        rw [← uploads.behind, List.length_drop]
      omega
  | succ count induction =>
      obtain ⟨-, reached, -⟩ := Uploads.answered uploads
      obtain ⟨sessions, performed, -⟩ := perform_chunk uploads
      have stepped : (closingSession history writer drive
          (.chunk url offset left totalLen)).step (OneShotWriter.model model)
          (.resume .answered) = some (RequestSession.after
            { closingSession history writer drive
                (.chunk url offset left totalLen) with
              service := (perform drive
                (request (.chunk url offset left totalLen))).1 } .close
            (writer, resume (.chunk url offset left totalLen) (perform drive
              (request (.chunk url offset left totalLen))).2)) := rfl
      rw [performed] at stepped reached
      simp only [resume] at stepped reached
      cases rest : left.drop chunkSizeFactor with
      | nil =>
          rw [rest, nextChunk] at stepped reached
          have ran := Automaton.run_cons_eq_some_iff.mpr
            ⟨_, stepped, Automaton.run_nil _ _⟩
          exact ⟨[.resume .answered], _, by simp, ran, rfl, reached⟩
      | cons byte others =>
          have unfinished : byte :: others ≠ [] := by simp
          rw [rest, nextChunk_of_ne_nil unfinished] at stepped reached
          have fewer : (byte :: others).length ≤ count * chunkSizeFactor := by
            rw [← rest, List.length_drop]
            rw [Nat.succ_mul] at remaining
            omega
          obtain ⟨events, later, answered, ran, ended, file⟩ :=
            induction reached fewer
          refine ⟨.resume .answered :: events, later, ?_, ?_, ended, file⟩
          · simpa using answered
          · exact Automaton.run_cons_eq_some_iff.mpr ⟨_, stepped, ran⟩

/-- A large buffer goes through an upload session, and it is stored when all
requests are answered. -/
theorem run_large {bs : Buffer} (large : maxSimpleSize < bs.len)
    (initial : OneDrive) :
    ∃ events session, (∀ event ∈ events, event = .resume .answered) ∧
      Automaton.run (RequestSession.step (OneShotWriter.model model))
        (.new .new initial)
          (.call (.write bs) :: .call .close :: .resume .answered :: events) =
            some session ∧
      session.history = [.wrote bs (.ok ()), .closed (.ok ())] ∧
      session.service.file = some bs.bytes := by
  have nonempty : bs.bytes ≠ [] := by
    intro empty
    rw [← Buffer.length_bytes, empty, List.length_nil] at large
    omega
  have positive := chunkSizeFactor_pos
  obtain ⟨events, session, answered, ran, history, file⟩ :=
    run_fragments [.wrote bs (.ok ())] ⟨some bs⟩ bs.bytes.length
      (uploads_opened initial nonempty) (Nat.le_mul_of_pos_right _ positive)
  have begins : writeOnce bs = .suspended (.session bs.bytes) := by
    rw [writeOnce, if_neg (Nat.not_le.mpr large)]
  have called : (RequestSession.step (OneShotWriter.model model)
      { closingSession [.wrote bs (.ok ())] ⟨some bs⟩ initial
          (.session bs.bytes) with call := none } (.call .close)) =
      some (closingSession [.wrote bs (.ok ())] ⟨some bs⟩ initial
        (.session bs.bytes)) := by
    show some (RequestSession.after _ .close
      ((⟨some bs⟩ : OneShotWriter), writeOnce bs)) = _
    rw [begins]
    rfl
  have opened : (closingSession [.wrote bs (.ok ())] ⟨some bs⟩ initial
      (.session bs.bytes)).step (OneShotWriter.model model)
      (.resume .answered) = some (closingSession [.wrote bs (.ok ())]
        ⟨some bs⟩ ⟨initial.file, initial.sessions ++ [⟨[], none, true⟩]⟩
        (.chunk initial.sessions.length 0 bs.bytes bs.bytes.length)) := by
    simp only [RequestSession.step, OneShotWriter.model, RequestWriter.serve,
      model, closingSession, request, perform, resume,
      nextChunk_of_ne_nil nonempty]
    rfl
  refine ⟨events, session, answered, ?_, history, file⟩
  rw [Automaton.run_cons_eq_some_iff]
  refine ⟨_, rfl, ?_⟩
  rw [Automaton.run_cons_eq_some_iff]
  refine ⟨_, called, ?_⟩
  rw [Automaton.run_cons_eq_some_iff]
  exact ⟨_, opened, ran⟩

/-- Whatever the caller does, whatever fails and wherever futures are dropped:
the file is the old one, empty, or all of the accepted bytes, and it is all of
them once `close` has returned `Ok`.  It never has a part of them, although
they are sent in fragments.  When all requests are answered, no fragment is
turned down and `close` does not fail. -/
theorem writes_whole {calm : Prop} {initial : OneDrive}
    {events : List RequestEvent}
    {session : RequestSession OneShotWriter WriteFuture OneDrive}
    (permitted : ∀ event ∈ events, OneShotWriter.Permits calm event)
    (ran : Automaton.run (RequestSession.step (OneShotWriter.model model))
      (.new .new initial) events = some session) :
    session.panicked = false ∧
      OneShotWriter.Finished calm OneDrive.file initial.file session.history
        session.service :=
  OneShotWriter.stores_whole storesAtOnce trivial permitted ran

/-- The answer to the first upload is lost, and `close` is called again. -/
def lostUpload : List RequestEvent :=
  [.call (.write (.fromBytes [1, 2])), .call .close,
    .resume (.lost RequestSession.dropped), .call .close, .resume .answered]

/-- A body of one byte too many for a simple upload. -/
def largeBody : Buffer :=
  .fromBytes (List.replicate (maxSimpleSize + 1) 7)

theorem large_largeBody : maxSimpleSize < largeBody.len := by
  have length : largeBody.len = maxSimpleSize + 1 := by
    exact List.length_replicate
  omega

/-- A simple upload whose answer is lost, and an upload in fragments. -/
theorem writes_whole_lost :
    (∃ session,
      Automaton.run (RequestSession.step (OneShotWriter.model model))
          (.new .new ⟨some [0], []⟩) lostUpload = some session ∧
        session.service.file = some [1, 2] ∧
        OneShotWriter.Finished False OneDrive.file (some [0])
          session.history session.service) ∧
    ∃ events session,
      Automaton.run (RequestSession.step (OneShotWriter.model model))
          (.new .new ⟨some [0], []⟩) events = some session ∧
        .closed (.ok ()) ∈ session.history ∧
        session.service.file = some largeBody.bytes ∧
        OneShotWriter.Finished True OneDrive.file (some [0])
          session.history session.service := by
  constructor
  · obtain ⟨session, ran, stored⟩ : ∃ session,
        Automaton.run (RequestSession.step (OneShotWriter.model model))
            (.new .new ⟨some [0], []⟩) lostUpload = some session ∧
          session.service.file = some [1, 2] :=
      ⟨_, rfl, rfl⟩
    have permitted : ∀ event ∈ lostUpload,
        OneShotWriter.Permits False event := by
      simp [lostUpload, OneShotWriter.Permits]
    exact ⟨session, ran, stored, (writes_whole permitted ran).2⟩
  · obtain ⟨events, session, answered, ran, history, file⟩ :=
      run_large large_largeBody ⟨some [0], []⟩
    have permitted : ∀ event ∈ .call (.write largeBody) :: .call .close ::
        .resume .answered :: events, OneShotWriter.Permits True event := by
      intro event member
      simp only [List.mem_cons] at member
      rcases member with rfl | rfl | rfl | later
      · trivial
      · trivial
      · trivial
      · rw [answered event later]
        trivial
    have closed : .closed (.ok ()) ∈ session.history := by simp [history]
    exact ⟨_, session, ran, closed, file, (writes_whole permitted ran).2⟩

end OneDriveWriter

end OpenDal
