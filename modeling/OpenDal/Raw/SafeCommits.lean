import OpenDal.Raw.MultipartSession
import OpenDal.Raw.BlockSession
import OpenDal.Raw.PositionSession

/-!
# Commits of the three writers

Whatever the caller does and whatever fails, there is one commit at most, and
the service is left alone after the end of the session.  A commit is complete
as long as no failed `abort` has dropped anything that nobody misses, and, for
a position writer, as long as nothing is written after a `close` that has
written the last buffer and failed.
-/

namespace OpenDal

open Automaton

/-- The three writers, behind `CompleteWriter`. -/
theorem writers_commit_safely {U : Type} [ToString U] (uuid : Nat → U)
    (capacity : Nat) :
    CommitsSafely MultipartSession.model MultipartSession.spec
        MultipartSession.condition (.new capacity) ∧
      CommitsSafely (BlockSession.model uuid) (BlockSession.spec uuid)
        BlockSession.condition (BlockSession.new capacity) ∧
      CommitsSafely PositionSession.model PositionSession.spec
        PositionSession.condition (.new capacity) :=
  ⟨MultipartSession.safely capacity, BlockSession.safely uuid capacity,
    PositionSession.safely capacity⟩

namespace SafeCommits

def first : Buffer := .fromBytes [1, 2, 3]

def second : Buffer := .fromBytes [4]

def unavailable : Error :=
  (Error.new .unexpected "service unavailable").setTemporary

/-- A part fails and is written again, and so is the upload. -/
def retriedEvents : List (SessionEvent MultipartSession.Event) :=
  [.call (.write first), .resume .poll,
    .call (.write second), .resume .poll, .resume (.initiated (.ok "upload")),
    .resume .poll,
    .resume (.finishAwaited (.answered (.error unavailable))), .resume .poll,
    .call .close, .resume .poll, .resume .poll,
    .resume (.finishAwaited (.answered (.ok ⟨0, "etag", none⟩))),
    .resume .poll, .resume .poll, .resume .poll,
    .resume (.completed (.error unavailable)),
    .call .close, .resume .poll, .resume .poll, .resume (.completed (.ok ()))]

/-- The first part fails, `abort` fails, and `close` completes an upload
without parts. -/
def multipartEvents : List (SessionEvent MultipartSession.Event) :=
  [.call (.write first), .resume .poll,
    .call (.write second), .resume .poll, .resume (.initiated (.ok "upload")),
    .resume .poll,
    .resume (.finishAwaited (.answered (.error unavailable))), .resume .poll,
    .call .abort, .resume .poll, .resume (.aborted (.error unavailable)),
    .call .close, .resume .poll, .resume .poll, .resume (.completed (.ok ()))]

/-- The first block is written, `abort` fails, and `close` completes an upload
without blocks. -/
def blockEvents : List (SessionEvent BlockSession.Event) :=
  [.call (.write first), .resume .poll,
    .call (.write second), .resume .poll, .resume .poll,
    .resume (.finishAwaited (.answered (.ok ()))), .resume .poll,
    .call .abort, .resume .poll, .resume (.aborted (.error unavailable)),
    .call .close, .resume .poll, .resume .poll, .resume (.completed (.ok ()))]

/-- The last buffer is written, the file is not closed, and the next buffer is
written on top of it. -/
def positionEvents : List (SessionEvent PositionSession.Event) :=
  [.call (.write first), .resume .poll,
    .call .close, .resume .poll, .resume (.wroteLast (.ok ())),
    .resume (.closed (.error unavailable)),
    .call (.write second), .resume .poll,
    .call .close, .resume .poll, .resume (.wroteLast (.ok ())),
    .resume (.closed (.ok ()))]

end SafeCommits

open SafeCommits

theorem writers_commit_safely_retried :
    ∃ session : MultipartSession.Session,
      run (WriterSession.step MultipartSession.model)
          (WriterSession.new (.new 1)) retriedEvents = some session ∧
        acceptedWrites session.history = [first] ∧
        CommitsCover MultipartSession.spec session.history := by
  refine ⟨_, rfl, rfl, ?_⟩
  have safely := (writers_commit_safely (fun draw : Nat => draw) 1).1
  apply (safely retriedEvents _ rfl).2.2
  apply along_of_mem
  intro event member session
  have kept : ∀ event ∈ retriedEvents,
      MultipartSession.isFailedAbort event = false := by
    simp [retriedEvents, MultipartSession.isFailedAbort]
  exact MultipartSession.meets_of_not_failedAbort (kept event member) session

/-! ## Truncated commits -/

/-- Each of the writers has sessions in which the commit that succeeds does
not cover the writes. -/
theorem writers_commit_safely_fails :
    (¬ ∀ (events : List (SessionEvent MultipartSession.Event)) session,
      run (WriterSession.step MultipartSession.model)
        (WriterSession.new (.new 1)) events = some session →
      CommitsCover MultipartSession.spec session.history) ∧
    (¬ ∀ (events : List (SessionEvent BlockSession.Event)) session,
      run (WriterSession.step (BlockSession.model (fun draw : Nat => draw)))
        (WriterSession.new (BlockSession.new 1)) events = some session →
      CommitsCover (BlockSession.spec (fun draw : Nat => draw))
        session.history) ∧
    ¬ ∀ (events : List (SessionEvent PositionSession.Event)) session,
      run (WriterSession.step PositionSession.model)
        (WriterSession.new (.new 1)) events = some session →
      CommitsCover PositionSession.spec session.history := by
  refine ⟨?_, ?_, ?_⟩
  · intro always
    have covered := always multipartEvents _ rfl 6 _ rfl rfl
    cases covered.2
  · intro always
    have covered := always blockEvents _ rfl 5 _ rfl rfl
    cases covered.2
  · intro always
    have covered := always positionEvents _ rfl 6 _ rfl rfl
    have behind : (⟨3, second⟩ : PositionInput) ∈
        PositionUpload.tiles 0 [first, second] := by decide
    have written : PositionSession.Written
        [.writeAllAt ⟨0, first⟩ (.answered (.ok ())),
          .close (.error unavailable),
          .writeAllAt ⟨0, second⟩ (.answered (.ok ()))] ⟨3, second⟩ :=
      covered.written _ behind
    simp [PositionSession.Written] at written

end OpenDal
