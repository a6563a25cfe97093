import OpenDal.Layers.Retry
import OpenDal.Types.BufferCopy

/-!
# The writer of the file system and its retries

`FsWriter` hands a buffer to the operating system piece by piece, and the
blocking one gives up its handle before the two steps of closing that can
fail.  The retry layer issues a call that has failed once more, as a whole.

The answers of the system are given for every attempt of a call, and each
attempt takes all of them.
-/

namespace OpenDal

/-- The requests that are answered by success or failure alone. -/
inductive FsRequest where
  | flush
  | syncAll
  | rename (source target : String)
deriving DecidableEq

inductive FsAnswer where
  | accepted (n : Nat)
  | done
  | failed (kind : StdErrorKind)
deriving DecidableEq

/-- What has reached the file, the requests that have succeeded, and the
answers to those that come. -/
structure Fs where
  content : Bytes
  completed : List FsRequest
  answers : List FsAnswer
deriving DecidableEq

namespace Fs

/-- The system accepts a front part that is not empty; `none` is an answer
that it does not give. -/
def write (fs : Fs) (chunk : Bytes) : Option (Except StdErrorKind Nat × Fs) :=
  match fs.answers with
  | .accepted n :: answers =>
      if 0 < n ∧ n ≤ chunk.length then
        some (.ok n, { fs with content := fs.content ++ chunk.take n, answers })
      else
        none
  | .failed kind :: answers => some (.error kind, { fs with answers })
  | _ => none

def perform (fs : Fs) (request : FsRequest) :
    Option (Except StdErrorKind Unit × Fs) :=
  match fs.answers with
  | .done :: answers =>
      some (.ok (), { fs with
        completed := fs.completed ++ [request]
        answers })
  | .failed kind :: answers => some (.error kind, { fs with answers })
  | _ => none

theorem perform_eq_some {fs later : Fs} {request : FsRequest}
    {res : Except StdErrorKind Unit}
    (performed : fs.perform request = some (res, later)) :
    (∃ kind, fs.answers = .failed kind :: later.answers ∧
        res = .error kind ∧ later.completed = fs.completed) ∨
      (fs.answers = .done :: later.answers ∧ res = .ok () ∧
        later.completed = fs.completed ++ [request]) := by
  unfold perform at performed
  split at performed
  · rename_i answers pattern
    cases performed
    exact .inr ⟨pattern, rfl, rfl⟩
  · rename_i kind answers pattern
    cases performed
    exact .inl ⟨kind, pattern, rfl, rfl⟩
  · cases performed

end Fs

/-- The handle of an open file. -/
structure File where
deriving DecidableEq

structure FsWriter where
  targetPath : String
  tmpPath : Option String
  f : Option File
deriving DecidableEq

namespace FsWriter

def new (targetPath : String) (tmpPath : Option String) (f : File) : FsWriter :=
  { targetPath
    tmpPath
    f := some f }

/-- The loop of `write`.  Every iteration that goes on has written a byte, so
one more than there are bytes is enough. -/
def writeLoop : Nat → Buffer → Fs → Option (Except Error Unit × Fs)
  | 0, _, _ => none
  | fuel + 1, bs, fs =>
      if bs.inner.remaining = 0 then
        some (.ok (), fs)
      else do
        let chunk ← bs.inner.chunk
        match ← fs.write chunk with
        | (.error kind, fs) => some (.error (newStdIoError kind), fs)
        | (.ok n, fs) => do
            let rest ← bs.advance n
            writeLoop fuel rest fs

/-- `write` of either writer; without a handle it panics. -/
def write (bs : Buffer) (writer : FsWriter) (fs : Fs) :
    Option (Except Error Unit × FsWriter × Fs) := do
  let _ ← writer.f
  let (res, fs) ← writeLoop (bs.len + 1) bs fs
  some (res, writer, fs)

/-- The last step of closing, where there is a temporary file. -/
def renameTmp (writer : FsWriter) (fs : Fs) :
    Option (Except Error Unit × FsWriter × Fs) :=
  match writer.tmpPath with
  | none => some (.ok (), writer, fs)
  | some tmpPath => do
      match ← fs.perform (.rename tmpPath writer.targetPath) with
      | (.error kind, fs) => some (.error (newStdIoError kind), writer, fs)
      | (.ok (), fs) => some (.ok (), writer, fs)

/-- `close` of the asynchronous writer. -/
def close (writer : FsWriter) (fs : Fs) :
    Option (Except Error Unit × FsWriter × Fs) := do
  let _ ← writer.f
  match ← fs.perform .flush with
  | (.error kind, fs) => some (.error (newStdIoError kind), writer, fs)
  | (.ok (), fs) =>
      match ← fs.perform .syncAll with
      | (.error kind, fs) => some (.error (newStdIoError kind), writer, fs)
      | (.ok (), fs) => writer.renameTmp fs

/-- `close` of the blocking writer takes the handle. -/
def blockingClose (writer : FsWriter) (fs : Fs) :
    Option (Except Error Unit × FsWriter × Fs) :=
  match writer.f with
  | none => some (.ok (), writer, fs)
  | some _ => do
      let writer := { writer with f := none }
      match ← fs.perform .syncAll with
      | (.error kind, fs) => some (.error (newStdIoError kind), writer, fs)
      | (.ok (), fs) => writer.renameTmp fs

end FsWriter

/-! ## Attempts -/

/-- A writer and the answers that every further attempt gets. -/
structure FsAttempts where
  writer : FsWriter
  fs : Fs
  attempts : List (List FsAnswer)

namespace FsAttempts

/-- One attempt takes exactly the answers that are meant for it. -/
def attempt
    (call : FsWriter → Fs → Option (Except Error Unit × FsWriter × Fs))
    (state : FsAttempts) : Option (Except Error Unit × FsAttempts) :=
  match state.attempts with
  | [] => none
  | answers :: attempts => do
      let (res, writer, fs) ← call state.writer { state.fs with answers }
      if fs.answers = [] then
        some (res, ⟨writer, fs, attempts⟩)
      else
        none

/-- A call of `RetryWrapper`. -/
def retried {B : Type} [Backoff B] (builder : B)
    (call : FsWriter → Fs → Option (Except Error Unit × FsWriter × Fs))
    (state : FsAttempts) : Option (Except Error Unit × FsAttempts) :=
  (Backoff.retry builder (attempt call) state).map fun (res, state) =>
    (res.mapError Error.setPersistent, state)

end FsAttempts

/-! ## What attempts do -/

namespace FsAttempts

variable {call : FsWriter → Fs → Option (Except Error Unit × FsWriter × Fs)}
  {state later : FsAttempts} {res : Except Error Unit}

theorem attempt_eq_some (attempted : attempt call state = some (res, later)) :
    ∃ answers, state.attempts = answers :: later.attempts ∧
      call state.writer { state.fs with answers } =
        some (res, later.writer, later.fs) ∧
      later.fs.answers = [] := by
  unfold attempt at attempted
  split at attempted
  · cases attempted
  · rename_i answers attempts pattern
    obtain ⟨⟨res, writer, fs⟩, called, taken⟩ :=
      Option.bind_eq_some_iff.mp attempted
    obtain ⟨all, same⟩ := Option.ite_none_right_eq_some.mp taken
    cases same
    exact ⟨answers, pattern, called, all⟩

end FsAttempts

/-! ## Writing -/

/-- An attempt that fails does so at its first request. -/
def Clean (answers : List FsAnswer) : Prop :=
  ∀ kind, .failed kind ∈ answers → answers = [.failed kind]

theorem clean_failed (kind : StdErrorKind) : Clean [.failed kind] := by
  intro other member
  rw [List.mem_singleton.mp member]

namespace FsWriter

/-- The loop gets a front part of the buffer into the file: all of it, or what
was accepted before a request failed. -/
theorem writeLoop_spec {fuel : Nat} {bs : Buffer} {fs later : Fs}
    {res : Except Error Unit}
    (wrote : writeLoop fuel bs fs = some (res, later))
    (all : later.answers = []) :
    later.completed = fs.completed ∧
      ((res = .ok () ∧ later.content = fs.content ++ bs.bytes ∧
          ∀ kind, .failed kind ∉ fs.answers) ∨
        ∃ kind front, res = .error (newStdIoError kind) ∧
          later.content = fs.content ++ front ∧
          .failed kind ∈ fs.answers ∧
          (front = [] ↔ fs.answers = [.failed kind])) := by
  induction fuel generalizing bs fs with
  | zero => cases wrote
  | succ fuel induction =>
      simp only [writeLoop] at wrote
      split at wrote
      · rename_i drained
        cases wrote
        have empty : bs.bytes = [] := by
          rw [← List.length_eq_zero_iff, Buffer.length_bytes]
          exact drained
        refine ⟨rfl, .inl ⟨rfl, by rw [empty, List.append_nil], ?_⟩⟩
        simp [all]
      · obtain ⟨chunk, chunked, wrote⟩ := Option.bind_eq_some_iff.mp wrote
        obtain ⟨⟨answer, next⟩, answered, wrote⟩ :=
          Option.bind_eq_some_iff.mp wrote
        unfold Fs.write at answered
        split at answered
        · rename_i n answers pattern
          obtain ⟨⟨positive, bound⟩, same⟩ :=
            Option.ite_none_right_eq_some.mp answered
          cases same
          obtain ⟨rest, advanced, wrote⟩ := Option.bind_eq_some_iff.mp wrote
          obtain ⟨_, left⟩ := Buffer.advance_eq_some advanced
          obtain ⟨completed, result⟩ := induction wrote
          -- What was accepted is the front of the buffer.
          obtain ⟨behind, whole⟩ := Buffer.chunk_prefix chunked
          have accepted : chunk.take n ++ rest.bytes = bs.bytes := by
            rw [left, ← whole, List.drop_append_of_le_length bound,
              ← List.append_assoc, List.take_append_drop]
          refine ⟨completed, ?_⟩
          rcases result with ⟨ok, content, none⟩ |
            ⟨kind, front, failed, content, member, _⟩
          · refine .inl ⟨ok, ?_, ?_⟩
            · rw [content, List.append_assoc, accepted]
            · intro kind member
              rw [pattern] at member
              rcases List.mem_cons.mp member with impossible | later
              · cases impossible
              · exact none kind later
          · refine .inr ⟨kind, chunk.take n ++ front, failed, ?_, ?_, ?_⟩
            · rw [content, List.append_assoc]
            · rw [pattern]
              exact List.mem_cons_of_mem _ member
            · have some : chunk.take n ≠ [] := by
                rw [← List.length_pos_iff, List.length_take]
                omega
              simp [pattern, some]
        · rename_i kind answers pattern
          cases answered
          cases wrote
          have last : answers = [] := all
          refine ⟨rfl, .inr ⟨kind, [], rfl, ?_, ?_, ?_⟩⟩
          · rw [List.append_nil]
          · simp [pattern]
          · simp [pattern, last]
        · cases answered

theorem write_attempt {bs : Buffer} {state later : FsAttempts}
    {res : Except Error Unit}
    (attempted : FsAttempts.attempt (write bs) state = some (res, later)) :
    ∃ answers, state.attempts = answers :: later.attempts ∧
      later.writer = state.writer ∧
      ((res = .ok () ∧ Clean answers ∧
          later.fs.content = state.fs.content ++ bs.bytes) ∨
        ∃ kind front, res = .error (newStdIoError kind) ∧
          (front = [] ↔ Clean answers) ∧
          later.fs.content = state.fs.content ++ front) := by
  obtain ⟨answers, pattern, called, all⟩ :=
    FsAttempts.attempt_eq_some attempted
  obtain ⟨_, _, called⟩ := Option.bind_eq_some_iff.mp called
  obtain ⟨⟨answer, fs⟩, wrote, same⟩ := Option.bind_eq_some_iff.mp called
  simp only [Option.some.injEq, Prod.mk.injEq] at same
  obtain ⟨rfl, sameWriter, rfl⟩ := same
  obtain ⟨_, result⟩ := writeLoop_spec wrote all
  refine ⟨answers, pattern, sameWriter.symm, ?_⟩
  rcases result with ⟨ok, content, none⟩ |
    ⟨kind, front, failed, content, member, first⟩
  · refine .inl ⟨ok, ?_, content⟩
    intro kind member
    exact absurd member (none kind)
  · refine .inr ⟨kind, front, failed, ?_, content⟩
    rw [first]
    constructor
    · intro only
      rw [show answers = [.failed kind] from only]
      exact clean_failed kind
    · intro clean
      exact clean kind member

/-- What all attempts of one call have left in the file before the last one
has written the buffer. -/
theorem write_retried {bs : Buffer} {state later : FsAttempts}
    {res : Except Error Unit}
    {outcome : Option (Except Error Unit × FsAttempts)}
    (retried : Retried (FsAttempts.attempt (write bs)) state outcome)
    (ended : outcome = some (res, later)) (all : later.attempts = []) :
    ∃ torn, (torn = [] ↔ ∀ answers ∈ state.attempts, Clean answers) ∧
      later.fs.content = state.fs.content ++ torn ++
        (match res with
        | .ok () => bs.bytes
        | .error _ => []) := by
  induction retried with
  | last state =>
      obtain ⟨answers, pattern, _, result⟩ := write_attempt ended
      rw [all] at pattern
      rcases result with
        ⟨rfl, clean, content⟩ | ⟨kind, front, rfl, clean, content⟩
      · exact ⟨[], by simp [pattern, clean], by simp [content]⟩
      · exact ⟨front, by simp [pattern, clean], by simp [content]⟩
  | again failed _ _ induction =>
      obtain ⟨answers, pattern, _, result⟩ := write_attempt failed
      obtain ⟨torn, clean, content⟩ := induction ended
      rcases result with ⟨impossible, _⟩ | ⟨kind, front, _, first, before⟩
      · cases impossible
      · refine ⟨front ++ torn, ?_, ?_⟩
        · rw [List.append_eq_nil_iff, first, clean, pattern,
            List.forall_mem_cons]
        · rw [content, before, ← List.append_assoc]

end FsWriter

/-! ## Sessions -/

/-- One call of `write` and the answers that each of its attempts gets. -/
structure FsWriteCall where
  bs : Buffer
  attempts : List (List FsAnswer)

/-- A call of `close`, through the retry layer or not. -/
structure FsCloseCall where
  retried : Bool
  attempts : List (List FsAnswer)

/-- A writer, the bytes whose `write` has returned `Ok`, and whether a `close`
has. -/
structure FsSession where
  writer : FsWriter
  fs : Fs
  accepted : Bytes
  closed : Bool

namespace FsSession

def new (writer : FsWriter) (content : Bytes) : FsSession :=
  { writer
    fs := ⟨content, [], []⟩
    accepted := content
    closed := false }

variable {B : Type} [Backoff B]

/-- `write` of `RetryWrapper`. -/
def write (builder : B) (session : FsSession) (call : FsWriteCall) :
    Option FsSession :=
  match FsAttempts.retried builder (FsWriter.write call.bs)
      ⟨session.writer, session.fs, call.attempts⟩ with
  | some (.ok (), ⟨writer, fs, []⟩) =>
      some { session with
        writer
        fs
        accepted := session.accepted ++ call.bs.bytes }
  | some (.error _, ⟨writer, fs, []⟩) => some { session with writer, fs }
  | _ => none

/-- `closing` is the `close` of either writer. -/
def close (builder : B)
    (closing : FsWriter → Fs → Option (Except Error Unit × FsWriter × Fs))
    (session : FsSession) (call : FsCloseCall) : Option FsSession :=
  let state : FsAttempts := ⟨session.writer, session.fs, call.attempts⟩
  match if call.retried then FsAttempts.retried builder closing state
      else FsAttempts.attempt closing state with
  | some (.ok (), ⟨writer, fs, []⟩) =>
      some { session with writer, fs, closed := true }
  | some (.error _, ⟨writer, fs, []⟩) => some { session with writer, fs }
  | _ => none

variable [LawfulBackoff B] {builder : B} {session next : FsSession}

theorem retried_eq_some
    {call : FsWriter → Fs → Option (Except Error Unit × FsWriter × Fs)}
    {state later : FsAttempts} {res : Except Error Unit}
    (ended : FsAttempts.retried builder call state = some (res, later)) :
    ∃ last, Retried (FsAttempts.attempt call) state (some (last, later)) ∧
      (res = .ok () ↔ last = .ok ()) := by
  obtain ⟨⟨last, other⟩, outcome, same⟩ := Option.map_eq_some_iff.mp ended
  have retried := LawfulBackoff.retried builder (FsAttempts.attempt call) state
  rw [outcome] at retried
  cases same
  refine ⟨last, retried, ?_⟩
  cases last with
  | ok value => simp [Except.mapError]
  | error err => simp [Except.mapError]

theorem write_spec {call : FsWriteCall}
    (wrote : session.write builder call = some next) :
    ∃ torn gained,
      (torn = [] ↔ ∀ answers ∈ call.attempts, Clean answers) ∧
      next.fs.content = session.fs.content ++ torn ++ gained ∧
      next.accepted = session.accepted ++ gained := by
  simp only [write] at wrote
  split at wrote
  · rename_i ended
    cases wrote
    obtain ⟨last, retried, ok⟩ := retried_eq_some ended
    obtain rfl := ok.mp rfl
    obtain ⟨torn, clean, content⟩ := FsWriter.write_retried retried rfl rfl
    exact ⟨torn, call.bs.bytes, clean, content, rfl⟩
  · rename_i ended
    cases wrote
    obtain ⟨last, retried, ok⟩ := retried_eq_some ended
    obtain ⟨torn, clean, content⟩ := FsWriter.write_retried retried rfl rfl
    cases last with
    | ok value => cases ok.mpr rfl
    | error err => exact ⟨torn, [], clean, content, by simp⟩
  · cases wrote

/-- The data are on the disk, under the name of the target. -/
def Placed (session : FsSession) : Prop :=
  .syncAll ∈ session.fs.completed ∧
    ∀ tmpPath, session.writer.tmpPath = some tmpPath →
      .rename tmpPath session.writer.targetPath ∈ session.fs.completed

theorem close_spec {call : FsCloseCall}
    {closing : FsWriter → Fs → Option (Except Error Unit × FsWriter × Fs)}
    (closed : session.close builder closing call = some next) :
    ∃ res, Retried (FsAttempts.attempt closing)
        ⟨session.writer, session.fs, call.attempts⟩
        (some (res, ⟨next.writer, next.fs, []⟩)) ∧
      (next.closed = true ↔ session.closed = true ∨ res = .ok ()) := by
  have outcome : ∀ {res : Except Error Unit} {later : FsAttempts},
      (if call.retried then FsAttempts.retried builder closing
          ⟨session.writer, session.fs, call.attempts⟩
        else FsAttempts.attempt closing
          ⟨session.writer, session.fs, call.attempts⟩) = some (res, later) →
      ∃ last, Retried (FsAttempts.attempt closing)
          ⟨session.writer, session.fs, call.attempts⟩ (some (last, later)) ∧
        (res = .ok () ↔ last = .ok ()) := by
    intro res later ended
    split at ended
    · exact retried_eq_some ended
    · exact ⟨res, ended ▸ .last _, Iff.rfl⟩
  simp only [close] at closed
  split at closed
  · rename_i ended
    cases closed
    obtain ⟨last, retried, ok⟩ := outcome ended
    exact ⟨last, retried, by simp [ok.mp rfl]⟩
  · rename_i ended
    cases closed
    obtain ⟨last, retried, ok⟩ := outcome ended
    have failed : last ≠ .ok () := by
      intro succeeded
      cases ok.mpr succeeded
    exact ⟨last, retried, by simp [failed]⟩
  · cases closed

end FsSession

namespace FsWriter

variable {state later : FsAttempts} {res : Except Error Unit}

theorem blockingClose_attempt_again (gone : state.writer.f = none)
    (attempted : FsAttempts.attempt blockingClose state = some (res, later)) :
    state.attempts = [] :: later.attempts ∧ res = .ok () ∧
      later.writer = state.writer ∧
      later.fs.completed = state.fs.completed := by
  obtain ⟨answers, pattern, called, all⟩ :=
    FsAttempts.attempt_eq_some attempted
  simp only [blockingClose, gone, Option.some.injEq, Prod.mk.injEq] at called
  obtain ⟨rfl, sameWriter, sameFs⟩ := called
  rw [← sameFs] at all ⊢
  exact ⟨by rw [pattern, show answers = [] from all], rfl, sameWriter.symm, rfl⟩

theorem renameTmp_eq_some {writer last : FsWriter} {fs finish : Fs}
    {tmp : String} (hasTmp : writer.tmpPath = some tmp)
    (renamed : writer.renameTmp fs = some (res, last, finish)) :
    last = writer ∧
      ((∃ kind, fs.answers = .failed kind :: finish.answers ∧
          res = .error (newStdIoError kind) ∧
          finish.completed = fs.completed) ∨
        (fs.answers = .done :: finish.answers ∧ res = .ok () ∧
          finish.completed =
            fs.completed ++ [.rename tmp writer.targetPath])) := by
  simp only [renameTmp, hasTmp] at renamed
  obtain ⟨⟨answer, after⟩, performed, renamed⟩ :=
    Option.bind_eq_some_iff.mp renamed
  rcases Fs.perform_eq_some performed with
    ⟨kind, pattern, rfl, completed⟩ | ⟨pattern, rfl, completed⟩
  · cases renamed
    exact ⟨rfl, .inl ⟨kind, pattern, rfl, completed⟩⟩
  · cases renamed
    exact ⟨rfl, .inr ⟨pattern, rfl, completed⟩⟩

theorem blockingClose_attempt_first {target tmp : String} {f : File}
    (opened : state.writer = .new target (some tmp) f)
    (attempted : FsAttempts.attempt blockingClose state = some (res, later)) :
    ∃ answers, state.attempts = answers :: later.attempts ∧
      later.writer = ⟨target, some tmp, none⟩ ∧
      (res = .ok () ↔ answers = [.done, .done]) ∧
      (res = .ok () → later.fs.completed =
        state.fs.completed ++ [.syncAll, .rename tmp target]) ∧
      (res ≠ .ok () → later.fs.completed = state.fs.completed ∨
        later.fs.completed = state.fs.completed ++ [.syncAll]) := by
  obtain ⟨answers, pattern, called, all⟩ :=
    FsAttempts.attempt_eq_some attempted
  refine ⟨answers, pattern, ?_⟩
  rw [opened] at called
  simp only [blockingClose, new] at called
  obtain ⟨⟨synced, fs⟩, performed, called⟩ :=
    Option.bind_eq_some_iff.mp called
  rcases Fs.perform_eq_some performed with
    ⟨kind, first, rfl, kept⟩ | ⟨first, rfl, completed⟩
  · simp only [Option.some.injEq, Prod.mk.injEq] at called
    obtain ⟨rfl, sameWriter, rfl⟩ := called
    refine ⟨sameWriter.symm, ?_, ?_, ?_⟩
    · rw [show answers = .failed kind :: later.fs.answers from first]
      simp
    · intro impossible
      cases impossible
    · intro _
      exact .inl kept
  · obtain ⟨sameWriter, result⟩ := renameTmp_eq_some rfl called
    refine ⟨sameWriter, ?_⟩
    rw [show answers = .done :: fs.answers from first]
    rcases result with
      ⟨kind, second, rfl, kept⟩ | ⟨second, rfl, renamed⟩
    · refine ⟨by simp [second], ?_, ?_⟩
      · intro impossible
        cases impossible
      · intro _
        exact .inr (kept.trans completed)
    · refine ⟨by simp [second, all], ?_, ?_⟩
      · intro _
        rw [renamed, completed, List.append_assoc]
        rfl
      · intro impossible
        exact absurd rfl impossible

theorem blockingClose_retried_again (gone : state.writer.f = none)
    {outcome : Option (Except Error Unit × FsAttempts)}
    (retried : Retried (FsAttempts.attempt blockingClose) state outcome)
    (ended : outcome = some (res, later)) :
    state.attempts = [] :: later.attempts ∧ res = .ok () ∧
      later.writer = state.writer ∧
      later.fs.completed = state.fs.completed := by
  cases retried with
  | last => exact blockingClose_attempt_again gone ended
  | again failed =>
      obtain ⟨_, impossible, _⟩ := blockingClose_attempt_again gone failed
      cases impossible

theorem blockingClose_retried_first {target tmp : String} {f : File}
    (opened : state.writer = .new target (some tmp) f)
    {outcome : Option (Except Error Unit × FsAttempts)}
    (retried : Retried (FsAttempts.attempt blockingClose) state outcome)
    (ended : outcome = some (res, later)) (all : later.attempts = []) :
    ∃ first rest, state.attempts = first :: rest ∧
      later.writer = ⟨target, some tmp, none⟩ ∧
      (res = .ok () ↔ first = [.done, .done] ∨ rest ≠ []) ∧
      (first = [.done, .done] → later.fs.completed =
        state.fs.completed ++ [.syncAll, .rename tmp target]) ∧
      (first ≠ [.done, .done] → later.fs.completed = state.fs.completed ∨
        later.fs.completed = state.fs.completed ++ [.syncAll]) := by
  cases retried with
  | last =>
      obtain ⟨first, pattern, writer, ok, placed, kept⟩ :=
        blockingClose_attempt_first opened ended
      refine ⟨first, later.attempts, pattern, writer, ?_, ?_, ?_⟩
      · simpa [all] using ok
      · intro done
        exact placed (ok.mpr done)
      · intro failed
        exact kept (mt ok.mp failed)
  | again failed _ retried =>
      obtain ⟨first, pattern, writer, ok, _, kept⟩ :=
        blockingClose_attempt_first opened failed
      obtain ⟨again, succeeded, same, completed⟩ :=
        blockingClose_retried_again (by rw [writer]) retried ended
      have notDone : first ≠ [.done, .done] := by
        intro done
        cases ok.mpr done
      refine ⟨first, _, pattern, same.trans writer, ?_, ?_, ?_⟩
      · simp [succeeded, again]
      · intro done
        exact absurd done notDone
      · intro _
        rw [completed]
        apply kept
        intro impossible
        cases impossible

/-- The asynchronous writer keeps its handle, so that every attempt goes
through all steps. -/
theorem close_attempt {target tmp : String} {f : File}
    (opened : state.writer = .new target (some tmp) f)
    (attempted : FsAttempts.attempt close state = some (res, later)) :
    later.writer = state.writer ∧
      state.fs.completed ⊆ later.fs.completed ∧
      (res = .ok () → .syncAll ∈ later.fs.completed ∧
        .rename tmp target ∈ later.fs.completed) := by
  obtain ⟨answers, _, called, _⟩ := FsAttempts.attempt_eq_some attempted
  rw [opened] at called ⊢
  simp only [close, new, Option.bind_eq_bind, Option.bind_some] at called
  obtain ⟨⟨flushed, fs⟩, performed, called⟩ :=
    Option.bind_eq_some_iff.mp called
  rcases Fs.perform_eq_some performed with
    ⟨_, _, rfl, kept⟩ | ⟨_, rfl, completed⟩
  · simp only [Option.some.injEq, Prod.mk.injEq] at called
    obtain ⟨rfl, sameWriter, rfl⟩ := called
    exact ⟨sameWriter.symm, by rw [kept]; exact List.Subset.refl _,
      fun impossible => nomatch impossible⟩
  · obtain ⟨⟨synced, next⟩, performed, called⟩ :=
      Option.bind_eq_some_iff.mp called
    rcases Fs.perform_eq_some performed with
      ⟨_, _, rfl, kept⟩ | ⟨_, rfl, more⟩
    · simp only [Option.some.injEq, Prod.mk.injEq] at called
      obtain ⟨rfl, sameWriter, rfl⟩ := called
      refine ⟨sameWriter.symm, ?_, fun impossible => nomatch impossible⟩
      rw [kept, completed]
      exact List.subset_append_left _ _
    · obtain ⟨sameWriter, result⟩ := renameTmp_eq_some rfl called
      refine ⟨sameWriter, ?_⟩
      rcases result with ⟨_, _, rfl, kept⟩ | ⟨_, rfl, renamed⟩
      · refine ⟨?_, fun impossible => nomatch impossible⟩
        rw [kept, more, completed, List.append_assoc]
        exact List.subset_append_left _ _
      · rw [renamed, more, completed]
        refine ⟨?_, ?_⟩
        · intro request member
          simp only [List.mem_append]
          exact .inl (.inl (.inl member))
        · intro _
          simp

theorem close_retried {target tmp : String} {f : File}
    (opened : state.writer = .new target (some tmp) f)
    {outcome : Option (Except Error Unit × FsAttempts)}
    (retried : Retried (FsAttempts.attempt close) state outcome)
    (ended : outcome = some (res, later)) :
    later.writer = state.writer ∧
      state.fs.completed ⊆ later.fs.completed ∧
      (res = .ok () → .syncAll ∈ later.fs.completed ∧
        .rename tmp target ∈ later.fs.completed) := by
  induction retried with
  | last => exact close_attempt opened ended
  | again failed _ _ induction =>
      obtain ⟨same, kept, _⟩ := close_attempt opened failed
      obtain ⟨again, more, placed⟩ := induction (same.trans opened) ended
      exact ⟨again.trans same, List.Subset.trans kept more, placed⟩

end FsWriter

namespace FsSession

variable {B : Type} [Backoff B] [LawfulBackoff B] {builder : B}
  {session next : FsSession}

/-- Closing the asynchronous writer returns `Ok` only when the file is in
place, however often it fails before. -/
theorem close_placed (builder : B) {target tmp : String} {f : File}
    {content : Bytes} {calls : List FsCloseCall}
    (ran : Automaton.run (close builder FsWriter.close)
      (new (.new target (some tmp) f) content) calls = some session) :
    session.closed = true → session.Placed := by
  have preserved : ∀ {session : FsSession} {call next},
      (session.writer = .new target (some tmp) f ∧
        (session.closed = true → session.Placed)) →
      session.close builder FsWriter.close call = some next →
      next.writer = .new target (some tmp) f ∧
        (next.closed = true → next.Placed) := by
    intro session call next before closed
    obtain ⟨opened, wasPlaced⟩ := before
    obtain ⟨res, retried, returned⟩ := close_spec closed
    obtain ⟨same, kept, placed⟩ :=
      FsWriter.close_retried opened retried rfl
    have still : next.writer = .new target (some tmp) f :=
      same.trans opened
    refine ⟨still, ?_⟩
    intro nowClosed
    rcases returned.mp nowClosed with earlier | now
    · obtain ⟨synced, renamed⟩ := wasPlaced earlier
      refine ⟨kept synced, ?_⟩
      intro tmpPath hasTmp
      rw [show next.writer = session.writer from same] at hasTmp ⊢
      exact kept (renamed tmpPath hasTmp)
    · obtain ⟨synced, renamed⟩ := placed now
      refine ⟨synced, ?_⟩
      intro tmpPath hasTmp
      rw [still] at hasTmp ⊢
      cases hasTmp
      exact renamed
  have initially : (new (.new target (some tmp) f) content).writer =
      .new target (some tmp) f ∧
      ((new (.new target (some tmp) f) content).closed = true →
        (new (.new target (some tmp) f) content).Placed) :=
    ⟨rfl, fun impossible => nomatch impossible⟩
  exact (Automaton.run_invariant_of_forall preserved initially ran).2

/-- What all attempts so far have led to. -/
def After (target tmp : String) (f : File) (session : FsSession) :
    List (List FsAnswer) → Prop
  | [] => session.writer = .new target (some tmp) f ∧
      session.closed = false ∧ session.fs.completed = []
  | first :: rest => session.writer = ⟨target, some tmp, none⟩ ∧
      (session.Placed ↔ first = [.done, .done]) ∧
      (session.closed = true ↔ first = [.done, .done] ∨ rest ≠ [])

theorem After.close {target tmp : String} {f : File}
    {log : List (List FsAnswer)} {call : FsCloseCall}
    (before : After target tmp f session log)
    (closed : session.close builder FsWriter.blockingClose call = some next) :
    After target tmp f next (log ++ call.attempts) := by
  obtain ⟨res, retried, returned⟩ := close_spec closed
  cases log with
  | nil =>
      obtain ⟨opened, unclosed, nothing⟩ := before
      obtain ⟨first, rest, pattern, writer, ok, placed, kept⟩ :=
        FsWriter.blockingClose_retried_first opened retried rfl rfl
      rw [List.nil_append, show call.attempts = first :: rest from pattern]
      rw [nothing, List.nil_append] at placed kept
      refine ⟨writer, ?_, ?_⟩
      · rw [Placed, show next.writer = ⟨target, some tmp, none⟩ from writer]
        constructor
        · rintro ⟨_, renamed⟩
          by_contra failed
          have member := renamed tmp rfl
          rcases kept failed with none | synced
          · rw [show next.fs.completed = [] from none] at member
            cases member
          · rw [show next.fs.completed = [.syncAll] from synced] at member
            simp at member
        · intro done
          rw [show next.fs.completed = [.syncAll, .rename tmp target] from
            placed done]
          simp
      · rw [returned, ok]
        simp [unclosed]
  | cons first rest =>
      obtain ⟨writer, placed, wasClosed⟩ := before
      obtain ⟨pattern, ok, same, completed⟩ :=
        FsWriter.blockingClose_retried_again (by rw [writer]) retried rfl
      rw [show call.attempts = [[]] from pattern]
      refine ⟨same.trans writer, ?_, ?_⟩
      · rw [← placed]
        unfold Placed
        rw [show next.fs.completed = session.fs.completed from completed,
          show next.writer = session.writer from same]
      · simp [returned, ok]

theorem after_of_run {target tmp : String} {f : File}
    {start : FsSession} {log : List (List FsAnswer)}
    {calls : List FsCloseCall} (before : After target tmp f start log)
    (ran : Automaton.run (close builder FsWriter.blockingClose) start calls =
      some session) :
    After target tmp f session
      (log ++ calls.flatMap FsCloseCall.attempts) := by
  induction calls generalizing start log with
  | nil =>
      rw [Automaton.run_nil] at ran
      cases ran
      simpa using before
  | cons call calls induction =>
      obtain ⟨next, closed, rest⟩ := Automaton.run_cons_eq_some_iff.mp ran
      have after := induction (before.close closed) rest
      rwa [List.append_assoc] at after

/-- Closing the blocking writer returns `Ok` only when the file is in place if
and only if there is a single attempt at most or the first one has done both
steps. -/
theorem blockingClose_placed_iff (builder : B) {target tmp : String}
    {f : File} {content : Bytes} {calls : List FsCloseCall}
    (ran : Automaton.run (close builder FsWriter.blockingClose)
      (new (.new target (some tmp) f) content) calls = some session) :
    (session.closed = true → session.Placed) ↔
      (calls.flatMap FsCloseCall.attempts).length ≤ 1 ∨
      (calls.flatMap FsCloseCall.attempts).head? =
        some [.done, .done] := by
  have start : After target tmp f (new (.new target (some tmp) f) content)
      [] := ⟨rfl, rfl, rfl⟩
  have after := after_of_run start ran
  rw [List.nil_append] at after
  generalize calls.flatMap FsCloseCall.attempts = log at after ⊢
  cases log with
  | nil =>
      obtain ⟨_, unclosed, _⟩ := after
      simp [unclosed]
  | cons first rest =>
      obtain ⟨_, placed, closed⟩ := after
      rw [placed, closed]
      constructor
      · intro implied
        by_cases only : rest = []
        · exact .inl (by simp [only])
        · exact .inr (congrArg some (implied (.inr only)))
      · intro condition done
        rcases done with done | more
        · exact done
        · rcases condition with single | both
          · have none : rest = [] := by
              simpa using single
            exact absurd none more
          · exact Option.some.inj both

/-- The rename fails, and no other attempt is made. -/
theorem blockingClose_placed_iff_once :
    ∃ session, Automaton.run (close (FixedDelays.mk 1) FsWriter.blockingClose)
        (new (.new "target" (some "tmp") ⟨⟩) [])
        [⟨false, [[.done, .failed .permissionDenied]]⟩] = some session ∧
      (session.closed = true → session.Placed) := by
  have ran : Automaton.run (close (FixedDelays.mk 1) FsWriter.blockingClose)
      (new (.new "target" (some "tmp") ⟨⟩) [])
      [⟨false, [[.done, .failed .permissionDenied]]⟩] = some _ := rfl
  exact ⟨_, ran, (blockingClose_placed_iff _ ran).mpr (.inl (by decide))⟩

/-- The rename fails once, and the retry layer tries again. -/
theorem blockingClose_placed_fails :
    ¬ (∀ (calls : List FsCloseCall) session,
        Automaton.run (close (FixedDelays.mk 1) FsWriter.blockingClose)
          (new (.new "target" (some "tmp") ⟨⟩) []) calls = some session →
        session.closed = true → session.Placed) := by
  intro claimed
  have ran : Automaton.run (close (FixedDelays.mk 1) FsWriter.blockingClose)
      (new (.new "target" (some "tmp") ⟨⟩) [])
      [⟨true, [[.done, .failed (.other "EIO")], []]⟩] = some _ := rfl
  have renamed := (claimed _ _ ran rfl).2 "tmp" rfl
  revert renamed
  decide

end FsSession

end OpenDal
