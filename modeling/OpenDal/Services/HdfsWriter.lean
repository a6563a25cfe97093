import OpenDal.Raw.BlockWriter
import OpenDal.Services.AtomicWrites

/-!
# The HDFS writer

The asynchronous and the blocking writer write to a temporary file and let it
take the place of the target when they are closed.  They differ in what they do
with the file that they have open.

As in `libhdfs`, the removal of a missing file and a rename that is not
possible are errors.
-/

namespace OpenDal

open Path Program

/-! ## The client -/

inductive HdfsRequest where
  | closeFile
  | flush
  | removeFile (path : Path)
  | renameFile (source destination : Path)

inductive HdfsOperation where
  | closeFile
  | flush
  | removeFile
  | renameFile
deriving DecidableEq

def HdfsRequest.operation : HdfsRequest → HdfsOperation
  | .closeFile => .closeFile
  | .flush => .flush
  | .removeFile _ => .removeFile
  | .renameFile _ _ => .renameFile

/-- The files after the request, if it is possible. -/
def HdfsRequest.effect (files : HdfsFiles) : HdfsRequest → Option HdfsFiles
  | .closeFile => some files
  | .flush => some files
  | .removeFile path =>
      match files path with
      | none => none
      | some _ => some (Function.update files path none)
  | .renameFile source destination =>
      match files source, files destination with
      | some moved, none => some (Function.update
          (Function.update files source none) destination (some moved))
      | _, _ => none

/-- The files, and which of the next requests of each kind fail. -/
structure Hdfs where
  files : HdfsFiles
  failures : HdfsOperation → List (Option StdErrorKind)

namespace Hdfs

/-- `EIO`. -/
def impossible : StdErrorKind :=
  .other "uncategorized error"

def answered (hdfs : Hdfs) (operation : HdfsOperation) : Hdfs :=
  { hdfs with
    failures := Function.update hdfs.failures operation
      (hdfs.failures operation).tail }

/-- A call of the client, with `map_err(new_std_io_error)`. -/
def call (request : HdfsRequest) : Program Hdfs Error Unit :=
  fun hdfs =>
    match (hdfs.failures request.operation).headD none,
        request.effect hdfs.files with
    | some kind, _ =>
        (.error (newStdIoError kind), hdfs.answered request.operation)
    | none, none =>
        (.error (newStdIoError impossible), hdfs.answered request.operation)
    | none, some files =>
        (.ok (), { hdfs.answered request.operation with files })

/-- The next request of a kind fails, and no other one. -/
def failingAt (hdfs : Hdfs) (operation : HdfsOperation)
    (kind : StdErrorKind) : Hdfs :=
  { hdfs with
    failures := Function.update (fun _ => []) operation [some kind] }

def steady (hdfs : Hdfs) : Hdfs :=
  { hdfs with failures := fun _ => [] }

variable {hdfs : Hdfs} {request : HdfsRequest} {operation : HdfsOperation}
  {kind : StdErrorKind} {files : HdfsFiles}

theorem answered_idle (idle : hdfs.failures operation = []) :
    hdfs.answered operation = hdfs := by
  have same : Function.update hdfs.failures operation [] = hdfs.failures := by
    rw [← idle]
    exact Function.update_eq_self _ _
  simp only [answered, idle, List.tail_nil, same]

theorem call_idle (idle : hdfs.failures request.operation = [])
    (possible : request.effect hdfs.files = some files) :
    call request hdfs = (.ok (), { hdfs with files }) := by
  simp [call, idle, possible, answered_idle idle]

theorem call_failingAt (here : request.operation = operation) :
    call request (hdfs.failingAt operation kind) =
      (.error (newStdIoError kind), hdfs.steady) := by
  have queued : (hdfs.failingAt operation kind).failures
      request.operation = [some kind] := by
    simp [failingAt, here]
  have spent : (hdfs.failingAt operation kind).answered request.operation =
      hdfs.steady := by
    simp only [answered, queued, List.tail_cons]
    simp [failingAt, steady, here]
  simp [call, queued, spent]

theorem failures_failingAt_of_ne {other : HdfsOperation}
    (different : other ≠ operation) :
    (hdfs.failingAt operation kind).failures other = [] := by
  simp [failingAt, Function.update_of_ne different]

end Hdfs

/-! ## The writer -/

structure HdfsWriter where
  targetPath : Path
  tmpPath : Option Path
  targetPathExists : Bool

namespace HdfsWriter

/-- `ends` is what is done with the open file first. -/
def closeWith (ends : HdfsRequest) (writer : HdfsWriter) :
    Program Hdfs Error Unit := do
  Hdfs.call ends
  match writer.tmpPath with
  | none => pure ()
  | some tmpPath => do
      -- we must delete the target_path, otherwise the rename_file operation
      -- will fail
      if writer.targetPathExists then
        Hdfs.call (.removeFile writer.targetPath)
      Hdfs.call (.renameFile tmpPath writer.targetPath)

/-- `close` of `oio::Write`. -/
def close (writer : HdfsWriter) : Program Hdfs Error Unit :=
  writer.closeWith .closeFile

/-- `close` of `oio::BlockingWrite`. -/
def blockingClose (writer : HdfsWriter) : Program Hdfs Error Unit :=
  writer.closeWith .flush

/-- The new content has been written to the temporary file, and the writer
knows whether the target exists. -/
structure Written (writer : HdfsWriter) (tmp : Path) (files : HdfsFiles)
    (content : Bytes) : Prop where
  atomic : writer.tmpPath = some tmp
  content : files tmp = some content
  own : tmp ≠ writer.targetPath
  known : writer.targetPathExists = (files writer.targetPath).isSome

/-! ### The steps -/

/-- Remove the target if it exists, and rename the temporary file. -/
def replace (writer : HdfsWriter) (tmp : Path) : Program Hdfs Error Unit :=
  if writer.targetPathExists then
    Hdfs.call (.removeFile writer.targetPath) >>= fun _ =>
      Hdfs.call (.renameFile tmp writer.targetPath)
  else
    Hdfs.call (.renameFile tmp writer.targetPath)

/-- What is done with the open file changes no file. -/
inductive Ends : HdfsRequest → Prop where
  | closeFile : Ends .closeFile
  | flush : Ends .flush

variable {writer : HdfsWriter} {tmp : Path} {content : Bytes} {hdfs : Hdfs}
  {ends : HdfsRequest} {kind : StdErrorKind} {operation : HdfsOperation}

theorem Ends.effect (isEnd : Ends ends) (files : HdfsFiles) :
    ends.effect files = some files := by
  cases isEnd with
  | closeFile => rfl
  | flush => rfl

theorem Ends.ne_renameFile (isEnd : Ends ends) :
    ends.operation ≠ .renameFile := by
  cases isEnd with
  | closeFile => decide
  | flush => decide

theorem closeWith_eq (atomic : writer.tmpPath = some tmp) :
    writer.closeWith ends =
      (Hdfs.call ends >>= fun _ => writer.replace tmp) := by
  simp only [closeWith, atomic]
  rfl

theorem closeWith_of_idle (isEnd : Ends ends)
    (atomic : writer.tmpPath = some tmp)
    (idle : hdfs.failures ends.operation = []) :
    writer.closeWith ends hdfs = writer.replace tmp hdfs := by
  rw [closeWith_eq atomic]
  exact bind_ok (Hdfs.call_idle idle (isEnd.effect hdfs.files))

theorem effect_removeFile {old : Bytes}
    (present : hdfs.files writer.targetPath = some old) :
    (HdfsRequest.removeFile writer.targetPath).effect hdfs.files =
      some (Function.update hdfs.files writer.targetPath none) := by
  simp [HdfsRequest.effect, present]

section Replacing

variable (written : writer.Written tmp hdfs.files content)

include written

theorem Written.effect_renameFile :
    (HdfsRequest.renameFile tmp writer.targetPath).effect
      (Function.update hdfs.files writer.targetPath none) =
        some (Function.update
          (Function.update
            (Function.update hdfs.files writer.targetPath none) tmp none)
          writer.targetPath (some content)) := by
  simp [HdfsRequest.effect, Function.update_of_ne written.own,
    written.content]

theorem Written.replace_missing
    (missing : hdfs.files writer.targetPath = none) :
    writer.replace tmp hdfs =
      Hdfs.call (.renameFile tmp writer.targetPath) hdfs := by
  have unknown : writer.targetPathExists = false := by
    rw [written.known, missing]
    rfl
  simp only [replace, unknown, Bool.false_eq_true, if_false]

theorem Written.replace_present {old : Bytes}
    (present : hdfs.files writer.targetPath = some old) :
    writer.replace tmp hdfs =
      (Hdfs.call (.removeFile writer.targetPath) >>= fun _ =>
        Hdfs.call (.renameFile tmp writer.targetPath)) hdfs := by
  have known : writer.targetPathExists = true := by
    rw [written.known, present]
    rfl
  simp only [replace, known, if_true]

theorem Written.rename_missing
    (missing : hdfs.files writer.targetPath = none)
    (renames : hdfs.failures .renameFile = []) :
    ∃ later, writer.replace tmp hdfs = (.ok (), later) ∧
      later.files writer.targetPath = some content := by
  have same : Function.update hdfs.files writer.targetPath none =
      hdfs.files := by
    rw [← missing]
    exact Function.update_eq_self _ _
  have renamed := written.effect_renameFile
  rw [same] at renamed
  rw [written.replace_missing missing, Hdfs.call_idle renames renamed]
  exact ⟨_, rfl, Function.update_self _ _ _⟩

theorem Written.replace_idle (removes : hdfs.failures .removeFile = [])
    (renames : hdfs.failures .renameFile = []) :
    ∃ later, writer.replace tmp hdfs = (.ok (), later) ∧
      later.files writer.targetPath = some content := by
  cases target : hdfs.files writer.targetPath with
  | none => exact written.rename_missing target renames
  | some old =>
      have removed := effect_removeFile target
      rw [written.replace_present target]
      refine ⟨_, (bind_ok (Hdfs.call_idle removes removed)).trans
        (Hdfs.call_idle renames written.effect_renameFile), ?_⟩
      exact Function.update_self _ _ _

theorem Written.close_idle (isEnd : Ends ends)
    (idle : hdfs.failures ends.operation = [])
    (removes : hdfs.failures .removeFile = [])
    (renames : hdfs.failures .renameFile = []) :
    ∃ later, writer.closeWith ends hdfs = (.ok (), later) ∧
      later.files writer.targetPath = some content := by
  rw [closeWith_of_idle isEnd written.atomic idle]
  exact written.replace_idle removes renames

end Replacing

/-! ### One failure -/

/-- Only the rename must not fail, if there is something to lose. -/
def Harmless (writer : HdfsWriter) (files : HdfsFiles) :
    HdfsOperation → Prop
  | .renameFile => files writer.targetPath = none
  | _ => True

theorem Written.recovers_of_unchanged
    (written : writer.Written tmp hdfs.files content) (isEnd : Ends ends)
    (failed : writer.closeWith ends (hdfs.failingAt operation kind) =
      (.error (newStdIoError kind), hdfs.steady)) :
    Recovers (fun hdfs => hdfs.files writer.targetPath)
      (writer.closeWith ends) content (hdfs.failingAt operation kind) := by
  rw [recovers_error_iff failed]
  constructor
  · exact .inl rfl
  · intro temporary
    have again : writer.Written tmp hdfs.steady.files content := written
    obtain ⟨later, done, replaced⟩ := again.close_idle isEnd rfl rfl rfl
    rw [done]
    exact replaced

theorem Written.not_recovers
    (written : writer.Written tmp hdfs.files content) (isEnd : Ends ends)
    {old : Bytes} (present : hdfs.files writer.targetPath = some old) :
    ¬ Recovers (fun hdfs => hdfs.files writer.targetPath)
      (writer.closeWith ends) content
      (hdfs.failingAt .renameFile kind) := by
  have later : writer.Written tmp (hdfs.failingAt .renameFile kind).files
      content := written
  have idle : (hdfs.failingAt .renameFile kind).failures .removeFile = [] :=
    Hdfs.failures_failingAt_of_ne (by decide)
  let removed : Hdfs := { hdfs with
    files := Function.update hdfs.files writer.targetPath none }
  have failed : writer.closeWith ends (hdfs.failingAt .renameFile kind) =
      (.error (newStdIoError kind), removed.steady) := by
    rw [closeWith_of_idle isEnd written.atomic
      (Hdfs.failures_failingAt_of_ne isEnd.ne_renameFile),
      later.replace_present present]
    have able : (HdfsRequest.removeFile writer.targetPath).effect
        (hdfs.failingAt .renameFile kind).files = some removed.files :=
      effect_removeFile present
    apply (bind_ok (Hdfs.call_idle idle able)).trans
    show Hdfs.call _ (removed.failingAt .renameFile kind) = _
    exact Hdfs.call_failingAt rfl
  rw [recovers_error_iff failed]
  have missing : removed.steady.files writer.targetPath = none :=
    Function.update_self _ _ _
  have kept : (hdfs.failingAt .renameFile kind).files writer.targetPath =
      some old := present
  rw [missing, kept]
  simp

theorem Written.recovers_iff
    (written : writer.Written tmp hdfs.files content) (isEnd : Ends ends) :
    Recovers (fun hdfs => hdfs.files writer.targetPath)
        (writer.closeWith ends) content (hdfs.failingAt operation kind) ↔
      Harmless writer hdfs.files operation := by
  have later : writer.Written tmp (hdfs.failingAt operation kind).files
      content := written
  by_cases atEnd : ends.operation = operation
  · have failed : writer.closeWith ends (hdfs.failingAt operation kind) =
        (.error (newStdIoError kind), hdfs.steady) := by
      rw [closeWith_eq written.atomic]
      exact bind_error (Hdfs.call_failingAt atEnd)
    have harmless : Harmless writer hdfs.files operation := by
      rw [← atEnd]
      cases isEnd <;> trivial
    exact iff_of_true (written.recovers_of_unchanged isEnd failed) harmless
  · have idle : (hdfs.failingAt operation kind).failures ends.operation =
        [] := Hdfs.failures_failingAt_of_ne atEnd
    by_cases rename : operation = .renameFile
    · subst rename
      cases target : hdfs.files writer.targetPath with
      | some old =>
          apply iff_of_false (written.not_recovers isEnd target)
          simp [Harmless, target]
      | none =>
          have failed : writer.closeWith ends
              (hdfs.failingAt .renameFile kind) =
                (.error (newStdIoError kind), hdfs.steady) := by
            rw [closeWith_of_idle isEnd written.atomic idle,
              later.replace_missing target]
            exact Hdfs.call_failingAt rfl
          exact iff_of_true (written.recovers_of_unchanged isEnd failed)
            target
    · have harmless : Harmless writer hdfs.files operation := by
        cases operation with
        | renameFile => exact absurd rfl rename
        | closeFile => trivial
        | flush => trivial
        | removeFile => trivial
      refine iff_of_true ?_ harmless
      have renames : (hdfs.failingAt operation kind).failures .renameFile =
          [] := Hdfs.failures_failingAt_of_ne (Ne.symm rename)
      by_cases remove : operation = .removeFile
      · subst remove
        cases target : hdfs.files writer.targetPath with
        | some old =>
            apply written.recovers_of_unchanged isEnd
            rw [closeWith_of_idle isEnd written.atomic idle,
              later.replace_present target]
            exact bind_error (Hdfs.call_failingAt rfl)
        | none =>
            obtain ⟨last, done, replaced⟩ :=
              later.rename_missing target renames
            rw [← closeWith_of_idle isEnd written.atomic idle] at done
            exact recovers_of_ok done replaced
      · obtain ⟨last, done, replaced⟩ := later.close_idle isEnd idle
          (Hdfs.failures_failingAt_of_ne (Ne.symm remove)) renames
        exact recovers_of_ok done replaced

end HdfsWriter

/-! ## Both writers -/

open WebhdfsWriter in
/-- One step fails once.  A target that exists is lost if the rename fails, and
of two or more blocks none are left for a second attempt once they have been
concatenated. -/
theorem atomic_writes_iff (webhdfs : WebhdfsWriter) (writer : HdfsWriter) :
    (∀ {dir : Path} {service : Webhdfs} {first : Uuid} {others : List Uuid}
      {front : Bytes} {back : List Bytes} {answer : WebhdfsAnswer}
      {err : Error} {operation : WebhdfsOperation},
      webhdfs.backend.atomicWriteDir = some dir →
      webhdfs.Blocks dir service.files first others front back →
      answer.failure = some err →
      (Recovers (fun service => service.files webhdfs.target)
          (webhdfs.completeBlock first others) (front ++ back.flatten)
          (service.failingAt operation answer) ↔
        webhdfs.Harmless service.files others (front ++ back.flatten) err
          operation)) ∧
    (∀ {tmp : Path} {content : Bytes} {hdfs : Hdfs} {kind : StdErrorKind}
      {operation : HdfsOperation},
      writer.Written tmp hdfs.files content →
      (Recovers (fun hdfs => hdfs.files writer.targetPath) writer.close
          content (hdfs.failingAt operation kind) ↔
        writer.Harmless hdfs.files operation) ∧
      (Recovers (fun hdfs => hdfs.files writer.targetPath)
          writer.blockingClose content (hdfs.failingAt operation kind) ↔
        writer.Harmless hdfs.files operation)) := by
  constructor
  · intro dir service first others front back answer err operation
      atomic blocks fails
    exact blocks.recovers_iff atomic fails
  · intro tmp content hdfs kind operation written
    exact ⟨written.recovers_iff .closeFile, written.recovers_iff .flush⟩

/-! ### Two blocks -/

/-- The target is `/a`, and the blocks are below `/t`. -/
def twoBlocksWriter : WebhdfsWriter :=
  ⟨⟨['/'], some ['t', '/']⟩, ['a']⟩

def twoBlocksFile (blockId : Uuid) : Path :=
  twoBlocksWriter.blockFile ['t', '/'] blockId

/-- The files of the blocks, and the target if it exists. -/
def twoBlocksService (old : Option Bytes) : Webhdfs where
  files := Function.update (Function.update
    (Function.update (fun _ => none) twoBlocksWriter.target old)
    (twoBlocksFile (.ofLast 1)) (some [2]))
    (twoBlocksFile (.ofLast 0)) (some [1])
  answers _ := []
  accepted := []

theorem twoBlocksFile_ne_target (blockId : Uuid) :
    twoBlocksFile blockId ≠ twoBlocksWriter.target := by
  intro same
  have second := congrArg (fun path => path[1]?) same
  simp [twoBlocksFile, WebhdfsWriter.blockFile, WebhdfsWriter.target,
    twoBlocksWriter, WebhdfsBackend.file, buildAbsPath] at second

theorem twoBlocks_target (old : Option Bytes) :
    (twoBlocksService old).files twoBlocksWriter.target = old := by
  simp only [twoBlocksService]
  rw [Function.update_of_ne (twoBlocksFile_ne_target _).symm,
    Function.update_of_ne (twoBlocksFile_ne_target _).symm,
    Function.update_self]

theorem twoBlocks_first (old : Option Bytes) :
    (twoBlocksService old).files (twoBlocksFile (.ofLast 0)) = some [1] := by
  simp only [twoBlocksService, Function.update_self]

theorem twoBlocks_second (old : Option Bytes) :
    (twoBlocksService old).files (twoBlocksFile (.ofLast 1)) = some [2] := by
  have different : twoBlocksFile (.ofLast 1) ≠ twoBlocksFile (.ofLast 0) := by
    intro same
    have equal := twoBlocksWriter.blockFile_injective same
    exact absurd equal (by decide)
  simp only [twoBlocksService]
  rw [Function.update_of_ne different, Function.update_self]

theorem twoBlocks_written (old : Option Bytes) :
    twoBlocksWriter.Blocks ['t', '/'] (twoBlocksService old).files (.ofLast 0)
      [.ofLast 1] [1] [[2]] where
  front := twoBlocks_first old
  back := .cons (twoBlocks_second old) .nil
  distinct := by decide
  own := fun blockId _ => twoBlocksFile_ne_target blockId

/-- The service is overloaded. -/
def unavailable : WebhdfsAnswer :=
  .refused ⟨503, ""⟩ (by decide)

/-- The temporary file is `/t`, and the target `/a` has been there before. -/
def oneFileHdfs : Hdfs where
  files path :=
    if path = ['/', 't'] then some [1]
    else if path = ['/', 'a'] then some [9]
    else none
  failures _ := []

def oneFileWriter : HdfsWriter :=
  ⟨['/', 'a'], some ['/', 't'], true⟩

theorem oneFile_written :
    oneFileWriter.Written ['/', 't'] oneFileHdfs.files [1] where
  atomic := rfl
  content := rfl
  own := by decide
  known := rfl

/-- The rename fails, and the old content is lost; the deletion of a target
that did not exist fails, and the second attempt does not find the blocks; the
rename of the temporary file fails. -/
theorem atomic_writes_fail :
    ¬ Recovers (fun service => service.files twoBlocksWriter.target)
      (twoBlocksWriter.completeBlock (.ofLast 0) [.ofLast 1]) [1, 2]
      ((twoBlocksService (some [9])).failingAt .rename unavailable) ∧
    ¬ Recovers (fun service => service.files twoBlocksWriter.target)
      (twoBlocksWriter.completeBlock (.ofLast 0) [.ofLast 1]) [1, 2]
      ((twoBlocksService none).failingAt .delete unavailable) ∧
    ¬ Recovers (fun hdfs => hdfs.files oneFileWriter.targetPath)
      oneFileWriter.close [1]
      (oneFileHdfs.failingAt .renameFile .notFound) := by
  refine ⟨?_, ?_, ?_⟩
  · intro recovers
    have harmless := ((twoBlocks_written (some [9])).recovers_iff rfl rfl).mp
      recovers
    have kept := harmless.1
    rw [twoBlocks_target] at kept
    cases kept
  · intro recovers
    have harmless := ((twoBlocks_written none).recovers_iff rfl rfl).mp
      recovers
    rcases harmless with single | permanent | same
    · cases single
    · cases permanent
    · rw [twoBlocks_target] at same
      cases same
  · intro recovers
    have harmless := (oneFile_written.recovers_iff .closeFile).mp recovers
    cases harmless

/-- The concatenation, the deletion of a target with the same content and the
removal of the target fail. -/
theorem atomic_writes_iff_recovered :
    Recovers (fun service => service.files twoBlocksWriter.target)
      (twoBlocksWriter.completeBlock (.ofLast 0) [.ofLast 1]) [1, 2]
      ((twoBlocksService (some [9])).failingAt .concat unavailable) ∧
    Recovers (fun service => service.files twoBlocksWriter.target)
      (twoBlocksWriter.completeBlock (.ofLast 0) [.ofLast 1]) [1, 2]
      ((twoBlocksService (some [1, 2])).failingAt .delete unavailable) ∧
    Recovers (fun hdfs => hdfs.files oneFileWriter.targetPath)
      oneFileWriter.blockingClose [1]
      (oneFileHdfs.failingAt .removeFile (.other "timed out")) := by
  refine ⟨?_, ?_, ?_⟩
  · apply ((atomic_writes_iff twoBlocksWriter oneFileWriter).1 rfl
      (twoBlocks_written (some [9])) rfl).mpr
    trivial
  · apply ((atomic_writes_iff twoBlocksWriter oneFileWriter).1 rfl
      (twoBlocks_written (some [1, 2])) rfl).mpr
    exact .inr (.inr (twoBlocks_target (some [1, 2])))
  · apply ((atomic_writes_iff twoBlocksWriter oneFileWriter).2
      oneFile_written).2.mpr
    trivial

end OpenDal
