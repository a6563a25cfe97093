import OpenDal.Raw.BlockWriter
import OpenDal.Services.WebhdfsWriter

/-!
# Atomic writes on HDFS

The new content is written next to the target, which it then replaces: the
target is deleted first, and the new file is renamed.  Between these two steps
the target is missing, and the blocks of a WebHDFS writer are used up before
them.

Here one of the steps fails once, and changes nothing.
-/

namespace OpenDal

open Path Program

/-- The target keeps its old content or has the new one, and after a temporary
failure a second attempt leaves the new one. -/
def Recovers {σ : Type} (read : σ → Option Bytes)
    (attempt : Program σ Error Unit) (content : Bytes) (start : σ) : Prop :=
  (read (attempt start).2 = read start ∨
    read (attempt start).2 = some content) ∧
  ∀ err, (attempt start).1 = .error err → err.isTemporary = true →
    read (attempt (attempt start).2).2 = some content

section Recovery

variable {σ : Type} {read : σ → Option Bytes}
  {attempt : Program σ Error Unit} {content : Bytes} {start later : σ}

theorem recovers_of_ok (ended : attempt start = (.ok (), later))
    (replaced : read later = some content) :
    Recovers read attempt content start := by
  constructor
  · rw [ended]
    exact .inr replaced
  · intro err failed
    rw [ended] at failed
    cases failed

/-- What is left to show of an attempt that has failed. -/
theorem recovers_error_iff {err : Error}
    (failed : attempt start = (.error err, later)) :
    Recovers read attempt content start ↔
      (read later = read start ∨ read later = some content) ∧
        (err.isTemporary = true →
          read (attempt later).2 = some content) := by
  unfold Recovers
  rw [failed]
  simp

end Recovery

/-- When `close` has come to complete the blocks, and this fails, the next
`close` comes to complete the same blocks. -/
theorem BlockWriter.completes_again {U : Type} {writer later : BlockWriter U}
    {fresh : U} (again : U) (started : writer.started = true)
    (uncached : writer.cache = none)
    (polled : writer.pollClose fresh (.draining .unresumed) =
      some (later, .suspended .completing)) :
    later = writer ∧
      writer.pollClose again .unresumed =
        some (writer, .suspended (.draining .unresumed)) ∧
      writer.pollClose again (.draining .unresumed) =
        some (writer, .suspended .completing) := by
  have same : later = writer := by
    simp only [pollClose, ConcurrentTasks.pollNext] at polled
    split at polled
    · cases polled
    · split at polled
      · cases polled
      · split at polled
        · cases polled
          rfl
        · cases polled
  subst same
  refine ⟨rfl, ?_, polled⟩
  simp [pollClose, started, uncached]

/-! ## WebHDFS -/

namespace WebhdfsAnswer

/-- What the writer makes of an answer that is a failure. -/
def failure : WebhdfsAnswer → Option Error
  | served => none
  | refused response _ => some (parseWebhdfsError response)
  | unanswered err => some err

end WebhdfsAnswer

namespace Webhdfs

/-- The service, if it gives this answer to the next request of a kind and does
what it is asked from then on. -/
def failingAt (service : Webhdfs) (operation : WebhdfsOperation)
    (answer : WebhdfsAnswer) : Webhdfs :=
  { service with
    answers := Function.update (fun _ => []) operation [answer] }

/-- The service does what it is asked. -/
def steady (service : Webhdfs) : Webhdfs :=
  { service with answers := fun _ => [] }

variable {service : Webhdfs} {request : WebhdfsRequest}
  {accepts : Nat → Bool} {operation : WebhdfsOperation}
  {answer : WebhdfsAnswer} {files : HdfsFiles}

theorem answered_idle (idle : service.answers request.operation = []) :
    service.answered request = service := by
  have same : Function.update service.answers request.operation [] =
      service.answers := by
    rw [← idle]
    exact Function.update_eq_self _ _
  simp only [answered, idle, List.tail_nil, same]

theorem call_idle (successes : Successes accepts)
    (idle : service.answers request.operation = [])
    (possible : request.effect service.files = some files) :
    call request accepts service =
      (.ok (), { service with
        files
        accepted := service.accepted ++ [request] }) := by
  have served : service.nextAnswer request = .served := by
    simp [nextAnswer, idle]
  rw [call_served successes served possible, performed, answered_idle idle]

theorem call_idle_impossible (successes : Successes accepts)
    (idle : service.answers request.operation = [])
    (impossible : request.effect service.files = none) :
    call request accepts service =
      (.error (parseWebhdfsError notFound), service) := by
  have served : service.nextAnswer request = .served := by
    simp [nextAnswer, idle]
  rw [call_impossible successes served impossible, answered_idle idle]

theorem call_failingAt (successes : Successes accepts) {err : Error}
    (here : request.operation = operation)
    (fails : answer.failure = some err) :
    call request accepts (service.failingAt operation answer) =
      (.error err, service.steady) := by
  have queued : (service.failingAt operation answer).answers
      request.operation = [answer] := by
    simp [failingAt, here]
  have spent : (service.failingAt operation answer).answered request =
      service.steady := by
    simp only [answered, queued, List.tail_cons]
    simp [failingAt, steady, here]
  have next : (service.failingAt operation answer).nextAnswer request =
      answer := by
    simp [nextAnswer, queued]
  cases answer with
  | served => cases fails
  | refused response failed =>
      cases fails
      rw [call_refused successes next, spent]
  | unanswered err =>
      cases fails
      rw [call_unanswered next, spent]

theorem answers_failingAt_of_ne {other : WebhdfsOperation}
    (different : other ≠ operation) :
    (service.failingAt operation answer).answers other = [] := by
  simp [failingAt, Function.update_of_ne different]

end Webhdfs

namespace WebhdfsWriter

variable (writer : WebhdfsWriter)

def target : Path :=
  writer.backend.file writer.path

def blockFile (dir : Path) (blockId : Uuid) : Path :=
  writer.backend.file (dir ++ blockId.text)

/-- The blocks have been written. -/
structure Blocks (dir : Path) (files : HdfsFiles) (first : Uuid)
    (others : List Uuid) (front : Bytes) (back : List Bytes) : Prop where
  front : files (writer.blockFile dir first) = some front
  back : List.Forall₂
    (fun blockId body => files (writer.blockFile dir blockId) = some body)
    others back
  distinct : (first :: others).Nodup
  own : ∀ blockId ∈ first :: others,
    writer.blockFile dir blockId ≠ writer.target

theorem blockFile_injective {dir : Path} {left right : Uuid}
    (same : writer.blockFile dir left = writer.blockFile dir right) :
    left = right := by
  have inner : ∀ blockId : Uuid, dir ++ blockId.text ≠ ['/'] := by
    intro blockId root
    have lengths := congrArg List.length root
    rw [List.length_append, Uuid.length_text] at lengths
    simp at lengths
  simp only [blockFile, WebhdfsBackend.file, buildAbsPath, inner, if_false,
    List.cons.injEq, true_and, List.append_cancel_left_eq] at same
  exact Uuid.text_injective same

/-! ### The steps -/

/-- Delete the target, and rename the file of the first block. -/
def replace (file : Path) : Program Webhdfs Error Unit :=
  Webhdfs.call (.delete writer.target) onlyOk >>= fun _ =>
    Webhdfs.call (.rename file writer.target) onlyOk

/-- The request that concatenates the blocks. -/
def concat (dir : Path) (first : Uuid) (others : List Uuid) :
    WebhdfsRequest :=
  .concat (writer.blockFile dir first)
    (others.map (writer.blockFile dir))

variable {writer} {dir : Path} {first : Uuid} {others : List Uuid}
  {front : Bytes} {back : List Bytes} {service : Webhdfs}
  {answer : WebhdfsAnswer} {err : Error} {file : Path} {content : Bytes}

theorem completeBlock_single
    (atomic : writer.backend.atomicWriteDir = some dir) :
    writer.completeBlock first [] =
      writer.replace (writer.blockFile dir first) := by
  simp only [completeBlock, atomic]
  rfl

theorem completeBlock_several
    (atomic : writer.backend.atomicWriteDir = some dir)
    (several : others ≠ []) :
    writer.completeBlock first others =
      (Webhdfs.call (writer.concat dir first others) onlyOk >>= fun _ =>
        writer.replace (writer.blockFile dir first)) := by
  have sources : (others.map fun blockId => dir ++ blockId.text).map
      writer.backend.file = others.map (writer.blockFile dir) := by
    rw [List.map_map]
    rfl
  simp only [completeBlock, atomic, if_pos several,
    WebhdfsBackend.concatRequest, sources]
  rfl

theorem replace_idle (deletes : service.answers .delete = [])
    (renames : service.answers .rename = []) (own : file ≠ writer.target)
    (holds : service.files file = some content) :
    ∃ later, writer.replace file service = (.ok (), later) ∧
      later.files writer.target = some content := by
  have deleted : (WebhdfsRequest.delete writer.target).effect service.files =
      some (Function.update service.files writer.target none) := rfl
  have renamed : (WebhdfsRequest.rename file writer.target).effect
      (Function.update service.files writer.target none) =
        some (Function.update
          (Function.update
            (Function.update service.files writer.target none) file none)
          writer.target (some content)) := by
    simp [WebhdfsRequest.effect, Function.update_of_ne own, holds]
  have step := Webhdfs.call_idle Webhdfs.successes_onlyOk deletes deleted
  refine ⟨_, (bind_ok step).trans
    (Webhdfs.call_idle Webhdfs.successes_onlyOk renames renamed), ?_⟩
  exact Function.update_self _ _ _

theorem replace_failingAt_delete (fails : answer.failure = some err) :
    writer.replace file (service.failingAt .delete answer) =
      (.error err, service.steady) := by
  apply bind_error
  exact Webhdfs.call_failingAt Webhdfs.successes_onlyOk rfl fails

theorem replace_failingAt_rename (writer : WebhdfsWriter)
    (service : Webhdfs) (file : Path) (fails : answer.failure = some err) :
    ∃ later : Webhdfs,
      writer.replace file (service.failingAt .rename answer) =
        (.error err, later.steady) ∧
      later.files = Function.update service.files writer.target none := by
  have deleted : (WebhdfsRequest.delete writer.target).effect
      (service.failingAt .rename answer).files =
        some (Function.update service.files writer.target none) := rfl
  have different : WebhdfsOperation.delete ≠ .rename := by
    decide
  have idle : (service.failingAt .rename answer).answers .delete = [] :=
    Webhdfs.answers_failingAt_of_ne different
  have step := Webhdfs.call_idle Webhdfs.successes_onlyOk idle deleted
  let later : Webhdfs := { service with
    files := Function.update service.files writer.target none
    accepted := service.accepted ++ [.delete writer.target] }
  refine ⟨later, (bind_ok step).trans ?_, rfl⟩
  show Webhdfs.call _ onlyOk (later.failingAt .rename answer) = _
  exact Webhdfs.call_failingAt Webhdfs.successes_onlyOk rfl fails

/-- The files when the blocks have been concatenated. -/
def joined (writer : WebhdfsWriter) (dir : Path) (first : Uuid)
    (others : List Uuid) (files : HdfsFiles) (content : Bytes) : HdfsFiles :=
  Function.update
    (fun other =>
      if (others.map (writer.blockFile dir)).contains other then none
      else files other)
    (writer.blockFile dir first) (some content)

theorem joined_first (files : HdfsFiles) (content : Bytes) :
    writer.joined dir first others files content
      (writer.blockFile dir first) = some content :=
  Function.update_self _ _ _

section Joined

variable {files : HdfsFiles}
  (blocks : writer.Blocks dir files first others front back)

include blocks

theorem Blocks.mapM_back :
    (others.map (writer.blockFile dir)).mapM files = some back := by
  have found := blocks.back
  clear blocks
  induction found with
  | nil => rfl
  | cons present rest induction =>
      simp only [List.map_cons, List.mapM_cons, present, induction]
      rfl

theorem Blocks.effect_concat :
    (writer.concat dir first others).effect files =
      some (writer.joined dir first others files (front ++ back.flatten)) := by
  simp only [concat, WebhdfsRequest.effect, blocks.front, blocks.mapM_back]
  rfl

theorem Blocks.joined_target :
    writer.joined dir first others files (front ++ back.flatten)
      writer.target = files writer.target := by
  have notFirst : writer.target ≠ writer.blockFile dir first :=
    (blocks.own first List.mem_cons_self).symm
  have notOther : writer.target ∉ others.map (writer.blockFile dir) := by
    intro member
    obtain ⟨other, listed, same⟩ := List.mem_map.mp member
    exact blocks.own other (List.mem_cons_of_mem first listed) same
  rw [joined, Function.update_of_ne notFirst, if_neg]
  simpa using notOther

/-- The blocks are used up: they cannot be concatenated again, whatever has
become of the target. -/
theorem Blocks.effect_concat_joined (several : others ≠ [])
    {later : HdfsFiles}
    (gone : ∀ path ≠ writer.target, later path =
      writer.joined dir first others files (front ++ back.flatten) path) :
    (writer.concat dir first others).effect later = none := by
  obtain ⟨other, rest, rfl⟩ := List.exists_cons_of_ne_nil several
  have own := blocks.own other (by simp)
  have different : writer.blockFile dir other ≠
      writer.blockFile dir first := by
    intro same
    have equal := writer.blockFile_injective same
    exact (List.nodup_cons.mp blocks.distinct).1 (by simp [equal])
  have missing : later (writer.blockFile dir other) = none := by
    rw [gone _ own]
    simp [joined, Function.update_of_ne different]
  simp only [concat, WebhdfsRequest.effect, List.map_cons, List.mapM_cons,
    missing]
  cases later (writer.blockFile dir first) with
  | none => rfl
  | some bytes => rfl

end Joined

/-! ### One failure -/

/-- When a failure of a step does no harm. -/
def Harmless (writer : WebhdfsWriter) (files : HdfsFiles)
    (others : List Uuid) (content : Bytes) (err : Error) :
    WebhdfsOperation → Prop
  | .delete => others = [] ∨ err.isTemporary = false ∨
      files writer.target = some content
  | .rename => files writer.target = none ∧
      (others = [] ∨ err.isTemporary = false)
  | _ => True

theorem Blocks.congr {files later : HdfsFiles}
    (blocks : writer.Blocks dir files first others front back)
    (same : ∀ path ≠ writer.target, later path = files path) :
    writer.Blocks dir later first others front back where
  front := (same _ (blocks.own first List.mem_cons_self)).trans blocks.front
  back := by
    have own : ∀ blockId ∈ others,
        writer.blockFile dir blockId ≠ writer.target :=
      fun blockId member => blocks.own blockId (List.mem_cons_of_mem _ member)
    have found := blocks.back
    clear blocks
    induction found with
    | nil => exact .nil
    | cons present rest induction =>
        apply List.Forall₂.cons
        · exact (same _ (own _ List.mem_cons_self)).trans present
        · exact induction fun blockId member =>
            own blockId (List.mem_cons_of_mem _ member)
  distinct := blocks.distinct
  own := blocks.own

theorem eq_of_update_target {files later : HdfsFiles}
    (updated : later = Function.update files writer.target none) :
    ∀ path ≠ writer.target, later path = files path := by
  intro path other
  rw [updated, Function.update_of_ne other]

section Single

variable (atomic : writer.backend.atomicWriteDir = some dir)

include atomic

theorem Blocks.single_idle (service : Webhdfs)
    (blocks : writer.Blocks dir service.files first [] front [])
    (deletes : service.answers .delete = [])
    (renames : service.answers .rename = []) :
    ∃ later, writer.completeBlock first [] service = (.ok (), later) ∧
      later.files writer.target = some front := by
  rw [completeBlock_single atomic]
  exact replace_idle deletes renames (blocks.own first List.mem_cons_self)
    blocks.front

theorem Blocks.single_recovers_iff {operation : WebhdfsOperation}
    (blocks : writer.Blocks dir service.files first [] front [])
    (fails : answer.failure = some err) :
    Recovers (fun service => service.files writer.target)
        (writer.completeBlock first []) front
        (service.failingAt operation answer) ↔
      Harmless writer service.files [] front err operation := by
  by_cases delete : operation = .delete
  · subst delete
    have failed : writer.completeBlock first []
        (service.failingAt .delete answer) = (.error err, service.steady) := by
      rw [completeBlock_single atomic]
      exact replace_failingAt_delete fails
    rw [recovers_error_iff failed]
    obtain ⟨later, done, replaced⟩ :=
      Blocks.single_idle atomic service.steady blocks rfl rfl
    rw [done]
    simp [Harmless, replaced, Webhdfs.steady, Webhdfs.failingAt]
  · by_cases rename : operation = .rename
    · subst rename
      obtain ⟨broken, failed, updated⟩ := replace_failingAt_rename writer
        service (writer.blockFile dir first) fails
      rw [← completeBlock_single atomic] at failed
      rw [recovers_error_iff failed]
      have kept := blocks.congr (eq_of_update_target updated)
      obtain ⟨later, done, replaced⟩ :=
        Blocks.single_idle atomic broken.steady kept rfl rfl
      rw [done]
      have removed : broken.files writer.target = none := by
        rw [updated, Function.update_self]
      simp [Harmless, replaced, Webhdfs.steady, Webhdfs.failingAt, removed,
        eq_comm (a := none)]
    · obtain ⟨later, done, replaced⟩ := Blocks.single_idle atomic
        (service.failingAt operation answer) blocks
        (Webhdfs.answers_failingAt_of_ne (Ne.symm delete))
        (Webhdfs.answers_failingAt_of_ne (Ne.symm rename))
      have harmless : Harmless writer service.files [] front err operation := by
        cases operation <;> trivial
      exact iff_of_true (recovers_of_ok done replaced) harmless

end Single

section Several

variable (atomic : writer.backend.atomicWriteDir = some dir)
  (several : others ≠ [])

include atomic several

theorem Blocks.concat_idle (service : Webhdfs)
    (blocks : writer.Blocks dir service.files first others front back)
    (concats : service.answers .concat = []) :
    writer.completeBlock first others service =
      writer.replace (writer.blockFile dir first)
        { service with
          files := writer.joined dir first others service.files
            (front ++ back.flatten)
          accepted := service.accepted ++
            [writer.concat dir first others] } := by
  rw [completeBlock_several atomic several]
  exact bind_ok (Webhdfs.call_idle Webhdfs.successes_onlyOk concats
    blocks.effect_concat)

theorem Blocks.several_idle (service : Webhdfs)
    (blocks : writer.Blocks dir service.files first others front back)
    (concats : service.answers .concat = [])
    (deletes : service.answers .delete = [])
    (renames : service.answers .rename = []) :
    ∃ later, writer.completeBlock first others service = (.ok (), later) ∧
      later.files writer.target = some (front ++ back.flatten) := by
  rw [blocks.concat_idle atomic several service concats]
  exact replace_idle deletes renames (blocks.own first List.mem_cons_self)
    (joined_first _ _)

theorem Blocks.several_again {files : HdfsFiles} (service : Webhdfs)
    (blocks : writer.Blocks dir files first others front back)
    (gone : ∀ path ≠ writer.target, service.files path =
      writer.joined dir first others files (front ++ back.flatten) path) :
    writer.completeBlock first others service.steady =
      (.error (parseWebhdfsError Webhdfs.notFound), service.steady) := by
  rw [completeBlock_several atomic several]
  apply bind_error
  apply Webhdfs.call_idle_impossible Webhdfs.successes_onlyOk rfl
  exact blocks.effect_concat_joined several gone

theorem Blocks.several_recovers_iff {operation : WebhdfsOperation}
    (blocks : writer.Blocks dir service.files first others front back)
    (fails : answer.failure = some err) :
    Recovers (fun service => service.files writer.target)
        (writer.completeBlock first others) (front ++ back.flatten)
        (service.failingAt operation answer) ↔
      Harmless writer service.files others (front ++ back.flatten) err
        operation := by
  by_cases concat : operation = .concat
  · subst concat
    have failed : writer.completeBlock first others
        (service.failingAt .concat answer) = (.error err, service.steady) := by
      rw [completeBlock_several atomic several]
      apply bind_error
      exact Webhdfs.call_failingAt Webhdfs.successes_onlyOk rfl fails
    rw [recovers_error_iff failed]
    obtain ⟨later, done, replaced⟩ :=
      Blocks.several_idle atomic several service.steady blocks rfl rfl rfl
    rw [done]
    simp [Harmless, replaced, Webhdfs.steady, Webhdfs.failingAt]
  · let concatenated : Webhdfs := { service with
      files := writer.joined dir first others service.files
        (front ++ back.flatten)
      accepted := service.accepted ++ [writer.concat dir first others] }
    have joins : writer.completeBlock first others
        (service.failingAt operation answer) =
          writer.replace (writer.blockFile dir first)
            (concatenated.failingAt operation answer) :=
      blocks.concat_idle atomic several (service.failingAt operation answer)
        (Webhdfs.answers_failingAt_of_ne (Ne.symm concat))
    by_cases delete : operation = .delete
    · subst delete
      have failed : writer.completeBlock first others
          (service.failingAt .delete answer) =
            (.error err, concatenated.steady) := by
        rw [joins]
        exact replace_failingAt_delete fails
      rw [recovers_error_iff failed]
      rw [blocks.several_again atomic several concatenated
        (fun _ _ => rfl)]
      have kept : concatenated.files writer.target =
          service.files writer.target := blocks.joined_target
      simp only [Harmless, Webhdfs.steady, Webhdfs.failingAt, kept, several]
      cases err.isTemporary <;> simp
    · by_cases rename : operation = .rename
      · subst rename
        obtain ⟨broken, failed, updated⟩ := replace_failingAt_rename writer
          concatenated (writer.blockFile dir first) fails
        rw [← joins] at failed
        rw [recovers_error_iff failed]
        rw [blocks.several_again atomic several broken
          (eq_of_update_target updated)]
        have removed : broken.files writer.target = none := by
          rw [updated, Function.update_self]
        simp [Harmless, Webhdfs.steady, Webhdfs.failingAt, removed, several,
          eq_comm (a := none)]
      · obtain ⟨later, done, replaced⟩ := Blocks.several_idle atomic several
          (service.failingAt operation answer) blocks
          (Webhdfs.answers_failingAt_of_ne (Ne.symm concat))
          (Webhdfs.answers_failingAt_of_ne (Ne.symm delete))
          (Webhdfs.answers_failingAt_of_ne (Ne.symm rename))
        have harmless : Harmless writer service.files others
            (front ++ back.flatten) err operation := by
          cases operation <;> trivial
        exact iff_of_true (recovers_of_ok done replaced) harmless

end Several

/-- One of the steps of `complete_block` fails once. -/
theorem Blocks.recovers_iff {operation : WebhdfsOperation}
    (atomic : writer.backend.atomicWriteDir = some dir)
    (blocks : writer.Blocks dir service.files first others front back)
    (fails : answer.failure = some err) :
    Recovers (fun service => service.files writer.target)
        (writer.completeBlock first others) (front ++ back.flatten)
        (service.failingAt operation answer) ↔
      Harmless writer service.files others (front ++ back.flatten) err
        operation := by
  cases others with
  | nil =>
      cases blocks.back
      rw [List.flatten_nil, List.append_nil]
      exact blocks.single_recovers_iff atomic fails
  | cons other rest =>
      exact blocks.several_recovers_iff atomic (List.cons_ne_nil _ _) fails

end WebhdfsWriter

end OpenDal
