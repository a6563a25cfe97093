import OpenDal.Raw.BlockAbort
import OpenDal.Services.WebhdfsWriter

/-!
# What an abort leaves behind

A block writer names no block when it is aborted after writes, and a WebHDFS
writer deletes files of the root instead of those in the directory for atomic
writes.
-/

namespace OpenDal

open Path Program

/-- The files that the requests have made. -/
def createdPaths (requests : List WebhdfsRequest) : List Path :=
  requests.filterMap fun
    | .upload path _ => some path
    | _ => none

def deletedPaths (requests : List WebhdfsRequest) : List Path :=
  requests.filterMap fun
    | .delete path => some path
    | _ => none

namespace WebhdfsWriter

variable (writer : WebhdfsWriter)

/-- Write each block. -/
def writeBlocks : List (Uuid × Buffer) → Program Webhdfs Error Unit
  | [] => pure ()
  | (blockId, body) :: blocks => do
      writer.writeBlock blockId body
      writeBlocks blocks

/-- The requests that write the blocks to files with these paths. -/
def uploads (dir : Path) (blocks : List (Uuid × Buffer)) :
    List WebhdfsRequest :=
  blocks.flatMap fun (blockId, body) =>
    let path := writer.backend.file (dir ++ blockId.text)
    [.create path, .upload path body.bytes]

def deletions (blockIds : List Uuid) : List WebhdfsRequest :=
  blockIds.map fun blockId => .delete (writer.backend.file blockId.text)

theorem returns_createObjectRequest (path : Path) (body : Bytes)
    (service : Webhdfs) (request : WebhdfsRequest)
    (returned : (writer.backend.createObjectRequest path body service).1 =
      .ok request) :
    request = .upload (writer.backend.file path) body := by
  simp only [WebhdfsBackend.createObjectRequest, bind, andThen] at returned
  split at returned
  · cases returned
    rfl
  · cases returned

theorem emits_writeBlock {dir : Path}
    (atomic : writer.backend.atomicWriteDir = some dir) (blockId : Uuid)
    (body : Buffer) :
    Emits Webhdfs.accepted (writer.uploads dir [(blockId, body)])
      (writer.writeBlock blockId body) := by
  have created : Emits Webhdfs.accepted
      ([writer.backend.createRequest (dir ++ blockId.text)] ++ [])
      (writer.backend.createObjectRequest (dir ++ blockId.text)
        body.bytes) := by
    apply Emits.bind
    · exact Webhdfs.emits_call Webhdfs.successes_createdOrOk _
    · intro done
      exact emits_pure
  simp only [writeBlock, atomic]
  apply created.bindReturned
    (writer.returns_createObjectRequest (dir ++ blockId.text) body.bytes)
  intro request same
  rw [same]
  exact Webhdfs.emits_call Webhdfs.successes_createdOrOk _

theorem emits_writeBlocks {dir : Path}
    (atomic : writer.backend.atomicWriteDir = some dir)
    (blocks : List (Uuid × Buffer)) :
    Emits Webhdfs.accepted (writer.uploads dir blocks)
      (writer.writeBlocks blocks) := by
  induction blocks with
  | nil => exact emits_pure
  | cons block blocks induction =>
      obtain ⟨blockId, body⟩ := block
      apply (writer.emits_writeBlock atomic blockId body).bind
      intro done
      exact induction

theorem emits_abortBlock (blockIds : List Uuid) :
    Emits Webhdfs.accepted (writer.deletions blockIds)
      (writer.abortBlock blockIds) := by
  induction blockIds with
  | nil => exact emits_pure
  | cons blockId blockIds induction =>
      apply (Webhdfs.emits_call Webhdfs.successes_onlyOk _).bind
      intro done
      exact induction

theorem createdPaths_uploads (dir : Path) (blocks : List (Uuid × Buffer)) :
    createdPaths (writer.uploads dir blocks) =
      (blocks.map Prod.fst).map fun blockId =>
        writer.backend.file (dir ++ blockId.text) := by
  induction blocks with
  | nil => rfl
  | cons block blocks induction =>
      obtain ⟨blockId, body⟩ := block
      simp only [createdPaths, uploads, List.flatMap_cons,
        List.filterMap_append, List.map_cons] at induction ⊢
      rw [induction]
      rfl

theorem deletedPaths_deletions (blockIds : List Uuid) :
    deletedPaths (writer.deletions blockIds) =
      blockIds.map fun blockId => writer.backend.file blockId.text := by
  induction blockIds with
  | nil => rfl
  | cons blockId blockIds induction =>
      simp only [deletedPaths, deletions, List.map_cons,
        List.filterMap_cons] at induction ⊢
      rw [induction]

end WebhdfsWriter

theorem WebhdfsBackend.length_file (backend : WebhdfsBackend) (dir : Path)
    (blockId : Uuid) :
    (backend.file (dir ++ blockId.text)).length =
      1 + (backend.root.length - 1) + dir.length + 36 := by
  have inner : dir ++ blockId.text ≠ ['/'] := by
    intro same
    have lengths := congrArg List.length same
    rw [List.length_append, Uuid.length_text] at lengths
    simp at lengths
  simp only [WebhdfsBackend.file, buildAbsPath, if_neg inner,
    List.length_cons, List.length_append, List.length_drop,
    Uuid.length_text]
  omega

theorem WebhdfsWriter.paths_agree_iff (writer : WebhdfsWriter) (dir : Path)
    (blockIds : List Uuid) :
    (∀ path,
      path ∈ blockIds.map (fun blockId => writer.backend.file blockId.text) ↔
        path ∈ blockIds.map
          (fun blockId => writer.backend.file (dir ++ blockId.text))) ↔
      blockIds = [] ∨ dir = [] := by
  constructor
  · intro agree
    cases blockIds with
    | nil => exact .inl rfl
    | cons blockId blockIds =>
        apply Or.inr
        have deleted := (agree (writer.backend.file blockId.text)).mp
          List.mem_cons_self
        obtain ⟨other, _, same⟩ := List.mem_map.mp deleted
        have lengths := congrArg List.length same
        have short := writer.backend.length_file [] blockId
        rw [writer.backend.length_file dir other] at lengths
        rw [List.nil_append] at short
        rw [short, List.length_nil] at lengths
        apply List.eq_nil_of_length_eq_zero
        omega
  · intro trivially path
    rcases trivially with empty | empty
    · simp [empty]
    · simp [empty]

theorem WebhdfsWriter.deletes_created_iff (writer : WebhdfsWriter)
    (blocks : List (Uuid × Buffer)) {start written aborted : Webhdfs}
    (writes : writer.writeBlocks blocks start = (.ok (), written))
    (aborts : writer.abortBlock (blocks.map Prod.fst) written =
      (.ok (), aborted)) :
    ∃ requests purges,
      written.accepted = start.accepted ++ requests ∧
      aborted.accepted = written.accepted ++ purges ∧
      ((∀ path, path ∈ deletedPaths purges ↔ path ∈ createdPaths requests) ↔
        blocks = [] ∨ writer.backend.atomicWriteDir = some []) := by
  obtain ⟨purges, purged, _, all⟩ :=
    writer.emits_abortBlock (blocks.map Prod.fst) written
  rw [aborts] at purged all
  rw [all () rfl] at purged
  cases atomic : writer.backend.atomicWriteDir with
  | none =>
      cases blocks with
      | nil =>
          cases writes
          refine ⟨[], _, (List.append_nil _).symm, purged, ?_⟩
          simp [WebhdfsWriter.deletions, deletedPaths, createdPaths]
      | cons block blocks =>
          have failed : (writer.writeBlocks (block :: blocks) start).1 =
              .error WebhdfsWriter.unsupported := by
            simp [WebhdfsWriter.writeBlocks, WebhdfsWriter.writeBlock,
              atomic, bind, andThen, Program.fail]
          rw [writes] at failed
          cases failed
  | some dir =>
      obtain ⟨requests, logged, _, whole⟩ :=
        writer.emits_writeBlocks atomic blocks start
      rw [writes] at logged whole
      rw [whole () rfl] at logged
      refine ⟨_, _, logged, purged, ?_⟩
      rw [writer.deletedPaths_deletions, writer.createdPaths_uploads,
        writer.paths_agree_iff, List.map_eq_nil_iff, Option.some.injEq]

/-! ## Both parts -/

open BlockSession WriterSession

/-- An abort after writes names the blocks that have been written only if there
are none, and the files that it deletes are those of the blocks only if there
are none, or if no directory for atomic writes stands before their names. -/
theorem abort_purges_iff {U : Type} [ToString U] (uuid : Nat → U)
    (writer : WebhdfsWriter) :
    (∀ {capacity : Nat} {events : List (SessionEvent BlockSession.Event)}
      {session : Session U},
      (∀ event ∈ events, NotClose event) →
      Automaton.run (WriterSession.step (model uuid))
        (WriterSession.new (BlockSession.new capacity)) events =
          some session →
      ∀ {before after : List (HistoryEntry (BlockSession.ServiceCall U))},
        session.history = before ++ .aborted (.ok ()) :: after →
        (Purged (serviceLog before) ↔
          ∀ input, ¬ Written (serviceLog before) input)) ∧
    (∀ (blocks : List (Uuid × Buffer)) {start written aborted : Webhdfs},
      writer.writeBlocks blocks start = (.ok (), written) →
      writer.abortBlock (blocks.map Prod.fst) written = (.ok (), aborted) →
      ∃ requests purges,
        written.accepted = start.accepted ++ requests ∧
        aborted.accepted = written.accepted ++ purges ∧
        ((∀ path,
            path ∈ deletedPaths purges ↔ path ∈ createdPaths requests) ↔
          blocks = [] ∨ writer.backend.atomicWriteDir = some [])) := by
  constructor
  · intro capacity events session writes ran before after aborted
    exact purged_iff_of_run writes ran aborted
  · intro blocks start written aborted writes aborts
    exact writer.deletes_created_iff blocks writes aborts

/-- Two writes, the end of the task that the second one has submitted, and an
abort. -/
def abortedWrites (reply : WriteReply) :
    List (SessionEvent BlockSession.Event) :=
  [.call (.write (.fromBytes [1])), .resume .poll,
    .call (.write (.fromBytes [2])), .resume .poll, .resume .poll,
    .background (.finish 0 reply),
    .call .abort, .resume .poll, .resume (.aborted (.ok ()))]

theorem notClose_abortedWrites (reply : WriteReply) :
    ∀ event ∈ abortedWrites reply, NotClose event := by
  intro event member
  simp only [abortedWrites, List.mem_cons, List.not_mem_nil, or_false]
    at member
  rcases member with
    rfl | rfl | rfl | rfl | rfl | rfl | rfl | rfl | rfl <;> trivial

/-- What is in the history before the abort has returned. -/
def abortedHistory (reply : WriteReply) :
    List (HistoryEntry (BlockSession.ServiceCall Nat)) :=
  [.wrote (.fromBytes [1]) (.ok ()), .wrote (.fromBytes [2]) (.ok ()),
    .served (.writeBlock ⟨1, .fromBytes [1]⟩ reply),
    .served (.abortBlock [] (.ok ()))]

theorem not_purged_abortedHistory :
    ¬ Purged (serviceLog (abortedHistory (.answered (.ok ())))) := by
  intro purged
  obtain ⟨blockIds, answer, aborted, named⟩ :=
    purged ⟨1, .fromBytes [1]⟩ List.mem_cons_self
  have listed : ServiceCall.abortBlock blockIds answer ∈
      [.writeBlock ⟨1, .fromBytes [1]⟩ (.answered (.ok ())),
        .abortBlock [] (.ok ())] := aborted
  simp only [List.mem_cons, reduceCtorEq, ServiceCall.abortBlock.injEq,
    List.not_mem_nil, or_false, false_or] at listed
  rw [listed.1] at named
  cases named

theorem run_abortedWrites (reply : WriteReply) :
    ∃ session : Session Nat,
      Automaton.run (WriterSession.step (model id))
        (WriterSession.new (BlockSession.new 2)) (abortedWrites reply) =
          some session ∧
      session.history = abortedHistory reply ++ [.aborted (.ok ())] := by
  cases reply with
  | answered result => exact ⟨_, rfl, rfl⟩
  | timedOut => exact ⟨_, rfl, rfl⟩

/-- A service without files that does what it is asked. -/
def emptyWebhdfs : Webhdfs :=
  ⟨fun _ => none, fun _ => [], []⟩

def abortedWriter (dir : Path) : WebhdfsWriter :=
  ⟨⟨['/'], some dir⟩, ['a']⟩

theorem run_abortedWriter (dir : Path) :
    ∃ written aborted,
      (abortedWriter dir).writeBlocks [(Uuid.ofLast 0, .fromBytes [1])]
        emptyWebhdfs = (.ok (), written) ∧
      (abortedWriter dir).abortBlock [Uuid.ofLast 0] written =
        (.ok (), aborted) :=
  ⟨_, _, rfl, rfl⟩

/-- The block that has been written is not named; the file that is deleted is
not that of the block. -/
theorem abort_leaves_blocks :
    (∃ session : Session Nat,
      Automaton.run (WriterSession.step (model id))
        (WriterSession.new (BlockSession.new 2))
        (abortedWrites (.answered (.ok ()))) = some session ∧
      session.history = abortedHistory (.answered (.ok ())) ++
        [.aborted (.ok ())] ∧
      ¬ Purged (serviceLog (abortedHistory (.answered (.ok ()))))) ∧
    ∃ written aborted requests purges,
      (abortedWriter ['t', '/']).writeBlocks [(Uuid.ofLast 0, .fromBytes [1])]
        emptyWebhdfs = (.ok (), written) ∧
      (abortedWriter ['t', '/']).abortBlock [Uuid.ofLast 0] written =
        (.ok (), aborted) ∧
      written.accepted = requests ∧
      aborted.accepted = written.accepted ++ purges ∧
      ¬ ∀ path, path ∈ deletedPaths purges ↔ path ∈ createdPaths requests := by
  constructor
  · obtain ⟨session, ran, same⟩ := run_abortedWrites (.answered (.ok ()))
    exact ⟨session, ran, same, not_purged_abortedHistory⟩
  · obtain ⟨written, aborted, uploaded, deleted⟩ :=
      run_abortedWriter ['t', '/']
    obtain ⟨requests, purges, logged, purged, agrees⟩ :=
      (abortedWriter ['t', '/']).deletes_created_iff
        [(Uuid.ofLast 0, .fromBytes [1])] uploaded deleted
    refine ⟨written, aborted, requests, purges, uploaded, deleted, logged,
      purged, ?_⟩
    rw [agrees]
    decide

/-- The block fails, so that there is nothing to purge, and the directory has
an empty name. -/
theorem abort_purges_iff_failed :
    Purged (serviceLog
      (abortedHistory (.answered (.error (.new .unexpected ""))))) ∧
    ∃ written aborted requests purges,
      (abortedWriter []).writeBlocks [(Uuid.ofLast 0, .fromBytes [1])]
        emptyWebhdfs = (.ok (), written) ∧
      (abortedWriter []).abortBlock [Uuid.ofLast 0] written =
        (.ok (), aborted) ∧
      written.accepted = requests ∧
      aborted.accepted = written.accepted ++ purges ∧
      ∀ path, path ∈ deletedPaths purges ↔ path ∈ createdPaths requests := by
  constructor
  · obtain ⟨session, ran, same⟩ :=
      run_abortedWrites (.answered (.error (.new .unexpected "")))
    apply ((abort_purges_iff id (abortedWriter [])).1
      (notClose_abortedWrites _) ran same).mpr
    intro input written
    have listed : ServiceCall.writeBlock input (.answered (.ok ())) ∈
        [.writeBlock ⟨1, .fromBytes [1]⟩
            (.answered (.error (.new .unexpected ""))),
          ServiceCall.abortBlock [] (.ok ())] := written
    simp at listed
  · obtain ⟨written, aborted, uploaded, deleted⟩ := run_abortedWriter []
    obtain ⟨requests, purges, logged, purged, agrees⟩ :=
      (abort_purges_iff (id : Nat → Nat) (abortedWriter [])).2
        [(Uuid.ofLast 0, .fromBytes [1])] uploaded deleted
    exact ⟨written, aborted, requests, purges, uploaded, deleted, logged,
      purged, agrees.mpr (.inr rfl)⟩

end OpenDal
