import Mathlib.Algebra.Order.BigOperators.Group.List
import Mathlib.Algebra.Order.Group.Nat
import Mathlib.Data.List.Dedup
import OpenDal.Services.ObjectDelete

/-!
# Batches that are deleted exactly

What a batch deletion has to do: name the pairs of the batch in the request,
report each of them once, and so leave in the buffer of the `BatchDeleter` what
has not been deleted, with `cur_size` equal to its size.

Both deleters report pairs without a version, so a pair with a version is never
taken out of the buffer.
-/

namespace OpenDal

open Path

/-- The pairs that were deleted and those that were not. -/
structure Partitions (deleted : Path × OpDelete → Bool)
    (batch : List (Path × OpDelete)) (result : BatchDeleteResult) :
    Prop where
  succeeded : result.succeeded.Perm (batch.filter deleted)
  failed : (result.failed.map fun (path, op, _) => (path, op)).Perm
    (batch.filter fun pair => !deleted pair)

section Exact

variable {S : Type} [BatchDelete S]

/-- A deletion of the batch by `service`, where `request` is what the server
was asked for, `object` is what stands for a pair, and `deleted` says what the
server has deleted. -/
structure DeletesExactly (service : S) (object : Path × OpDelete → RequestObject)
    (request : List RequestObject) (deleted : Path × OpDelete → Bool)
    (batch : List (Path × OpDelete)) : Prop where
  /-- The request names the pairs of the batch. -/
  names : request.Perm (batch.map object)
  /-- The result is about the pairs of the batch. -/
  reports : ∀ result, (deleteBatch service batch).1 = .ok result →
    Partitions deleted batch result
  /-- Without a result nothing has been deleted. -/
  refuses : ∀ err, (deleteBatch service batch).1 = .error err →
    ∀ pair ∈ batch, deleted pair = false
  /-- The buffer keeps what has not been deleted. -/
  buffer : ∀ d : BatchDeleter S, d.inner = service → d.buffer = batch →
    d.flush.2.buffer.Perm (batch.filter fun pair => !deleted pair)
  /-- `cur_size` does not underflow and stays the size of the buffer. -/
  counts : ∀ d : Deleter (BatchDeleter S), d.deleter.inner = service →
    d.deleter.buffer = batch → d.curSize = batch.length →
    ∃ result later, d.flush = some (result, later) ∧
      later.curSize = later.deleter.buffer.length
  /-- So it reaches 0. -/
  closes : (∀ pair ∈ batch, deleted pair = true) →
    ∀ d : Deleter (BatchDeleter S), d.deleter.inner = service →
    d.deleter.buffer = batch → d.curSize = batch.length →
    ∃ closed, d.close 1 = some (.ok (), closed) ∧ closed.curSize = 0 ∧
      closed.deleter.buffer = []

variable {service : S} {object : Path × OpDelete → RequestObject}
  {request : List RequestObject} {deleted : Path × OpDelete → Bool}
  {batch : List (Path × OpDelete)} {result : BatchDeleteResult} {err : Error}

/-! ## Flushes -/

theorem flush_eq_batch {d : BatchDeleter S} (several : 2 ≤ d.buffer.length) :
    d.flush = match deleteBatch d.inner d.buffer with
      | (.error err, inner) => (.error err, { d with inner })
      | (.ok result, inner) =>
          let d := { d with inner }.removeFromBuffer result.succeeded
          match result.failed.find? fun (_, _, err) => !err.isTemporary with
          | some (path, op, err) =>
              (.error ((err.withContext "path"
                (String.ofList path)).withContext
                "version" (op.version.getD "<latest>")), d)
          | none => (.ok result.succeeded.length, d) := by
  obtain ⟨inner, buffer, distinct⟩ := d
  cases buffer with
  | nil => cases several
  | cons first rest =>
      cases rest with
      | nil => exact absurd several (Nat.not_succ_le_self 1)
      | cons second rest => rfl

theorem flush_refused {d : BatchDeleter S} (inner : d.inner = service)
    (buffered : d.buffer = batch) (several : 2 ≤ batch.length)
    (refused : (deleteBatch service batch).1 = .error err) :
    d.flush.1 = .error err ∧ d.flush.2.buffer = batch := by
  subst inner
  subst buffered
  rw [flush_eq_batch several]
  split
  · rename_i same
    rw [same, Except.error.injEq] at refused
    exact ⟨by rw [refused], rfl⟩
  · rename_i same
    rw [same] at refused
    cases refused

theorem flush_reported {d : BatchDeleter S} (inner : d.inner = service)
    (buffered : d.buffer = batch) (several : 2 ≤ batch.length)
    (reported : (deleteBatch service batch).1 = .ok result) :
    d.flush.2.buffer = batch.diff result.succeeded ∧
      ((∀ failure ∈ result.failed, failure.2.2.isTemporary = true) →
        d.flush.1 = .ok result.succeeded.length) ∧
      ((¬ ∀ failure ∈ result.failed, failure.2.2.isTemporary = true) →
        ∃ err, d.flush.1 = .error err) := by
  subst inner
  subst buffered
  rw [flush_eq_batch several]
  split
  · rename_i same
    rw [same] at reported
    cases reported
  · rename_i other inner same
    rw [same, Except.ok.injEq] at reported
    subst reported
    simp only
    split
    · rename_i path op err found
      refine ⟨rfl, ?_, fun _ => ⟨_, rfl⟩⟩
      intro temporary
      have permanent := List.find?_some found
      have member := List.mem_of_find?_eq_some found
      simp [temporary _ member] at permanent
    · rename_i none
      refine ⟨rfl, fun _ => rfl, ?_⟩
      intro permanent
      exfalso
      apply permanent
      intro failure member
      have temporary := List.find?_eq_none.mp none failure member
      simpa using temporary

theorem diff_succeeded (distinct : batch.Nodup)
    (partitions : Partitions deleted batch result) :
    batch.diff result.succeeded = batch.filter fun pair => !deleted pair := by
  rw [distinct.sdiff_eq_filter]
  apply List.filter_congr
  intro pair member
  rw [← Bool.not_eq_not, Bool.not_not]
  simp [partitions.succeeded.mem_iff, member]

theorem flush_of_error {d : Deleter (BatchDeleter S)}
    (failed : d.deleter.flush.1 = .error err) :
    d.flush = some (.error err, { d with deleter := d.deleter.flush.2 }) := by
  simp only [Deleter.flush, Delete.flush]
  split
  · rename_i same
    rw [same] at failed
    cases failed
    rw [same]
  · rename_i same
    rw [same] at failed
    cases failed

theorem flush_of_ok {d : Deleter (BatchDeleter S)} {count : Nat}
    (succeeded : d.deleter.flush.1 = .ok count) (enough : count ≤ d.curSize) :
    d.flush = some (.ok count,
      { d with deleter := d.deleter.flush.2, curSize := d.curSize - count }) := by
  simp only [Deleter.flush, Delete.flush]
  split
  · rename_i same
    rw [same] at succeeded
    cases succeeded
  · rename_i same
    rw [same] at succeeded
    cases succeeded
    rw [if_pos enough, same]

/-! ## When a batch is deleted exactly -/

theorem deletesExactly_of_refused (several : 2 ≤ batch.length)
    (names : request.Perm (batch.map object))
    (refused : (deleteBatch service batch).1 = .error err)
    (nothing : ∀ pair ∈ batch, deleted pair = false) :
    DeletesExactly service object request deleted batch where
  names := names
  reports := by
    intro result reported
    rw [refused] at reported
    cases reported
  refuses _ _ := nothing
  buffer := by
    intro d inner buffered
    rw [(flush_refused inner buffered several refused).2]
    have all : batch.filter (fun pair => !deleted pair) = batch := by
      rw [List.filter_eq_self]
      intro pair member
      simp [nothing pair member]
    rw [all]
  counts := by
    intro d inner buffered counted
    obtain ⟨failed, kept⟩ := flush_refused inner buffered several refused
    refine ⟨.error err, _, flush_of_error failed, ?_⟩
    rw [kept]
    exact counted
  closes := by
    intro all
    obtain ⟨pair, member⟩ := List.exists_mem_of_length_pos
      (Nat.lt_of_lt_of_le Nat.zero_lt_two several)
    have contradiction := all pair member
    rw [nothing pair member] at contradiction
    cases contradiction

/-- What a `Deleter` makes of a result without permanent failures. -/
theorem flush_counted {d : Deleter (BatchDeleter S)}
    (inner : d.deleter.inner = service) (buffered : d.deleter.buffer = batch)
    (counted : d.curSize = batch.length) (several : 2 ≤ batch.length)
    (reported : (deleteBatch service batch).1 = .ok result)
    (partitions : Partitions deleted batch result)
    (temporary : ∀ failure ∈ result.failed, failure.2.2.isTemporary = true) :
    ∃ later, d.flush = some (.ok result.succeeded.length, later) ∧
      later.deleter.buffer = batch.filter (fun pair => !deleted pair) ∧
      later.curSize = (batch.filter fun pair => !deleted pair).length := by
  obtain ⟨kept, succeeds, -⟩ := flush_reported inner buffered several reported
  have distinct : batch.Nodup := buffered ▸ d.deleter.distinct
  have total := List.length_eq_length_filter_add (l := batch) deleted
  have size := partitions.succeeded.length_eq
  have enough : result.succeeded.length ≤ d.curSize := by omega
  refine ⟨_, flush_of_ok (succeeds temporary) enough, ?_, ?_⟩
  · rw [← diff_succeeded distinct partitions]
    exact kept
  · simp only
    omega

theorem deletesExactly_of_reported (distinct : batch.Nodup)
    (several : 2 ≤ batch.length) (names : request.Perm (batch.map object))
    (reported : (deleteBatch service batch).1 = .ok result)
    (partitions : Partitions deleted batch result)
    (temporary : ∀ failure ∈ result.failed, failure.2.2.isTemporary = true) :
    DeletesExactly service object request deleted batch where
  names := names
  reports := by
    intro other same
    rw [reported, Except.ok.injEq] at same
    exact same ▸ partitions
  refuses := by
    intro err refused
    rw [reported] at refused
    cases refused
  buffer := by
    intro d inner buffered
    rw [(flush_reported inner buffered several reported).1,
      diff_succeeded distinct partitions]
  counts := by
    intro d inner buffered counted
    obtain ⟨later, flushed, kept, size⟩ := flush_counted inner buffered
      counted several reported partitions temporary
    exact ⟨_, later, flushed, by rw [kept, size]⟩
  closes := by
    intro all d inner buffered counted
    obtain ⟨later, flushed, kept, size⟩ := flush_counted inner buffered
      counted several reported partitions temporary
    have empty : batch.filter (fun pair => !deleted pair) = [] := by
      rw [List.filter_eq_nil_iff]
      intro pair member
      simp [all pair member]
    rw [empty] at kept size
    refine ⟨later, ?_, size, kept⟩
    have zero : later.curSize = 0 := size
    simp only [Deleter.close, flushed, zero, if_true]

/-- A flush that fails does not change `cur_size`, and what was deleted has
left the buffer. -/
theorem temporary_of_deletesExactly (distinct : batch.Nodup)
    (several : 2 ≤ batch.length)
    (exact : DeletesExactly service object request deleted batch)
    (reported : (deleteBatch service batch).1 = .ok result)
    (filled : result.succeeded ≠ []) :
    ∀ failure ∈ result.failed, failure.2.2.isTemporary = true := by
  by_contra permanent
  have partitions := exact.reports result reported
  obtain ⟨kept, -, fails⟩ := flush_reported
    (d := ⟨service, batch, distinct⟩) rfl rfl several reported
  obtain ⟨err, failed⟩ := fails permanent
  obtain ⟨outcome, later, flushed, size⟩ := exact.counts
    ⟨⟨service, batch, distinct⟩, batch.length, batch.length⟩ rfl rfl rfl
  rw [flush_of_error failed, Option.some.injEq, Prod.mk.injEq] at flushed
  rw [← flushed.2] at size
  simp only [kept, diff_succeeded distinct partitions] at size
  have total := List.length_eq_length_filter_add (l := batch) deleted
  have deletedSize := partitions.succeeded.length_eq
  have positive := List.length_pos_iff.mpr filled
  omega

end Exact

/-! ## What a reply reports -/

section Reply

variable {root : Root} {verdict : RequestObject → Option (String × String)}
  {request : List RequestObject} {batch : List (Path × OpDelete)}
  {reply : DeleteReply}

/-- The pair that both deleters report for an object. -/
def reported (root : Root) (object : RequestObject) : Path × OpDelete :=
  (buildRelPath root.path object.key, OpDelete.new)

theorem map_object_filterMap
    (verdict : RequestObject → Option (String × String))
    (request : List RequestObject) :
    (request.filterMap fun object => (verdict object).map
      fun (code, message) =>
        (⟨object, code, message⟩ : ObjectError)).map ObjectError.object =
      request.filter fun object => !(verdict object).isNone := by
  induction request with
  | nil => rfl
  | cons object request induction =>
      cases decided : verdict object with
      | none =>
          rw [List.filterMap_cons_none (by simp [decided]), induction,
            List.filter_cons_of_neg (by simp [decided])]
      | some text =>
          rw [List.filterMap_cons_some (by rw [decided, Option.map_some]),
            List.map_cons, induction,
            List.filter_cons_of_pos (by simp [decided])]

theorem objects_error (answers : Answers verdict request reply) :
    (reply.error.map ObjectError.object).Perm
      (request.filter fun object => !(verdict object).isNone) := by
  rw [← map_object_filterMap]
  exact answers.error.map ObjectError.object

theorem objects_reply (answers : Answers verdict request reply) :
    (reply.deleted ++ reply.error.map ObjectError.object).Perm request :=
  (answers.deleted.append (objects_error answers)).trans
    (List.filter_append_perm _ _)

theorem nothing_iff (answers : Answers verdict request reply) :
    reply.deleted = [] ↔ ∀ object ∈ request, (verdict object).isNone = false := by
  rw [← List.perm_nil]
  constructor
  · intro empty object member
    have none := answers.deleted.symm.trans empty
    rw [List.perm_nil, List.filter_eq_nil_iff] at none
    exact Bool.eq_false_of_not_eq_true (none object member)
  · intro all
    apply answers.deleted.trans
    rw [List.perm_nil, List.filter_eq_nil_iff]
    intro object member
    simp [all object member]

/-- Only pairs without a version whose paths come back are reported. -/
theorem returns_of_perm
    (permuted : (batch.map fun pair =>
      (buildRelPath root.path (buildAbsPath root.path pair.1),
        OpDelete.new)).Perm batch) :
    ∀ pair ∈ batch, pair.2.version = none ∧ root.Returns pair.1 := by
  intro pair member
  constructor
  · have reported := permuted.mem_iff.mpr member
    rw [List.mem_map] at reported
    obtain ⟨other, -, same⟩ := reported
    rw [← same]
    rfl
  · by_contra other
    -- the paths are never longer, so one that is shorter is missed in the sum
    have sums := (permuted.map fun pair => pair.1.length).sum_nat
    rw [List.map_map] at sums
    have less : (batch.map ((fun pair : Path × OpDelete => pair.1.length) ∘
        fun pair => (buildRelPath root.path
          (buildAbsPath root.path pair.1), OpDelete.new))).sum <
        (batch.map fun pair => pair.1.length).sum := by
      apply List.sum_lt_sum
      · intro pair _
        exact root.length_buildRelPath_le pair.1
      · exact ⟨pair, member, Root.length_buildRelPath_lt other⟩
    omega

theorem reported_object (object : Path × OpDelete → RequestObject)
    (keys : ∀ pair, (object pair).key = buildAbsPath root.path pair.1)
    (plain : ∀ pair ∈ batch, pair.2.version = none ∧ root.Returns pair.1) :
    ∀ pair ∈ batch, reported root (object pair) = pair := by
  intro pair member
  obtain ⟨unversioned, returns⟩ := plain pair member
  obtain ⟨path, ⟨version⟩⟩ := pair
  simp only at unversioned
  subst unversioned
  rw [reported, keys, Root.buildRelPath_buildAbsPath returns]
  rfl

theorem map_reported_filter {object : Path × OpDelete → RequestObject}
    (whole : ∀ pair ∈ batch, reported root (object pair) = pair)
    (chosen : RequestObject → Bool) :
    ((batch.map object).filter chosen).map (reported root) =
      batch.filter fun pair => chosen (object pair) := by
  rw [List.filter_map, List.map_map]
  have same := List.map_congr_left fun pair
    (member : pair ∈ batch.filter (chosen ∘ object)) =>
      whole pair (List.mem_of_mem_filter member)
  rw [List.map_id'] at same
  exact same

end Reply

/-! ## `S3Deleter` -/

/-- A code whose error is temporary. -/
def retryable (code : String) : Bool :=
  ((parseS3ErrorCode code).getD (.unexpected, false)).2

theorem isTemporary_parseDeleteObjectsResultError (err : ObjectError) :
    (parseDeleteObjectsResultError err).isTemporary = retryable err.code := by
  unfold parseDeleteObjectsResultError retryable
  generalize (parseS3ErrorCode err.code).getD (.unexpected, false) = parsed
  obtain ⟨kind, temporary⟩ := parsed
  cases temporary with
  | true => rfl
  | false => rfl

section S3

variable {deleter : S3Deleter} {batch : List (Path × OpDelete)}
  {verdict : RequestObject → Option (String × String)} {reply : DeleteReply}

theorem s3_report_eq (filled : reply.deleted ≠ []) :
    deleter.report reply = some (.ok
      { succeeded := reply.deleted.map (reported deleter.core.root)
        failed := reply.error.map fun i =>
          (buildRelPath deleter.core.root.path i.object.key, OpDelete.new,
            parseDeleteObjectsResultError i) }) := by
  have notEmpty : reply.deleted.isEmpty = false := by simp [filled]
  rw [S3Deleter.report, notEmpty]
  rfl

theorem s3_report_refuses (deleter : S3Deleter) (empty : reply.deleted = [])
    (filled : reply.error ≠ []) :
    ∃ err, deleter.report reply = some (.error err) := by
  cases errors : reply.error with
  | nil => exact absurd errors filled
  | cons err rest =>
      refine ⟨parseDeleteObjectsResultError err, ?_⟩
      simp [S3Deleter.report, empty, errors]

theorem s3_outcome
    (answered : deleter.core.deleteObjects
      (deleter.core.deleteObjectsRequest batch) = .ok reply) :
    (deleteBatch deleter batch).1 = orPanicked (deleter.report reply) := by
  simp only [deleteBatch, S3Deleter.deleteBatch, answered]

/-- An exact deletion gives all paths back, and what has failed is
temporary. -/
theorem s3_plain_of_exact (distinct : batch.Nodup)
    (several : 2 ≤ batch.length)
    (answered : deleter.core.deleteObjects
      (deleter.core.deleteObjectsRequest batch) = .ok reply)
    (answers : Answers verdict (deleter.core.deleteObjectsRequest batch)
      reply)
    (filled : reply.deleted ≠ [])
    (exact : DeletesExactly deleter deleter.core.object
      (deleter.core.deleteObjectsRequest batch)
      (fun pair => (verdict (deleter.core.object pair)).isNone) batch) :
    (∀ pair ∈ batch,
        pair.2.version = none ∧ deleter.core.root.Returns pair.1) ∧
      ∀ pair ∈ batch, ∀ code message,
        verdict (deleter.core.object pair) = some (code, message) →
          retryable code = true := by
  have outcome := s3_outcome answered
  rw [s3_report_eq filled] at outcome
  have partitions := exact.reports _ outcome
  constructor
  · apply returns_of_perm
    have total := (partitions.succeeded.append partitions.failed).trans
      (List.filter_append_perm _ _)
    refine .trans ?_ total
    have permuted :=
      ((objects_reply answers).map (reported deleter.core.root)).symm
    rw [S3Core.deleteObjectsRequest, List.map_map, List.map_append,
      List.map_map] at permuted
    rw [List.map_map]
    exact permuted
  · intro pair member code message failed
    have temporary := temporary_of_deletesExactly distinct several exact
      outcome (by simpa using filled)
    have listed : (⟨deleter.core.object pair, code, message⟩ :
        ObjectError) ∈ reply.error := by
      rw [answers.error.mem_iff, List.mem_filterMap]
      exact ⟨_, List.mem_map_of_mem member, by rw [failed]; rfl⟩
    rw [← isTemporary_parseDeleteObjectsResultError
      ⟨deleter.core.object pair, code, message⟩]
    exact temporary _ (List.mem_map_of_mem listed)

theorem s3_exact_of_plain (distinct : batch.Nodup)
    (several : 2 ≤ batch.length)
    (answered : deleter.core.deleteObjects
      (deleter.core.deleteObjectsRequest batch) = .ok reply)
    (answers : Answers verdict (deleter.core.deleteObjectsRequest batch)
      reply)
    (filled : reply.deleted ≠ [])
    (plain : ∀ pair ∈ batch,
      pair.2.version = none ∧ deleter.core.root.Returns pair.1)
    (temporary : ∀ pair ∈ batch, ∀ code message,
      verdict (deleter.core.object pair) = some (code, message) →
        retryable code = true) :
    DeletesExactly deleter deleter.core.object
      (deleter.core.deleteObjectsRequest batch)
      (fun pair => (verdict (deleter.core.object pair)).isNone) batch := by
  have outcome := s3_outcome answered
  rw [s3_report_eq filled] at outcome
  have whole := reported_object deleter.core.object (fun _ => rfl) plain
  apply deletesExactly_of_reported distinct several (.refl _) outcome
  · constructor
    · rw [← map_reported_filter whole fun object => (verdict object).isNone]
      exact answers.deleted.map _
    · rw [← map_reported_filter whole fun object =>
        !(verdict object).isNone, List.map_map]
      have permuted :=
        (objects_error answers).map (reported deleter.core.root)
      rw [List.map_map] at permuted
      exact permuted
  · intro failure member
    obtain ⟨err, listed, rfl⟩ := List.mem_map.mp member
    rw [isTemporary_parseDeleteObjectsResultError]
    rw [answers.error.mem_iff, List.mem_filterMap] at listed
    obtain ⟨object, requested, failed⟩ := listed
    obtain ⟨pair, inBatch, rfl⟩ := List.mem_map.mp requested
    obtain ⟨⟨code, message⟩, decided, rfl⟩ :=
      Option.map_eq_some_iff.mp failed
    exact temporary pair inBatch code message decided

theorem s3_deletes_exactly_iff (distinct : batch.Nodup)
    (several : 2 ≤ batch.length)
    (answered : deleter.core.deleteObjects
      (deleter.core.deleteObjectsRequest batch) = .ok reply)
    (answers : Answers verdict (deleter.core.deleteObjectsRequest batch)
      reply) :
    DeletesExactly deleter deleter.core.object
        (deleter.core.deleteObjectsRequest batch)
        (fun pair => (verdict (deleter.core.object pair)).isNone) batch ↔
      (∀ pair ∈ batch,
        (verdict (deleter.core.object pair)).isNone = false) ∨
      ((∀ pair ∈ batch,
          pair.2.version = none ∧ deleter.core.root.Returns pair.1) ∧
        ∀ pair ∈ batch, ∀ code message,
          verdict (deleter.core.object pair) = some (code, message) →
            retryable code = true) := by
  have nothing := nothing_iff answers
  rw [S3Core.deleteObjectsRequest, List.forall_mem_map] at nothing
  by_cases empty : reply.deleted = []
  · have none := nothing.mp empty
    have filled : reply.error ≠ [] := by
      intro noError
      have permuted := objects_reply answers
      rw [empty, noError, S3Core.deleteObjectsRequest] at permuted
      have zero := permuted.length_eq
      simp only [List.map_nil, List.append_nil, List.length_nil,
        List.length_map] at zero
      omega
    obtain ⟨err, refused⟩ := s3_report_refuses deleter empty filled
    have outcome := s3_outcome answered
    rw [refused] at outcome
    exact iff_of_true
      (deletesExactly_of_refused several (.refl _) outcome none) (.inl none)
  · constructor
    · intro exact
      exact .inr
        (s3_plain_of_exact distinct several answered answers empty exact)
    · intro condition
      rcases condition with none | ⟨plain, temporary⟩
      · exact absurd none (mt nothing.mpr empty)
      · exact s3_exact_of_plain distinct several answered answers empty plain
          temporary

end S3

/-! ## `OssDeleter` -/

section Oss

variable {deleter : OssDeleter} {batch : List (Path × OpDelete)}
  {verdict : RequestObject → Option (String × String)} {reply : DeleteReply}

/-- The object that a pair stands for. -/
def OssCore.object (core : OssCore) (pair : Path × OpDelete) : RequestObject :=
  ⟨buildAbsPath core.root.path pair.1, pair.2.version⟩

/-- The request of a batch. -/
def OssCore.batchRequest (core : OssCore) (batch : List (Path × OpDelete)) :
    List RequestObject :=
  core.deleteObjectsRequest (batch.map Prod.fst)

theorem unversioned_of_names {core : OssCore}
    (names : (core.batchRequest batch).Perm (batch.map core.object)) :
    ∀ pair ∈ batch, pair.2.version = none := by
  intro pair member
  have requested := names.mem_iff.mpr (List.mem_map_of_mem member)
  rw [OssCore.batchRequest, OssCore.deleteObjectsRequest,
    List.map_map, List.mem_map] at requested
  obtain ⟨other, -, same⟩ := requested
  exact (congrArg RequestObject.versionId same).symm

theorem batchRequest_eq {core : OssCore}
    (unversioned : ∀ pair ∈ batch, pair.2.version = none) :
    core.batchRequest batch = batch.map core.object := by
  rw [OssCore.batchRequest, OssCore.deleteObjectsRequest, List.map_map]
  apply List.map_congr_left
  intro pair member
  simp only [Function.comp_apply, OssCore.object, unversioned pair member]

theorem nodup_paths (distinct : batch.Nodup)
    (unversioned : ∀ pair ∈ batch, pair.2.version = none) :
    (batch.map Prod.fst).Nodup := by
  apply distinct.map_on
  intro left inLeft right inRight same
  have leftOp := unversioned left inLeft
  have rightOp := unversioned right inRight
  obtain ⟨path, ⟨version⟩⟩ := left
  obtain ⟨other, ⟨otherVersion⟩⟩ := right
  simp only at same leftOp rightOp
  rw [same, leftOp, rightOp]

theorem oss_report_refuses {keys : List Path} (empty : reply.deleted = []) :
    deleter.report keys reply = some (.error OssDeleter.unknownError) := by
  simp [OssDeleter.report, empty]

theorem oss_report_eq {keys : List Path} (filled : reply.deleted ≠ [])
    (fits : reply.deleted.length ≤ keys.length) :
    deleter.report keys reply = some (.ok
      { succeeded := reply.deleted.map (reported deleter.core.root)
        failed := (keys.diff (reply.deleted.map fun i =>
            buildRelPath deleter.core.root.path i.key)).map fun path =>
          (path, OpDelete.new, OssDeleter.unknownError) }) := by
  have notEmpty : reply.deleted.isEmpty = false := by simp [filled]
  have noOverflow : ¬ keys.length < reply.deleted.length := Nat.not_lt.mpr fits
  rw [OssDeleter.report, notEmpty]
  simp only [Bool.false_eq_true, if_false, noOverflow, List.map_map]
  rfl

/-- The result of a batch without versions of which something was deleted. -/
theorem oss_reports (distinct : batch.Nodup)
    (unversioned : ∀ pair ∈ batch, pair.2.version = none)
    (answered : deleter.core.deleteObjects
      (deleter.core.batchRequest batch) = .ok reply)
    (answers : Answers verdict (deleter.core.batchRequest batch) reply)
    (filled : reply.deleted ≠ []) :
    (deleteBatch deleter batch).1 = .ok
      { succeeded := reply.deleted.map (reported deleter.core.root)
        failed := ((batch.map Prod.fst).diff (reply.deleted.map fun i =>
            buildRelPath deleter.core.root.path i.key)).map fun path =>
          (path, OpDelete.new, OssDeleter.unknownError) } := by
  have keys : (batch.map Prod.fst).dedup = batch.map Prod.fst :=
    List.dedup_eq_self.mpr (nodup_paths distinct unversioned)
  have size := (objects_reply answers).length_eq
  rw [batchRequest_eq unversioned, List.length_append, List.length_map,
    List.length_map] at size
  have fits : reply.deleted.length ≤ (batch.map Prod.fst).length := by
    rw [List.length_map]
    omega
  rw [OssCore.batchRequest] at answered
  simp only [deleteBatch, OssDeleter.deleteBatch, answered, keys,
    oss_report_eq filled fits, orPanicked, Option.getD_some]

/-- OSS has no failures that are temporary, so a result of an exact deletion
is about a batch that was deleted. -/
theorem oss_complete_of_exact (distinct : batch.Nodup)
    (several : 2 ≤ batch.length)
    (unversioned : ∀ pair ∈ batch, pair.2.version = none)
    (answered : deleter.core.deleteObjects
      (deleter.core.batchRequest batch) = .ok reply)
    (answers : Answers verdict (deleter.core.batchRequest batch) reply)
    (filled : reply.deleted ≠ [])
    (exact : DeletesExactly deleter deleter.core.object
      (deleter.core.batchRequest batch)
      (fun pair => (verdict (deleter.core.object pair)).isNone) batch) :
    ∀ pair ∈ batch, (verdict (deleter.core.object pair)).isNone = true ∧
      deleter.core.root.Returns pair.1 := by
  have outcome := oss_reports distinct unversioned answered answers filled
  have partitions := exact.reports _ outcome
  have temporary := temporary_of_deletesExactly distinct several exact
    outcome (by simpa using filled)
  have allDeleted : ∀ pair ∈ batch,
      (verdict (deleter.core.object pair)).isNone = true := by
    intro pair member
    by_contra kept
    have failed := partitions.failed.mem_iff.mpr (List.mem_filter.mpr
      ⟨member, by rw [Bool.eq_false_of_not_eq_true kept]; rfl⟩)
    obtain ⟨failure, listed, -⟩ := List.mem_map.mp failed
    have isTemporary := temporary failure listed
    obtain ⟨path, -, rfl⟩ := List.mem_map.mp listed
    cases isTemporary
  have complete : batch.filter (fun pair =>
      (verdict (deleter.core.object pair)).isNone) = batch :=
    List.filter_eq_self.mpr allDeleted
  have everything := answers.deleted
  rw [batchRequest_eq unversioned, List.filter_map] at everything
  have permuted := (everything.map (reported deleter.core.root)).symm.trans
    partitions.succeeded
  rw [complete, List.map_map] at permuted
  have whole : batch.filter ((fun object => (verdict object).isNone) ∘
      deleter.core.object) = batch := complete
  rw [whole] at permuted
  intro pair member
  exact ⟨allDeleted pair member, (returns_of_perm permuted pair member).2⟩

theorem oss_exact_of_complete (distinct : batch.Nodup)
    (several : 2 ≤ batch.length)
    (unversioned : ∀ pair ∈ batch, pair.2.version = none)
    (answered : deleter.core.deleteObjects
      (deleter.core.batchRequest batch) = .ok reply)
    (answers : Answers verdict (deleter.core.batchRequest batch) reply)
    (filled : reply.deleted ≠ [])
    (complete : ∀ pair ∈ batch,
      (verdict (deleter.core.object pair)).isNone = true ∧
        deleter.core.root.Returns pair.1) :
    DeletesExactly deleter deleter.core.object
      (deleter.core.batchRequest batch)
      (fun pair => (verdict (deleter.core.object pair)).isNone) batch := by
  have outcome := oss_reports distinct unversioned answered answers filled
  have everything : batch.filter (fun pair =>
      (verdict (deleter.core.object pair)).isNone) = batch :=
    List.filter_eq_self.mpr fun pair member => (complete pair member).1
  have whole := reported_object deleter.core.object (fun _ => rfl) fun pair member =>
      ⟨unversioned pair member, (complete pair member).2⟩
  have succeeded : (reply.deleted.map
      (reported deleter.core.root)).Perm batch := by
    have deleted := answers.deleted.map (reported deleter.core.root)
    rwa [batchRequest_eq unversioned, map_reported_filter whole fun object =>
      (verdict object).isNone, everything] at deleted
  have nothingLeft : (batch.map Prod.fst).diff
      (reply.deleted.map fun i =>
        buildRelPath deleter.core.root.path i.key) = [] := by
    rw [(nodup_paths distinct unversioned).sdiff_eq_filter,
      List.filter_eq_nil_iff]
    intro path member
    have paths := succeeded.map Prod.fst
    rw [List.map_map] at paths
    have returned := paths.mem_iff.mpr member
    simp only [Bool.not_eq_true, decide_eq_false_iff_not, not_not]
    exact returned
  apply deletesExactly_of_reported distinct several
    (by rw [batchRequest_eq unversioned]) outcome
  · refine ⟨by rw [everything]; exact succeeded, ?_⟩
    simp only [nothingLeft, List.map_nil]
    rw [List.nil_perm, List.filter_eq_nil_iff]
    intro pair member
    simp [(complete pair member).1]
  · intro failure member
    simp only [nothingLeft, List.map_nil] at member
    cases member

theorem oss_deletes_exactly_iff (distinct : batch.Nodup)
    (several : 2 ≤ batch.length)
    (answered : deleter.core.deleteObjects
      (deleter.core.batchRequest batch) = .ok reply)
    (answers : Answers verdict (deleter.core.batchRequest batch) reply) :
    DeletesExactly deleter deleter.core.object
        (deleter.core.batchRequest batch)
        (fun pair => (verdict (deleter.core.object pair)).isNone) batch ↔
      (∀ pair ∈ batch, pair.2.version = none) ∧
      ((∀ pair ∈ batch,
          (verdict (deleter.core.object pair)).isNone = false) ∨
        ∀ pair ∈ batch, (verdict (deleter.core.object pair)).isNone = true ∧
          deleter.core.root.Returns pair.1) := by
  by_cases unversioned : ∀ pair ∈ batch, pair.2.version = none
  · have nothing := nothing_iff answers
    rw [batchRequest_eq unversioned, List.forall_mem_map] at nothing
    by_cases empty : reply.deleted = []
    · have none := nothing.mp empty
      have refused : (deleteBatch deleter batch).1 =
          .error OssDeleter.unknownError := by
        rw [OssCore.batchRequest] at answered
        simp only [deleteBatch, OssDeleter.deleteBatch, answered,
          oss_report_refuses empty, orPanicked, Option.getD_some]
      exact iff_of_true (deletesExactly_of_refused several
        (by rw [batchRequest_eq unversioned]) refused none)
        ⟨unversioned, .inl none⟩
    · constructor
      · intro exact
        exact ⟨unversioned, .inr (oss_complete_of_exact distinct several
          unversioned answered answers empty exact)⟩
      · intro condition
        rcases condition.2 with none | complete
        · exact absurd (nothing.mpr none) empty
        · exact oss_exact_of_complete distinct several unversioned answered
            answers empty complete
  · refine iff_of_false ?_ (fun condition => unversioned condition.1)
    intro exact
    exact unversioned (unversioned_of_names exact.names)

end Oss

/-! ## Both services -/

/-- An S3 server that deletes everything it is asked for. -/
def obligingS3 : S3Deleter :=
  ⟨⟨.slash, fun _ => .ok (), fun request => .ok (answer (fun _ => none) request)⟩⟩

/-- Two paths without versions. -/
def plainBatch : List (Path × OpDelete) :=
  [("a".toList, .new), ("b".toList, .new)]

/-- Two versions of one path. -/
def versionedBatch : List (Path × OpDelete) :=
  [("a".toList, OpDelete.new.withVersion "1"),
    ("a".toList, OpDelete.new.withVersion "2")]

end OpenDal
