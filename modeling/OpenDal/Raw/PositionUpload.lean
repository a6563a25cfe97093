import Mathlib.Data.List.Induction
import OpenDal.Raw.PositionWriter

/-!
# What a position writer writes

A driver writes a list of buffers and closes the writer, and issues failed
calls again.  The log records every answer of the service, so it shows each
attempt to write and each attempt to close the file.

The buffers tile the file: the tile of a buffer starts where the tile of the
one before it ends.  All attempts are at tiles, so an attempt that is made
twice, or whose answer is lost, does no harm.
-/

namespace OpenDal.PositionUpload

open PositionWriter

/-! ## Tiles -/

/-- The inputs that write these buffers one behind the other. -/
def tiles : Nat → List Buffer → List PositionInput
  | _, [] => []
  | start, bytes :: rest =>
      { offset := start, bytes } :: tiles (start + bytes.len) rest

/-- The number of bytes in the buffers. -/
def size (buffers : List Buffer) : Nat :=
  (buffers.map Buffer.len).sum

@[simp] theorem size_append (left right : List Buffer) :
    size (left ++ right) = size left + size right := by
  simp [size]

theorem tiles_append (start : Nat) (left right : List Buffer) :
    tiles start (left ++ right) =
      tiles start left ++ tiles (start + size left) right := by
  induction left generalizing start with
  | nil => simp [tiles, size]
  | cons bytes left induction =>
      simp [tiles, induction, size, Nat.add_assoc]

theorem mem_tiles_iff {start : Nat} {buffers : List Buffer}
    {tile : PositionInput} :
    tile ∈ tiles start buffers ↔
      ∃ index, buffers[index]? = some tile.bytes ∧
        tile.offset = start + size (buffers.take index) := by
  induction buffers generalizing start with
  | nil => simp [tiles]
  | cons bytes buffers induction =>
      rw [tiles, List.mem_cons, induction]
      constructor
      · intro given
        rcases given with rfl | ⟨index, found, offset⟩
        · exact ⟨0, rfl, by simp [size]⟩
        · refine ⟨index + 1, by simpa using found, ?_⟩
          simp [offset, size, Nat.add_assoc]
      · intro given
        obtain ⟨index, found, offset⟩ := given
        cases index with
        | zero =>
            left
            cases tile
            simp only [List.getElem?_cons_zero, Option.some.injEq] at found
            simp_all [size]
        | succ index =>
            right
            refine ⟨index, by simpa using found, ?_⟩
            simpa [size, Nat.add_assoc] using offset

theorem size_take_add_le {buffers : List Buffer} {first second : Nat}
    {body : Buffer} (before : first < second)
    (found : buffers[first]? = some body) :
    size (buffers.take first) + body.len ≤ size (buffers.take second) := by
  obtain ⟨gap, rfl⟩ := Nat.exists_eq_add_of_lt before
  rw [Nat.add_right_comm, List.take_add, List.take_add_one, found]
  simp only [size_append, Option.toList_some]
  simp [size]

/-- The position is inside the tile. -/
def Covers (tile : PositionInput) (position : Nat) : Prop :=
  tile.offset ≤ position ∧ position < tile.offset + tile.bytes.len

theorem getElem?_of_covers {start position : Nat} {buffers : List Buffer}
    {tile : PositionInput} (member : tile ∈ tiles start buffers)
    (covers : Covers tile (start + position)) :
    tile.bytes.bytes[start + position - tile.offset]? =
      (buffers.flatMap Buffer.bytes)[position]? := by
  induction buffers generalizing start position with
  | nil => cases member
  | cons bytes buffers induction =>
      obtain ⟨above, below⟩ := covers
      rw [tiles, List.mem_cons] at member
      rw [List.flatMap_cons]
      rcases member with rfl | later
      · have within : position < bytes.bytes.length := by
          rw [Buffer.length_bytes]
          exact Nat.lt_of_add_lt_add_left below
        rw [List.getElem?_append_left within, Nat.add_sub_cancel_left]
      · obtain ⟨index, _, offset⟩ := mem_tiles_iff.mp later
        have beyond : bytes.bytes.length ≤ position := by
          rw [Buffer.length_bytes]
          omega
        rw [List.getElem?_append_right beyond, Buffer.length_bytes]
        rw [Buffer.length_bytes] at beyond
        have moved : start + position =
            start + bytes.len + (position - bytes.len) := by omega
        rw [moved] at above below ⊢
        exact induction later ⟨above, below⟩

theorem exists_covers {start position : Nat} {buffers : List Buffer}
    (within : position < size buffers) :
    ∃ tile ∈ tiles start buffers, Covers tile (start + position) := by
  induction buffers generalizing start position with
  | nil => simp [size] at within
  | cons bytes buffers induction =>
      simp only [size, List.map_cons, List.sum_cons] at within
      by_cases first : position < bytes.len
      · refine ⟨⟨start, bytes⟩, by simp [tiles], ?_⟩
        exact ⟨Nat.le_add_right _ _, Nat.add_lt_add_left first _⟩
      · have later : position - bytes.len < size buffers := by
          rw [size]
          omega
        obtain ⟨tile, member, covers⟩ :
            ∃ tile ∈ tiles (start + bytes.len) buffers,
              Covers tile (start + bytes.len + (position - bytes.len)) :=
          induction later
        refine ⟨tile, by simp [tiles, member], ?_⟩
        have moved : start + bytes.len + (position - bytes.len) =
            start + position := by omega
        rwa [moved] at covers

/-! ## The driver -/

/-- A call of the service and its answer. -/
inductive ServiceCall where
  | writeAllAt (input : PositionInput) (reply : WriteReply)
  | close (answer : Except Error Unit)

/-- The input has been written. -/
def Written (log : List ServiceCall) (input : PositionInput) : Prop :=
  .writeAllAt input (.answered (.ok ())) ∈ log

inductive Call where
  | write (future : WriteFuture)
  | close (future : CloseFuture)

structure Upload where
  writer : PositionWriter
  /-- The writes that have not been accepted yet. -/
  todo : List Buffer
  call : Option Call
  /-- `close` has returned `Ok`. -/
  closed : Bool
  log : List ServiceCall
  panicked : Bool

inductive Event where
  /-- Issue the next call, or the failed one again. -/
  | call
  | poll
  | wroteLast (answer : Except Error Unit)
  | closed (answer : Except Error Unit)
  | finish (position : Nat) (reply : WriteReply)
  | finishAwaited (reply : WriteReply)

def new (capacity : Nat) (inputs : List Buffer) : Upload :=
  { writer := .new capacity
    todo := inputs
    call := none
    closed := false
    log := []
    panicked := false }

def afterWrite (upload : Upload) : PositionWriter × WriteProgress → Upload
  | (writer, .suspended future) =>
      { upload with writer, call := some (.write future) }
  | (writer, .returned (.ok ())) =>
      { upload with writer, call := none, todo := upload.todo.tail }
  | (writer, .returned (.error _)) => { upload with writer, call := none }
  | (writer, .panicked _) =>
      { upload with writer, call := none, panicked := true }

def afterClose (upload : Upload) : PositionWriter × CloseProgress → Upload
  | (writer, .suspended future) =>
      { upload with writer, call := some (.close future) }
  | (writer, .returned (.ok ())) =>
      { upload with writer, call := none, closed := true }
  | (writer, .returned (.error _)) => { upload with writer, call := none }
  | (writer, .panicked _) =>
      { upload with writer, call := none, panicked := true }

/-- The input of the task that `execute` awaits directly. -/
def awaitedInput : Call → Option PositionInput
  | .write (.executing _ _ (.awaitingTask (.running input))) => some input
  | _ => none

/-- The call after the task that it awaits directly has ended. -/
def Call.finish (reply : WriteReply) : Call → Option Call
  | .write (.executing bs length future) =>
      (future.finish positionTask.factory reply).map fun future =>
        .write (.executing bs length future)
  | _ => none

def step (upload : Upload) : Event → Option Upload
  | .call =>
      if upload.closed || upload.call.isSome then
        none
      else
        match upload.todo with
        | bs :: _ =>
            some { upload with call := some (.write (.unresumed bs)) }
        | [] =>
            some { upload with call := some (.close (.draining .unresumed)) }
  | .poll =>
      match upload.call with
      | none => none
      | some (.write future) =>
          (upload.writer.pollWrite future).map (afterWrite upload)
      | some (.close future) =>
          (upload.writer.pollClose future).map (afterClose upload)
  | .wroteLast answer =>
      match upload.call with
      | some (.close (.writingLast offset bytes)) =>
          some (afterClose
            { upload with
              log := upload.log ++
                [.writeAllAt ⟨offset, bytes⟩ (.answered answer)] }
            (upload.writer.wroteLast answer))
      | _ => none
  | .closed answer =>
      match upload.call with
      | some (.close .closing) =>
          some (afterClose
            { upload with log := upload.log ++ [.close answer] }
            (upload.writer, .returned answer))
      | _ => none
  | .finish position reply => do
      let tasks ←
        upload.writer.tasks.finish positionTask.factory position reply
      match upload.writer.tasks.tasks[position]? with
      | some (.running input) =>
          some { upload with
            writer := { upload.writer with tasks }
            log := upload.log ++ [.writeAllAt input reply] }
      | _ => none
  | .finishAwaited reply => do
      let call ← upload.call
      let input ← awaitedInput call
      let call ← call.finish reply
      some { upload with
        call := some call
        log := upload.log ++ [.writeAllAt input reply] }

/-- The service fails the writes of tasks only temporarily. -/
def Event.TasksTemporary : Event → Prop
  | .finish _ reply => reply.Temporary
  | .finishAwaited reply => reply.Temporary
  | _ => True

/-- The inputs of all attempts to write: those that were answered and those
under way. -/
def issued (upload : Upload) : List PositionInput :=
  upload.log.filterMap (fun
    | .writeAllAt input _ => some input
    | .close _ => none) ++
  upload.writer.tasks.tasks.filterMap (fun
    | .running input => some input
    | .ready _ _ => none) ++
  (match upload.call with
    | some (.close (.writingLast offset bytes)) => [⟨offset, bytes⟩]
    | some call => (awaitedInput call).toList
    | none => [])

/-! ## The file -/

/-- The byte at a position of the file after a call. -/
def writeAt (file : Nat → Option UInt8) (call : ServiceCall)
    (position : Nat) : Option UInt8 :=
  match call with
  | .writeAllAt input (.answered (.ok ())) =>
      if input.offset ≤ position ∧
          position < input.offset + input.bytes.len then
        input.bytes.bytes[position - input.offset]?
      else
        file position
  | _ => file position

/-- The file that the successful writes leave behind. -/
def file (log : List ServiceCall) : Nat → Option UInt8 :=
  log.foldl writeAt fun _ => none

/-- A byte of the file comes from a write that covers its position, if there
is one. -/
theorem file_cases (log : List ServiceCall) (position : Nat) :
    (∃ tile, Written log tile ∧ Covers tile position ∧
      file log position = tile.bytes.bytes[position - tile.offset]?) ∨
    (∀ tile, Written log tile → ¬ Covers tile position) ∧
      file log position = none := by
  induction log using List.reverseRecOn with
  | nil => exact .inr ⟨by simp [Written], rfl⟩
  | append_singleton log call induction =>
      have last : file (log ++ [call]) position =
          writeAt (file log) call position := by simp [file]
      by_cases covering : ∃ input,
          call = .writeAllAt input (.answered (.ok ())) ∧
            Covers input position
      · obtain ⟨input, rfl, covers⟩ := covering
        refine .inl ⟨input, by simp [Written], covers, ?_⟩
        rw [last]
        exact if_pos covers
      · have same : file (log ++ [call]) position = file log position := by
          rw [last]
          unfold writeAt
          split
          · rename_i input
            exact if_neg fun covers => covering ⟨input, rfl, covers⟩
          · rfl
        rw [same]
        rcases induction with ⟨tile, written, covers, byte⟩ | ⟨none, byte⟩
        · exact .inl ⟨tile, List.mem_append_left _ written, covers, byte⟩
        · refine .inr ⟨?_, byte⟩
          intro tile written covers
          rcases List.mem_append.mp written with earlier | now
          · exact none tile earlier covers
          · exact covering ⟨tile, (List.mem_singleton.mp now).symm, covers⟩

/-- When all writes are at tiles and every tile has been written, the file is
the concatenation of the buffers. -/
theorem file_eq {log : List ServiceCall} {inputs : List Buffer}
    (tiled : ∀ input reply, .writeAllAt input reply ∈ log →
      input ∈ tiles 0 inputs)
    (complete : ∀ tile ∈ tiles 0 inputs, Written log tile) (position : Nat) :
    file log position = (inputs.flatMap Buffer.bytes)[position]? := by
  rcases file_cases log position with
    ⟨tile, written, covers, byte⟩ | ⟨uncovered, byte⟩
  · have member := tiled tile _ written
    rw [← Nat.zero_add position] at covers
    rw [byte, ← getElem?_of_covers member covers, Nat.zero_add]
  · have beyond : size inputs ≤ position := by
      by_contra within
      obtain ⟨tile, member, covers⟩ :
          ∃ tile ∈ tiles 0 inputs, Covers tile (0 + position) :=
        exists_covers (Nat.lt_of_not_le within)
      rw [Nat.zero_add] at covers
      exact uncovered tile (complete tile member) covers
    have length : (inputs.flatMap Buffer.bytes).length = size inputs := by
      simp [size, List.length_flatMap]
    rw [byte, List.getElem?_eq_none (length ▸ beyond)]

/-! ## The invariant -/

def contract (log : List ServiceCall) :
    Contract PositionInput PositionInput Unit :=
  positionTask.contract (Written log)

/-- Where every accepted buffer is.  After the last buffer has been written
nothing is cached and the offset is not needed any more. -/
structure Accepted (log : List ServiceCall) (inputs todo sent : List Buffer)
    (open_ : List PositionInput) (writer : PositionWriter) : Prop where
  split : inputs = sent ++ (writer.cache.toList ++ todo)
  positioned : writer.nextOffset = size sent ∨
    writer.cache = none ∧ todo = []
  served : ∃ done, tiles 0 sent = done ++ open_ ∧
    ∀ tile ∈ done, Written log tile

/-- All attempts are at tiles, and no attempt to close the file comes before
every tile has been written. -/
structure Orderly (inputs : List Buffer) (log : List ServiceCall) : Prop where
  tiled : ∀ input reply, .writeAllAt input reply ∈ log →
    input ∈ tiles 0 inputs
  closedLate : ∀ (index : Nat) (answer : Except Error Unit),
    log[index]? = some (.close answer) →
      ∀ tile ∈ tiles 0 inputs, Written (log.take index) tile

/-- The call in flight is at a place where it can be. -/
def CallFits (log : List ServiceCall) (capacity : Nat) (todo : List Buffer)
    (open_ : List PositionInput) (writer : PositionWriter) : Call → Prop
  | .write (.unresumed bs) => ∃ rest, todo = bs :: rest
  | .write (.executing bs length future) => (∃ rest, todo = bs :: rest) ∧
      ∃ cache, writer.cache = some cache ∧ length = cache.len ∧
        future.Places (contract log) capacity ⟨writer.nextOffset, cache⟩
  | .close (.draining future) => todo = [] ∧ future.Waits writer.tasks
  | .close (.writingLast offset bytes) => todo = [] ∧ open_ = [] ∧
      offset = writer.nextOffset ∧ writer.cache = some bytes
  | .close .closing => todo = [] ∧ open_ = [] ∧ writer.cache = none

structure Unclosed (capacity : Nat) (inputs sent : List Buffer)
    (open_ : List PositionInput) (upload : Upload) : Prop where
  sound : upload.panicked = false
  unclosed : upload.closed = false
  orderly : Orderly inputs upload.log
  stillOpen : .close (.ok ()) ∉ upload.log
  aligned : upload.writer.tasks.Aligned (contract upload.log) capacity open_
  accepted : Accepted upload.log inputs upload.todo sent open_ upload.writer

/-- The file was closed by the last call. -/
structure Finished (inputs : List Buffer) (upload : Upload) : Prop where
  sound : upload.panicked = false
  closed : upload.closed = true
  idle : upload.call = none
  drained : upload.writer.tasks.tasks = []
  orderly : Orderly inputs upload.log
  closedOnce : ∃ before, upload.log = before ++ [.close (.ok ())] ∧
    .close (.ok ()) ∉ before

inductive Consistent (capacity : Nat) (inputs : List Buffer)
    (upload : Upload) : Prop where
  | pending {sent : List Buffer} {open_ : List PositionInput}
      (unclosed : Unclosed capacity inputs sent open_ upload)
      (fits : ∀ call, upload.call = some call →
        CallFits upload.log capacity upload.todo open_ upload.writer call)
  | finished (finished : Finished inputs upload)

variable {capacity : Nat} {log extra : List ServiceCall}
  {inputs todo sent : List Buffer} {open_ : List PositionInput}
  {writer : PositionWriter} {upload later : Upload}

theorem consistent_new (capacity : Nat) (inputs : List Buffer) :
    Consistent capacity inputs (new capacity inputs) := by
  have unclosed : Unclosed capacity inputs [] [] (new capacity inputs) :=
    { sound := rfl
      unclosed := rfl
      orderly := ⟨by simp [new], by simp [new]⟩
      stillOpen := by simp [new]
      aligned := ConcurrentTasks.aligned_new _ capacity
      accepted := ⟨rfl, .inl rfl, [], rfl, by simp⟩ }
  exact .pending unclosed (by simp [new])

theorem Unclosed.idle
    (unclosed : Unclosed capacity inputs sent open_ upload)
    (none : upload.call = none) : Consistent capacity inputs upload :=
  .pending unclosed fun call current => by simp [none] at current

theorem Unclosed.calling {call : Call}
    (unclosed : Unclosed capacity inputs sent open_ upload)
    (current : upload.call = some call)
    (fits : CallFits upload.log capacity upload.todo open_ upload.writer
      call) :
    Consistent capacity inputs upload := by
  apply Consistent.pending unclosed
  intro other same
  cases current.symm.trans same
  exact fits

theorem Consistent.ofCall {call : Call}
    (consistent : Consistent capacity inputs upload)
    (current : upload.call = some call) :
    ∃ sent open_, Unclosed capacity inputs sent open_ upload ∧
      CallFits upload.log capacity upload.todo open_ upload.writer call := by
  cases consistent with
  | pending unclosed fits => exact ⟨_, _, unclosed, fits call current⟩
  | finished finished => cases finished.idle.symm.trans current

/-! ## Accepted buffers -/

theorem Accepted.withTasks (accepted : Accepted log inputs todo sent open_ writer)
    (tasks : ConcurrentTasks PositionInput Unit) :
    Accepted log inputs todo sent open_ { writer with tasks } :=
  { accepted with }

theorem Written.growLog {input : PositionInput} (written : Written log input) :
    Written (log ++ extra) input :=
  List.mem_append_left extra written

theorem written_concat (log : List ServiceCall) (input : PositionInput)
    {reply : WriteReply} (succeeded : reply.succeeded = true) :
    Written (log ++ [.writeAllAt input reply]) input := by
  unfold WriteReply.succeeded at succeeded
  split at succeeded
  · simp [Written]
  · cases succeeded

theorem Accepted.growLog (accepted : Accepted log inputs todo sent open_ writer) :
    Accepted (log ++ extra) inputs todo sent open_ writer := by
  obtain ⟨done, served, written⟩ := accepted.served
  exact { accepted with
    served := ⟨done, served, fun tile member =>
      (written tile member).growLog⟩ }

theorem Accepted.nextOffset_eq {cache : Buffer}
    (accepted : Accepted log inputs todo sent open_ writer)
    (cached : writer.cache = some cache) : writer.nextOffset = size sent := by
  rcases accepted.positioned with positioned | ⟨uncached, _⟩
  · exact positioned
  · cases uncached.symm.trans cached

theorem Accepted.cached_mem {cache : Buffer}
    (accepted : Accepted log inputs todo sent open_ writer)
    (cached : writer.cache = some cache) :
    ⟨writer.nextOffset, cache⟩ ∈ tiles 0 inputs := by
  rw [accepted.nextOffset_eq cached, accepted.split, cached, tiles_append]
  simp [tiles]

theorem Accepted.open_mem {tile : PositionInput}
    (accepted : Accepted log inputs todo sent open_ writer)
    (member : tile ∈ open_) : tile ∈ tiles 0 inputs := by
  obtain ⟨done, served, _⟩ := accepted.served
  rw [accepted.split, tiles_append, served]
  simp [member]

theorem Accepted.fill {bs : Buffer} {rest : List Buffer}
    (accepted : Accepted log inputs (bs :: rest) sent open_ writer)
    (empty : writer.cache = none) :
    Accepted log inputs rest sent open_ { writer with cache := some bs } where
  split := by simp [accepted.split, empty]
  positioned := by
    rcases accepted.positioned with positioned | ⟨_, impossible⟩
    · exact .inl positioned
    · cases impossible
  served := accepted.served

theorem Accepted.submit {bs cache : Buffer} {rest : List Buffer}
    (accepted : Accepted log inputs (bs :: rest) sent open_ writer)
    (cached : writer.cache = some cache)
    (tasks : ConcurrentTasks PositionInput Unit) :
    Accepted log inputs rest (sent ++ [cache])
      (open_ ++ [⟨writer.nextOffset, cache⟩])
      { writer with
        tasks
        cache := some bs
        nextOffset := writer.nextOffset + cache.len } := by
  obtain ⟨done, served, written⟩ := accepted.served
  have offset := accepted.nextOffset_eq cached
  exact
    { split := by simp [accepted.split, cached]
      positioned := .inl (by simp [offset, size])
      served := ⟨done, by simp [tiles_append, served, offset, tiles],
        written⟩ }

theorem Accepted.collect {tile : PositionInput}
    (accepted : Accepted log inputs todo sent (tile :: open_) writer)
    (tasks : ConcurrentTasks PositionInput Unit)
    (written : Written log tile) :
    Accepted log inputs todo sent open_ { writer with tasks } := by
  obtain ⟨done, served, others⟩ := accepted.served
  refine { accepted with served := ⟨done ++ [tile], by simp [served], ?_⟩ }
  intro other member
  rcases List.mem_append.mp member with earlier | now
  · exact others other earlier
  · rw [List.mem_singleton.mp now]
    exact written

theorem Accepted.writeLast {bytes : Buffer}
    (accepted : Accepted log inputs [] sent [] writer)
    (cached : writer.cache = some bytes)
    (written : Written log ⟨writer.nextOffset, bytes⟩) :
    Accepted log inputs [] (sent ++ [bytes]) []
      { writer with cache := none } := by
  obtain ⟨done, served, others⟩ := accepted.served
  have offset := accepted.nextOffset_eq cached
  rw [List.append_nil] at served
  refine
    { split := by simp [accepted.split, cached]
      positioned := .inr ⟨rfl, rfl⟩
      served := ⟨tiles 0 (sent ++ [bytes]), by simp, ?_⟩ }
  intro tile member
  rw [tiles_append, List.mem_append] at member
  rcases member with earlier | last
  · exact others tile (served ▸ earlier)
  · simp only [tiles, List.mem_singleton, Nat.zero_add] at last
    rw [last, ← offset]
    exact written

theorem Accepted.complete
    (accepted : Accepted log inputs [] sent [] writer)
    (uncached : writer.cache = none) :
    ∀ tile ∈ tiles 0 inputs, Written log tile := by
  obtain ⟨done, served, written⟩ := accepted.served
  have all : inputs = sent := by simp [accepted.split, uncached]
  rw [all, served, List.append_nil]
  exact written

/-! ## The growing log -/

theorem Orderly.concat {call : ServiceCall} (orderly : Orderly inputs log)
    (tiled : ∀ input reply, call = .writeAllAt input reply →
      input ∈ tiles 0 inputs)
    (complete : ∀ answer, call = .close answer →
      ∀ tile ∈ tiles 0 inputs, Written log tile) :
    Orderly inputs (log ++ [call]) := by
  constructor
  · intro input reply member
    rcases List.mem_append.mp member with earlier | now
    · exact orderly.tiled input reply earlier
    · exact tiled input reply (List.mem_singleton.mp now).symm
  · intro index answer found
    rcases Nat.lt_trichotomy index log.length with earlier | rfl | beyond
    · rw [List.getElem?_append_left earlier] at found
      rw [List.take_append_of_le_length (Nat.le_of_lt earlier)]
      exact orderly.closedLate index answer found
    · rw [List.getElem?_concat_length, Option.some.injEq] at found
      rw [List.take_left]
      exact complete answer found
    · rw [List.getElem?_eq_none (by simpa using Nat.succ_le_of_lt beyond)] at found
      cases found

theorem Unclosed.logWrite {input : PositionInput}
    (unclosed : Unclosed capacity inputs sent open_ upload)
    (member : input ∈ tiles 0 inputs) (reply : WriteReply) :
    Unclosed capacity inputs sent open_
      { upload with log := upload.log ++ [.writeAllAt input reply] } :=
  { unclosed with
    orderly := unclosed.orderly.concat
      (fun other _ same => by
        cases same
        exact member)
      (fun _ same => by cases same)
    stillOpen := by simpa using unclosed.stillOpen
    aligned := unclosed.aligned.mono
      (WriteTask.contract_weaker fun _ written => written.growLog)
    accepted := unclosed.accepted.growLog }

/-- A task in the queue writes one of the open tiles. -/
theorem running_mem {position : Nat} {input : PositionInput}
    {queue : ConcurrentTasks PositionInput Unit}
    (aligned : queue.Aligned (contract log) capacity open_)
    (running : queue.tasks[position]? = some (.running input)) :
    input ∈ open_ := by
  obtain ⟨delivered, waiting, split, _, serving⟩ := aligned.sequence
  obtain ⟨sameLength, related⟩ := List.forall₂_iff_get.mp serving
  obtain ⟨within, found⟩ := List.getElem?_eq_some_iff.mp running
  have serves := related position (sameLength ▸ within) within
  rw [List.get_eq_getElem, List.get_eq_getElem, found] at serves
  have same : input = waiting[position] := serves
  rw [split, same]
  exact List.mem_append_right _ (List.getElem_mem _)

/-! ## Resuming the calls -/

theorem Consistent.pollWrite {future : WriteFuture}
    {outcome : PositionWriter × WriteProgress}
    (consistent : Consistent capacity inputs upload)
    (current : upload.call = some (.write future))
    (resumed : upload.writer.pollWrite future = some outcome) :
    Consistent capacity inputs (afterWrite upload outcome) := by
  obtain ⟨sent, open_, unclosed, fits⟩ := consistent.ofCall current
  have accepted := unclosed.accepted
  cases future with
  | unresumed bs =>
      obtain ⟨rest, next⟩ := fits
      cases cached : upload.writer.cache with
      | none =>
          simp only [PositionWriter.pollWrite, fillCache, cached] at resumed
          cases resumed
          rw [next] at accepted
          have filled := accepted.fill cached
          have shorter : upload.todo.tail = rest := by simp [next]
          rw [← shorter] at filled
          exact Unclosed.idle { unclosed with accepted := filled } rfl
      | some cache =>
          simp only [PositionWriter.pollWrite, cached] at resumed
          cases resumed
          exact Unclosed.calling { unclosed with } rfl
            ⟨⟨rest, next⟩, cache, cached, rfl, rfl⟩
  | executing bs length future =>
      obtain ⟨⟨rest, next⟩, cache, cached, rfl, places⟩ := fits
      simp only [PositionWriter.pollWrite, Option.bind_eq_bind,
        Option.bind_eq_some_iff] at resumed
      obtain ⟨⟨tasks, progress⟩, polled, same⟩ := resumed
      cases unclosed.aligned.pollExecute places polled with
      | accepted aligned =>
          cases same
          rw [next] at accepted
          have submitted := accepted.submit cached tasks
          have shorter : upload.todo.tail = rest := by simp [next]
          rw [← shorter] at submitted
          exact Unclosed.idle
            { unclosed with aligned, accepted := submitted } rfl
      | refused fails kept =>
          cases same
          exact Unclosed.idle
            { unclosed with
              aligned := kept fails.1
              accepted := accepted.withTasks tasks } rfl
      | gaveUp fails fatal errored =>
          exact absurd (fails.2.symm.trans fatal) (by simp)
      | suspended aligned places =>
          cases same
          exact Unclosed.calling
            { unclosed with aligned, accepted := accepted.withTasks tasks } rfl
            ⟨⟨rest, next⟩, cache, cached, rfl, places⟩

theorem Consistent.pollClose {future : CloseFuture}
    {outcome : PositionWriter × CloseProgress}
    (consistent : Consistent capacity inputs upload)
    (current : upload.call = some (.close future))
    (resumed : upload.writer.pollClose future = some outcome) :
    Consistent capacity inputs (afterClose upload outcome) := by
  obtain ⟨sent, open_, unclosed, fits⟩ := consistent.ofCall current
  have accepted := unclosed.accepted
  cases future with
  | writingLast offset bytes => cases resumed
  | closing => cases resumed
  | draining future =>
      obtain ⟨finished, waits⟩ := fits
      simp only [PositionWriter.pollClose, Option.bind_eq_bind,
        Option.bind_eq_some_iff] at resumed
      obtain ⟨⟨tasks, progress⟩, polled, same⟩ := resumed
      cases unclosed.aligned.pollNext waits polled with
      | delivered oldest delivers aligned =>
          subst oldest
          cases same
          exact Unclosed.calling
            { unclosed with
              aligned
              accepted := accepted.collect tasks delivers.2 } rfl
            ⟨finished, trivial⟩
      | failed fails kept =>
          cases same
          exact Unclosed.idle
            { unclosed with
              aligned := kept fails.1
              accepted := accepted.withTasks tasks } rfl
      | gaveUp fails fatal errored =>
          exact absurd (fails.2.symm.trans fatal) (by simp)
      | drained empty aligned =>
          have kept : Unclosed capacity inputs sent open_
              { upload with writer := { upload.writer with tasks } } :=
            { unclosed with aligned, accepted := accepted.withTasks tasks }
          dsimp only at same
          split at same
          · rename_i bytes cached
            cases same
            exact Unclosed.calling { kept with } rfl
              ⟨finished, empty, rfl, cached⟩
          · rename_i uncached
            cases same
            exact Unclosed.calling { kept with } rfl
              ⟨finished, empty, uncached⟩
      | suspended aligned waits =>
          cases same
          exact Unclosed.calling
            { unclosed with aligned, accepted := accepted.withTasks tasks } rfl
            ⟨finished, waits⟩

/-! ## The answers of the service -/

theorem Consistent.wroteLast {offset : Nat} {bytes : Buffer}
    (consistent : Consistent capacity inputs upload)
    (current : upload.call = some (.close (.writingLast offset bytes)))
    (answer : Except Error Unit) :
    Consistent capacity inputs
      (afterClose
        { upload with
          log := upload.log ++
            [.writeAllAt ⟨offset, bytes⟩ (.answered answer)] }
        (upload.writer.wroteLast answer)) := by
  obtain ⟨sent, open_, unclosed, finished, rfl, rfl, cached⟩ :=
    consistent.ofCall current
  have kept := unclosed.logWrite (unclosed.accepted.cached_mem cached)
    (.answered answer)
  cases answer with
  | error err => exact Unclosed.idle { kept with } rfl
  | ok _ =>
      have accepted := kept.accepted
      rw [finished] at accepted
      have last := accepted.writeLast cached (by simp [Written])
      rw [← finished] at last
      exact Unclosed.calling { kept with accepted := last } rfl
        ⟨finished, rfl, rfl⟩

theorem Consistent.closed
    (consistent : Consistent capacity inputs upload)
    (current : upload.call = some (.close .closing))
    (answer : Except Error Unit) :
    Consistent capacity inputs
      (afterClose { upload with log := upload.log ++ [.close answer] }
        (upload.writer, .returned answer)) := by
  obtain ⟨sent, open_, unclosed, finished, rfl, uncached⟩ :=
    consistent.ofCall current
  have accepted := unclosed.accepted
  rw [finished] at accepted
  have orderly : Orderly inputs (upload.log ++ [.close answer]) :=
    unclosed.orderly.concat (fun _ _ same => by cases same)
      (fun _ _ => accepted.complete uncached)
  cases answer with
  | error err =>
      have kept : Unclosed capacity inputs sent []
          { upload with log := upload.log ++ [.close (.error err)] } :=
        { unclosed with
          orderly
          stillOpen := by simpa using unclosed.stillOpen
          aligned := unclosed.aligned.mono
            (WriteTask.contract_weaker fun _ written => written.growLog)
          accepted := unclosed.accepted.growLog }
      exact Unclosed.idle { kept with } rfl
  | ok _ =>
      obtain ⟨delivered, waiting, split, _, serving⟩ :=
        unclosed.aligned.sequence
      obtain ⟨_, rfl⟩ := List.append_eq_nil_iff.mp split.symm
      exact .finished
        { sound := unclosed.sound
          closed := rfl
          idle := rfl
          drained := List.forall₂_nil_left_iff.mp serving
          orderly
          closedOnce := ⟨upload.log, rfl, unclosed.stillOpen⟩ }

/-! ## The end of a task -/

theorem CallFits.finish {call : Call} {position : Nat} {reply : WriteReply}
    {tasks : ConcurrentTasks PositionInput Unit}
    (fits : CallFits log capacity todo open_ writer call)
    (finished : writer.tasks.finish positionTask.factory position reply =
      some tasks) :
    CallFits (log ++ extra) capacity todo open_ { writer with tasks } call := by
  cases call with
  | write future =>
      cases future with
      | unresumed bs => exact fits
      | executing bs length future =>
          obtain ⟨next, cache, cached, same, places⟩ := fits
          exact ⟨next, cache, cached, same, places.mono
            (WriteTask.contract_weaker fun _ written => written.growLog)⟩
  | close future =>
      cases future with
      | draining future => exact ⟨fits.1, fits.2.finish finished⟩
      | _ => exact fits

theorem Consistent.finish {position : Nat} {reply : WriteReply}
    {input : PositionInput} {tasks : ConcurrentTasks PositionInput Unit}
    (consistent : Consistent capacity inputs upload)
    (temporary : reply.Temporary)
    (finished : upload.writer.tasks.finish positionTask.factory position
      reply = some tasks)
    (running : upload.writer.tasks.tasks[position]? = some (.running input)) :
    Consistent capacity inputs
      { upload with
        writer := { upload.writer with tasks }
        log := upload.log ++ [.writeAllAt input reply] } := by
  cases consistent with
  | finished ended => simp [ended.drained] at running
  | pending unclosed fits =>
      have member := unclosed.accepted.open_mem
        (running_mem unclosed.aligned running)
      have kept := unclosed.logWrite member reply
      have aligned : tasks.Aligned
          (contract (upload.log ++ [.writeAllAt input reply])) capacity _ :=
        WriteTask.aligned_finish unclosed.aligned finished running temporary
          (fun _ written => written.growLog) (written_concat _ _)
      exact .pending
        { kept with aligned, accepted := kept.accepted.withTasks tasks }
        fun call current => (fits call current).finish finished

theorem Consistent.finishAwaited {call ended : Call} {reply : WriteReply}
    {input : PositionInput}
    (consistent : Consistent capacity inputs upload)
    (temporary : reply.Temporary) (current : upload.call = some call)
    (awaited : awaitedInput call = some input)
    (finished : call.finish reply = some ended) :
    Consistent capacity inputs
      { upload with
        call := some ended
        log := upload.log ++ [.writeAllAt input reply] } := by
  obtain ⟨sent, open_, unclosed, fits⟩ := consistent.ofCall current
  unfold awaitedInput at awaited
  split at awaited
  · cases awaited
    obtain ⟨next, cache, cached, same, places⟩ := fits
    have own : input = ⟨upload.writer.nextOffset, cache⟩ := places.1
    have kept := unclosed.logWrite
      (own ▸ unclosed.accepted.cached_mem cached) reply
    simp only [Call.finish, Option.map_eq_some_iff] at finished
    obtain ⟨future, resolved, rfl⟩ := finished
    exact Unclosed.calling { kept with } rfl
      ⟨next, cache, cached, same, WriteTask.places_finish places resolved
        temporary (fun _ written => written.growLog) (written_concat _ _)⟩
  · cases awaited

/-! ## Whole runs -/

theorem Consistent.step {event : Event}
    (consistent : Consistent capacity inputs upload)
    (temporary : event.TasksTemporary)
    (stepped : PositionUpload.step upload event = some later) :
    Consistent capacity inputs later := by
  cases event with
  | call =>
      simp only [PositionUpload.step, Bool.or_eq_true, not_or,
        Option.ite_none_left_eq_some] at stepped
      obtain ⟨⟨unclosed, _⟩, stepped⟩ := stepped
      cases consistent with
      | finished finished => exact absurd finished.closed unclosed
      | pending pending _ =>
          split at stepped
          · rename_i bs rest remaining
            cases stepped
            exact Unclosed.calling { pending with } rfl ⟨rest, remaining⟩
          · rename_i remaining
            cases stepped
            exact Unclosed.calling { pending with } rfl ⟨remaining, trivial⟩
  | poll =>
      simp only [PositionUpload.step] at stepped
      split at stepped
      · cases stepped
      · rename_i current
        obtain ⟨outcome, resumed, rfl⟩ := Option.map_eq_some_iff.mp stepped
        exact consistent.pollWrite current resumed
      · rename_i current
        obtain ⟨outcome, resumed, rfl⟩ := Option.map_eq_some_iff.mp stepped
        exact consistent.pollClose current resumed
  | wroteLast answer =>
      simp only [PositionUpload.step] at stepped
      split at stepped
      · rename_i current
        cases stepped
        exact consistent.wroteLast current answer
      · cases stepped
  | closed answer =>
      simp only [PositionUpload.step] at stepped
      split at stepped
      · rename_i current
        cases stepped
        exact consistent.closed current answer
      · cases stepped
  | finish position reply =>
      simp only [PositionUpload.step, Option.bind_eq_bind,
        Option.bind_eq_some_iff] at stepped
      obtain ⟨tasks, finished, stepped⟩ := stepped
      split at stepped
      · rename_i running
        cases stepped
        exact consistent.finish temporary finished running
      · cases stepped
  | finishAwaited reply =>
      simp only [PositionUpload.step, Option.bind_eq_bind,
        Option.bind_eq_some_iff] at stepped
      obtain ⟨call, current, input, awaited, ended, finished, stepped⟩ :=
        stepped
      cases stepped
      exact consistent.finishAwaited temporary current awaited finished

theorem Consistent.orderly (consistent : Consistent capacity inputs upload) :
    Orderly inputs upload.log := by
  cases consistent with
  | pending unclosed _ => exact unclosed.orderly
  | finished finished => exact finished.orderly

/-- Every attempt, answered or under way, is at a tile. -/
theorem Consistent.issued_mem {input : PositionInput}
    (consistent : Consistent capacity inputs upload)
    (member : input ∈ issued upload) : input ∈ tiles 0 inputs := by
  rcases List.mem_append.mp member with settled | calling
  · rcases List.mem_append.mp settled with answered | running
    · obtain ⟨call, logged, same⟩ := List.mem_filterMap.mp answered
      cases call with
      | writeAllAt other reply =>
          cases same
          exact consistent.orderly.tiled input reply logged
      | close answer => cases same
    · obtain ⟨task, queued, same⟩ := List.mem_filterMap.mp running
      cases task with
      | ready other result => cases same
      | running other =>
          cases same
          obtain ⟨position, found⟩ := List.mem_iff_getElem?.mp queued
          cases consistent with
          | finished finished => simp [finished.drained] at found
          | pending unclosed _ =>
              exact unclosed.accepted.open_mem
                (running_mem unclosed.aligned found)
  · split at calling
    · rename_i offset bytes current
      obtain ⟨sent, open_, unclosed, _, _, rfl, cached⟩ :=
        consistent.ofCall current
      rw [List.mem_singleton.mp calling]
      exact unclosed.accepted.cached_mem cached
    · rename_i call _ current
      obtain ⟨sent, open_, unclosed, fits⟩ := consistent.ofCall current
      have awaited : awaitedInput call = some input := by
        simpa using calling
      unfold awaitedInput at awaited
      split at awaited
      · cases awaited
        obtain ⟨_, cache, cached, _, places⟩ := fits
        have own : input = ⟨upload.writer.nextOffset, cache⟩ := places.1
        rw [own]
        exact unclosed.accepted.cached_mem cached
      · cases awaited
    · cases calling

/-- A position writer tiles the file.  In every run of a driver that repeats
failed calls, every attempt to write is at the tile of a buffer, tiles do not
overlap, and the file is not closed before all tiles have been written; when
`close` has succeeded the file was closed once, by the last call, and is the
concatenation of the buffers. -/
theorem tiles_file (capacity : Nat) (inputs : List Buffer)
    {events : List Event} {upload : Upload}
    (temporary : ∀ event ∈ events, event.TasksTemporary)
    (ran : Automaton.run step (new capacity inputs) events = some upload) :
    upload.panicked = false ∧
    (∀ input ∈ issued upload, ∃ index, inputs[index]? = some input.bytes ∧
      input.offset = ((inputs.take index).map Buffer.len).sum) ∧
    (∀ (first second : Nat) (body : Buffer), first < second →
      inputs[first]? = some body →
      ((inputs.take first).map Buffer.len).sum + body.len ≤
        ((inputs.take second).map Buffer.len).sum) ∧
    (∀ (closing : Nat) (answer : Except Error Unit),
      upload.log[closing]? = some (.close answer) →
      ∀ (index : Nat) (body : Buffer), inputs[index]? = some body →
        .writeAllAt ⟨((inputs.take index).map Buffer.len).sum, body⟩
          (.answered (.ok ())) ∈ upload.log.take closing) ∧
    (upload.closed = false → .close (.ok ()) ∉ upload.log) ∧
    (upload.closed = true →
      (∃ before, upload.log = before ++ [.close (.ok ())] ∧
        .close (.ok ()) ∉ before) ∧
      ∀ position, file upload.log position =
        (inputs.flatMap Buffer.bytes)[position]?) := by
  have consistent : Consistent capacity inputs upload :=
    Automaton.run_invariant
      (fun consistent temporary stepped => consistent.step temporary stepped)
      (consistent_new capacity inputs) temporary ran
  have orderly := consistent.orderly
  refine ⟨?_, ?_, ?_, ?_, ?_, ?_⟩
  · cases consistent with
    | pending unclosed _ => exact unclosed.sound
    | finished finished => exact finished.sound
  · intro input member
    obtain ⟨index, found, offset⟩ :=
      mem_tiles_iff.mp (consistent.issued_mem member)
    exact ⟨index, found, by simpa [size] using offset⟩
  · intro first second body before found
    exact size_take_add_le before found
  · intro closing answer found index body here
    apply orderly.closedLate closing answer found
    exact mem_tiles_iff.mpr ⟨index, here, by simp [size]⟩
  · intro unclosed
    cases consistent with
    | pending pending _ => exact pending.stillOpen
    | finished finished => cases unclosed.symm.trans finished.closed
  · intro closed
    cases consistent with
    | pending pending _ => cases closed.symm.trans pending.unclosed
    | finished finished =>
        obtain ⟨before, last, once⟩ := finished.closedOnce
        refine ⟨⟨before, last, once⟩, ?_⟩
        have complete : ∀ tile ∈ tiles 0 inputs, Written upload.log tile := by
          intro tile member
          have written := orderly.closedLate before.length (.ok ())
            (by rw [last, List.getElem?_concat_length]) tile member
          exact List.take_subset _ _ written
        exact file_eq orderly.tiled complete

/-- The first write times out while the second one succeeds; the last one is
written by `close`, and closing the file fails once. -/
def sampleSchedule : List Event :=
  [.call, .poll,
    .call, .poll, .poll,
    .call, .poll, .poll,
    .finish 1 (.answered (.ok ())), .finish 0 .timedOut,
    .call, .poll, .poll,
    .call, .poll, .finish 0 (.answered (.ok ())), .poll,
    .poll, .poll, .poll, .wroteLast (.ok ()),
    .closed (.error (Error.new .unexpected "busy")),
    .call, .poll, .closed (.ok ())]

def sampleInputs : List Buffer :=
  [Buffer.fromBytes [1], Buffer.fromBytes [2, 3], Buffer.fromBytes [4]]

theorem tiles_file_sample :
    ∃ upload,
      Automaton.run step (new 2 sampleInputs) sampleSchedule = some upload ∧
      upload.closed = true ∧
      file upload.log 0 = some 1 ∧
      ∀ position, file upload.log position = [1, 2, 3, 4][position]? := by
  obtain ⟨upload, ran, closed, first⟩ :
      ∃ upload,
        Automaton.run step (new 2 sampleInputs) sampleSchedule = some upload ∧
        upload.closed = true ∧ file upload.log 0 = some 1 :=
    ⟨_, rfl, rfl, rfl⟩
  have temporary : ∀ event ∈ sampleSchedule, event.TasksTemporary := by
    simp [sampleSchedule, Event.TasksTemporary, WriteReply.Temporary]
  have tiled := tiles_file 2 sampleInputs temporary ran
  exact ⟨upload, ran, closed, first, (tiled.2.2.2.2.2 closed).2⟩

end OpenDal.PositionUpload
