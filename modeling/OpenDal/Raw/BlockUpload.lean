import Mathlib.Data.List.Nodup
import OpenDal.Raw.BlockWriter

/-!
# What a block writer commits

A driver writes a list of buffers and closes the writer; a call that fails is
issued again until it succeeds.  The environment decides when background
tasks end and how the service answers, the log records every call of the
service that succeeded, and the ids come from a sequence without repetitions.

An id belongs to the attempt that drew it.  Only the attempt that the task
queue accepts leaves its id there, so the ids that `complete_block` receives
are those of the accepted attempts, one for each buffer.
-/

namespace OpenDal.BlockUpload

open BlockWriter

/-- A call of the service that succeeded. -/
inductive ServiceCall (U : Type) where
  | wroteOnce (size : Nat) (body : Buffer)
  | wroteBlock (blockId : U) (size : Nat) (body : Buffer)
  | completed (blockIds : List U)
deriving DecidableEq

variable {U : Type}

def ServiceCall.isCommit : ServiceCall U → Bool
  | .wroteOnce _ _ => true
  | .wroteBlock _ _ _ => false
  | .completed _ => true

def commits (log : List (ServiceCall U)) : List (ServiceCall U) :=
  log.filter ServiceCall.isCommit

def ServiceCall.ofBlock (input : BlockInput U) : ServiceCall U :=
  .wroteBlock input.blockId input.bytes.len input.bytes

inductive Call (U : Type) where
  | write (future : WriteFuture U)
  | close (future : CloseFuture U)

structure Upload (U : Type) where
  writer : BlockWriter U
  /-- The writes that have not been accepted yet. -/
  todo : List Buffer
  call : Option (Call U)
  /-- `close` has returned `Ok`. -/
  closed : Bool
  log : List (ServiceCall U)
  /-- How many ids may have been drawn. -/
  drawn : Nat
  panicked : Bool

inductive Event where
  /-- Issue the next call, or the failed one again. -/
  | call
  | poll
  | wroteOnce (answer : Except Error Unit)
  | completed (answer : Except Error Unit)
  | finish (position : Nat) (reply : WriteReply)
  | finishAwaited (reply : WriteReply)

def new (capacity : Nat) (inputs : List Buffer) : Upload U :=
  { writer := .new capacity
    todo := inputs
    call := none
    closed := false
    log := []
    drawn := 0
    panicked := false }

def afterWrite (upload : Upload U) :
    BlockWriter U × WriteProgress U → Upload U
  | (writer, .suspended future) =>
      { upload with writer, call := some (.write future) }
  | (writer, .returned (.ok ())) =>
      { upload with writer, call := none, todo := upload.todo.tail }
  | (writer, .returned (.error _)) => { upload with writer, call := none }
  | (writer, .panicked _) =>
      { upload with writer, call := none, panicked := true }

def afterClose (upload : Upload U) :
    BlockWriter U × CloseProgress U → Upload U
  | (writer, .suspended future) =>
      { upload with writer, call := some (.close future) }
  | (writer, .returned (.ok ())) =>
      { upload with writer, call := none, closed := true }
  | (writer, .returned (.error _)) => { upload with writer, call := none }
  | (writer, .panicked _) =>
      { upload with writer, call := none, panicked := true }

/-- The log after a block task that was started with `input` has ended. -/
def logBlock (log : List (ServiceCall U)) (input : BlockInput U)
    (reply : WriteReply) : List (ServiceCall U) :=
  if reply.succeeded then log ++ [.ofBlock input] else log

/-- The input of the block task that `execute` awaits directly. -/
def awaitedInput : Call U → Option (BlockInput U)
  | .write (.executing _ (.awaitingTask (.running input))) => some input
  | .close (.executing (.awaitingTask (.running input))) => some input
  | _ => none

/-- The call after the block task that it awaits directly has ended. -/
def Call.finish [ToString U] (reply : WriteReply) : Call U → Option (Call U)
  | .write (.executing bs future) =>
      (future.finish (blockTask U).factory reply).map fun future =>
        .write (.executing bs future)
  | .close (.executing future) =>
      (future.finish (blockTask U).factory reply).map fun future =>
        .close (.executing future)
  | _ => none

/-- The ids are drawn from `uuid`. -/
def step [ToString U] (uuid : Nat → U) (upload : Upload U) :
    Event → Option (Upload U)
  | .call =>
      if upload.closed || upload.call.isSome then
        none
      else
        match upload.todo with
        | bs :: _ =>
            some { upload with call := some (.write (.unresumed bs)) }
        | [] => some { upload with call := some (.close .unresumed) }
  | .poll =>
      let fresh := uuid upload.drawn
      let later := { upload with drawn := upload.drawn + 1 }
      match upload.call with
      | none => none
      | some (.write future) =>
          (upload.writer.pollWrite fresh future).map (afterWrite later)
      | some (.close future) =>
          (upload.writer.pollClose fresh future).map (afterClose later)
  | .wroteOnce answer =>
      match upload.call, answer with
      | some (.close (.writingOnce size body)), .ok () =>
          some (afterClose
            { upload with log := upload.log ++ [.wroteOnce size body] }
            (upload.writer.wroteOnce (.ok ())))
      | some (.close (.writingOnce _ _)), .error err =>
          some (afterClose upload (upload.writer.wroteOnce (.error err)))
      | _, _ => none
  | .completed answer =>
      match upload.call, answer with
      | some (.close .completing), .ok () =>
          some (afterClose
            { upload with
              log := upload.log ++ [.completed upload.writer.blockIds] }
            (upload.writer, .returned (.ok ())))
      | some (.close .completing), .error err =>
          some (afterClose upload (upload.writer, .returned (.error err)))
      | _, _ => none
  | .finish position reply => do
      let tasks ←
        upload.writer.tasks.finish (blockTask U).factory position reply
      match upload.writer.tasks.tasks[position]? with
      | some (.running input) =>
          some { upload with
            writer := { upload.writer with tasks }
            log := logBlock upload.log input reply }
      | _ => none
  | .finishAwaited reply => do
      let call ← upload.call
      let input ← awaitedInput call
      let call ← call.finish reply
      some { upload with
        call := some call
        log := logBlock upload.log input reply }

/-- The service fails block writes only temporarily. -/
def Event.BlocksTemporary : Event → Prop
  | .finish _ reply => reply.Temporary
  | .finishAwaited reply => reply.Temporary
  | _ => True

/-! ## The invariant -/

def contract [ToString U] (log : List (ServiceCall U)) :
    Contract (BlockInput U) (BlockInput U) U :=
  (blockTask U).contract fun input => .ofBlock input ∈ log

/-- The attempts that were accepted, as tasks.  An attempt is the number of
the id that it drew and the buffer. -/
def orders (uuid : Nat → U) (sent : List (Nat × Buffer)) :
    List (BlockInput U) :=
  sent.map fun attempt => ⟨uuid attempt.1, attempt.2⟩

/-- Every buffer has been written under the id in its place. -/
structure Delivered (inputs : List Buffer) (log : List (ServiceCall U))
    (blockIds : List U) : Prop where
  distinct : blockIds.Nodup
  written : List.Forall₂
    (fun body blockId => .wroteBlock blockId body.len body ∈ log)
    inputs blockIds

/-- The one commit that the inputs call for. -/
def Committed (inputs : List Buffer) (log : List (ServiceCall U)) : Prop :=
  inputs.length ≤ 1 ∧
      commits log =
        [.wroteOnce (inputs.headD Buffer.new).len (inputs.headD Buffer.new)] ∨
    2 ≤ inputs.length ∧ ∃ blockIds,
      commits log = [.completed blockIds] ∧ Delivered inputs log blockIds

theorem commits_concat {log : List (ServiceCall U)}
    (uncommitted : commits log = []) {call : ServiceCall U}
    (isCommit : call.isCommit = true) : commits (log ++ [call]) = [call] := by
  simp only [commits, List.filter_append] at uncommitted ⊢
  simp [uncommitted, isCommit]

theorem Delivered.growLog {inputs : List Buffer}
    {log extra : List (ServiceCall U)} {blockIds : List U}
    (delivered : Delivered inputs log blockIds) :
    Delivered inputs (log ++ extra) blockIds where
  distinct := delivered.distinct
  written := delivered.written.imp
    fun _ _ member => List.mem_append_left extra member

theorem Delivered.blockId {inputs : List Buffer} {log : List (ServiceCall U)}
    {blockIds : List U} {index : Nat} {body : Buffer}
    (delivered : Delivered inputs log blockIds)
    (found : inputs[index]? = some body) :
    ∃ blockId, blockIds[index]? = some blockId ∧
      .wroteBlock blockId body.len body ∈ log := by
  obtain ⟨sameLength, related⟩ := List.forall₂_iff_get.mp delivered.written
  obtain ⟨within, rfl⟩ := List.getElem?_eq_some_iff.mp found
  exact ⟨blockIds.get ⟨index, sameLength ▸ within⟩, by simp,
    related index within (sameLength ▸ within)⟩

theorem Committed.growLog {inputs : List Buffer}
    {log extra : List (ServiceCall U)} (committed : Committed inputs log)
    (none : commits extra = []) : Committed inputs (log ++ extra) := by
  have same : commits (log ++ extra) = commits log := by
    rw [commits, List.filter_append]
    exact (congrArg (commits log ++ ·) none).trans (List.append_nil _)
  rcases committed with ⟨few, once⟩ | ⟨several, blockIds, completed, delivered⟩
  · exact .inl ⟨few, same.trans once⟩
  · exact .inr ⟨several, blockIds, same.trans completed, delivered.growLog⟩

theorem logBlock_eq_append (log : List (ServiceCall U))
    (input : BlockInput U) (reply : WriteReply) :
    ∃ extra, logBlock log input reply = log ++ extra ∧
      commits extra = [] ∧
      (reply.succeeded = true → .ofBlock input ∈ extra) := by
  unfold logBlock
  split
  · exact ⟨[.ofBlock input], rfl, rfl, fun _ => by simp⟩
  · rename_i failed
    exact ⟨[], by simp, rfl, fun succeeded => absurd succeeded failed⟩

variable [ToString U]

/-- Where every accepted buffer is: submitted by one of the attempts `sent`,
of which the orders `open_` are still in the queue, or cached. -/
structure Accepted (uuid : Nat → U) (log : List (ServiceCall U))
    (inputs todo : List Buffer) (drawn : Nat) (sent : List (Nat × Buffer))
    (open_ : List (BlockInput U)) (writer : BlockWriter U) : Prop where
  split : inputs = sent.map Prod.snd ++ (writer.cache.toList ++ todo)
  unstarted : writer.started = false → sent = []
  several : writer.started = true → 2 ≤ inputs.length
  filled : writer.started = true → writer.cache = none → todo = []
  increasing : (sent.map Prod.fst).Pairwise (· < ·)
  known : ∀ attempt ∈ sent, attempt.1 < drawn
  collected : ∃ done, orders uuid sent = done ++ open_ ∧
    List.Forall₂ (contract log).delivers done writer.blockIds

/-- An `execute` that submits the cached buffer, with an id that was drawn
after those of the accepted attempts. -/
def Attempting (uuid : Nat → U) (log : List (ServiceCall U))
    (capacity drawn : Nat) (sent : List (Nat × Buffer))
    (writer : BlockWriter U) (future : BlockFuture U) : Prop :=
  ∃ number cache, writer.started = true ∧ writer.cache = some cache ∧
    number < drawn ∧ (∀ attempt ∈ sent, attempt.1 < number) ∧
    future.Places (contract log) capacity ⟨uuid number, cache⟩

/-- The call in flight is at a place where it can be. -/
def CallFits (uuid : Nat → U) (log : List (ServiceCall U))
    (capacity drawn : Nat) (todo : List Buffer) (sent : List (Nat × Buffer))
    (open_ : List (BlockInput U)) (writer : BlockWriter U) : Call U → Prop
  | .write (.unresumed bs) => ∃ rest, todo = bs :: rest
  | .write (.executing bs future) => (∃ rest, todo = bs :: rest) ∧
      Attempting uuid log capacity drawn sent writer future
  | .close .unresumed => todo = []
  | .close (.writingOnce size body) => todo = [] ∧ writer.started = false ∧
      body = writer.cache.getD Buffer.new ∧ size = body.len
  | .close (.executing future) => todo = [] ∧
      Attempting uuid log capacity drawn sent writer future
  | .close (.draining future) => writer.started = true ∧
      writer.cache = none ∧ future.Waits writer.tasks
  | .close .completing => writer.started = true ∧ writer.cache = none ∧
      open_ = []

/-- Nothing has been committed, and every buffer is where it should be. -/
structure Unclosed (uuid : Nat → U) (capacity : Nat) (inputs : List Buffer)
    (sent : List (Nat × Buffer)) (open_ : List (BlockInput U))
    (upload : Upload U) : Prop where
  sound : upload.panicked = false
  unclosed : upload.closed = false
  uncommitted : commits upload.log = []
  aligned : upload.writer.tasks.Aligned (contract upload.log) capacity open_
  accepted : Accepted uuid upload.log inputs upload.todo upload.drawn sent
    open_ upload.writer

inductive Consistent (uuid : Nat → U) (capacity : Nat)
    (inputs : List Buffer) (upload : Upload U) : Prop where
  | pending {sent : List (Nat × Buffer)} {open_ : List (BlockInput U)}
      (unclosed : Unclosed uuid capacity inputs sent open_ upload)
      (fits : ∀ call, upload.call = some call →
        CallFits uuid upload.log capacity upload.drawn upload.todo sent open_
          upload.writer call)
  | committed (sound : upload.panicked = false)
      (closed : upload.closed = true) (idle : upload.call = none)
      (committed : Committed inputs upload.log)

variable {uuid : Nat → U} {capacity drawn : Nat}
  {log extra : List (ServiceCall U)} {inputs todo : List Buffer}
  {sent : List (Nat × Buffer)} {open_ : List (BlockInput U)}
  {writer : BlockWriter U} {upload later : Upload U}

theorem consistent_new (uuid : Nat → U) (capacity : Nat)
    (inputs : List Buffer) :
    Consistent uuid capacity inputs (new capacity inputs) := by
  have accepted : Accepted uuid [] inputs inputs 0 [] []
      (BlockWriter.new capacity) :=
    { split := rfl
      unstarted := fun _ => rfl
      several := by simp [BlockWriter.new]
      filled := by simp [BlockWriter.new]
      increasing := .nil
      known := by simp
      collected := ⟨[], rfl, .nil⟩ }
  have unclosed : Unclosed uuid capacity inputs [] [] (new capacity inputs) :=
    { sound := rfl
      unclosed := rfl
      uncommitted := rfl
      aligned := ConcurrentTasks.aligned_new _ capacity
      accepted }
  exact .pending unclosed (by simp [new])

theorem Unclosed.idle
    (unclosed : Unclosed uuid capacity inputs sent open_ upload)
    (none : upload.call = none) : Consistent uuid capacity inputs upload :=
  .pending unclosed fun call current => by simp [none] at current

theorem Unclosed.calling {call : Call U}
    (unclosed : Unclosed uuid capacity inputs sent open_ upload)
    (current : upload.call = some call)
    (fits : CallFits uuid upload.log capacity upload.drawn upload.todo sent
      open_ upload.writer call) :
    Consistent uuid capacity inputs upload := by
  apply Consistent.pending unclosed
  intro other same
  cases current.symm.trans same
  exact fits

theorem Consistent.ofCall {call : Call U}
    (consistent : Consistent uuid capacity inputs upload)
    (current : upload.call = some call) :
    ∃ sent open_, Unclosed uuid capacity inputs sent open_ upload ∧
      CallFits uuid upload.log capacity upload.drawn upload.todo sent open_
        upload.writer call := by
  cases consistent with
  | pending unclosed fits => exact ⟨_, _, unclosed, fits call current⟩
  | committed _ _ idle _ => cases idle.symm.trans current

/-! ## Accepted attempts -/

theorem Accepted.withTasks
    (accepted : Accepted uuid log inputs todo drawn sent open_ writer)
    (tasks : ConcurrentTasks (BlockInput U) U) :
    Accepted uuid log inputs todo drawn sent open_ { writer with tasks } :=
  { accepted with }

theorem Accepted.draw
    (accepted : Accepted uuid log inputs todo drawn sent open_ writer) :
    Accepted uuid log inputs todo (drawn + 1) sent open_ writer :=
  { accepted with
    known := fun attempt member =>
      Nat.lt_succ_of_lt (accepted.known attempt member) }

theorem Accepted.fill {bs : Buffer} {rest : List Buffer}
    (accepted : Accepted uuid log inputs (bs :: rest) drawn sent open_ writer)
    (empty : writer.cache = none) :
    Accepted uuid log inputs rest drawn sent open_
      { writer with cache := some bs } :=
  { accepted with
    split := by simp [accepted.split, empty]
    filled := by simp }

theorem Accepted.start {bs cache : Buffer} {rest : List Buffer}
    (accepted : Accepted uuid log inputs (bs :: rest) drawn sent open_ writer)
    (cached : writer.cache = some cache) :
    Accepted uuid log inputs (bs :: rest) drawn sent open_
      { writer with started := true } :=
  { accepted with
    unstarted := by simp
    several := fun _ => by
      simp only [accepted.split, cached, List.length_append, List.length_map,
        Option.toList_some, List.length_cons, List.length_nil]
      omega
    filled := by simp [cached] }

theorem Accepted.submit {number : Nat} {cache : Buffer}
    (accepted : Accepted uuid log inputs todo drawn sent open_ writer)
    (started : writer.started = true) (cached : writer.cache = some cache)
    (recent : number < drawn)
    (after : ∀ attempt ∈ sent, attempt.1 < number)
    (tasks : ConcurrentTasks (BlockInput U) U) {next : Option Buffer}
    {rest : List Buffer} (moved : todo = next.toList ++ rest)
    (last : next = none → rest = []) :
    Accepted uuid log inputs rest drawn (sent ++ [(number, cache)])
      (open_ ++ [⟨uuid number, cache⟩])
      { writer with tasks, cache := next } := by
  obtain ⟨done, ordered, delivered⟩ := accepted.collected
  exact
    { split := by simp [accepted.split, cached, moved]
      unstarted := fun fresh => by cases started.symm.trans fresh
      several := accepted.several
      filled := fun _ => last
      increasing := by
        rw [List.map_append, List.pairwise_append]
        refine ⟨accepted.increasing, by simp, ?_⟩
        intro earlier member
        obtain ⟨attempt, found, rfl⟩ := List.mem_map.mp member
        simpa using after attempt found
      known := by
        intro attempt member
        rcases List.mem_append.mp member with earlier | new
        · exact accepted.known attempt earlier
        · cases List.mem_singleton.mp new
          exact recent
      collected := ⟨done, by
        simp only [orders, List.map_append] at ordered ⊢
        simp [ordered], delivered⟩ }

theorem Accepted.collect {order : BlockInput U} {blockId : U}
    (accepted : Accepted uuid log inputs todo drawn sent (order :: open_)
      writer)
    (tasks : ConcurrentTasks (BlockInput U) U)
    (delivers : (contract log).delivers order blockId) :
    Accepted uuid log inputs todo drawn sent open_
      { writer with tasks, blockIds := writer.blockIds ++ [blockId] } := by
  obtain ⟨done, ordered, delivered⟩ := accepted.collected
  exact { accepted with
    collected := ⟨done ++ [order], by simp [ordered],
      List.rel_append delivered (.cons delivers .nil)⟩ }

/-- When nothing is open any more the collected ids are those of the accepted
attempts. -/
theorem Accepted.delivered (distinct : Function.Injective uuid)
    (accepted : Accepted uuid log inputs todo drawn sent [] writer)
    (started : writer.started = true) (uncached : writer.cache = none) :
    Delivered inputs log writer.blockIds := by
  obtain ⟨done, ordered, delivered⟩ := accepted.collected
  rw [List.append_nil] at ordered
  rw [← ordered, orders, List.forall₂_map_left_iff] at delivered
  have all : inputs = sent.map Prod.snd := by
    simp [accepted.split, uncached, accepted.filled started uncached]
  have ids : (sent.map Prod.fst).map uuid = writer.blockIds := by
    have named := delivered.imp fun _ _ delivers => delivers.1.symm
    rw [List.map_map]
    have same : List.Forall₂ (· = ·) (sent.map (uuid ∘ Prod.fst))
        writer.blockIds := List.forall₂_map_left_iff.mpr named
    rwa [List.forall₂_eq_eq_eq] at same
  constructor
  · have nodup : (sent.map Prod.fst).Nodup :=
      accepted.increasing.imp Nat.ne_of_lt
    rw [← ids]
    exact List.Nodup.map distinct nodup
  · rw [all, List.forall₂_map_left_iff]
    apply delivered.imp
    intro attempt blockId given
    obtain ⟨rfl, written⟩ := given
    exact written

/-! ## Resuming `write` -/

theorem Unclosed.draw
    (unclosed : Unclosed uuid capacity inputs sent open_ upload) :
    Unclosed uuid capacity inputs sent open_
      { upload with drawn := upload.drawn + 1 } :=
  { unclosed with accepted := unclosed.accepted.draw }

/-- A number that has just been drawn is above those of all attempts. -/
theorem Unclosed.attempting {cache : Buffer}
    (unclosed : Unclosed uuid capacity inputs sent open_ upload)
    {writer : BlockWriter U} (started : writer.started = true)
    (cached : writer.cache = some cache) :
    Attempting uuid upload.log capacity (upload.drawn + 1) sent writer
      (.unresumed ⟨uuid upload.drawn, cache⟩) :=
  ⟨upload.drawn, cache, started, cached, Nat.lt_succ_self _,
    unclosed.accepted.known, rfl⟩

theorem Unclosed.pollWrite_unresumed {bs : Buffer} {rest : List Buffer}
    {outcome : BlockWriter U × WriteProgress U}
    (unclosed : Unclosed uuid capacity inputs sent open_ upload)
    (next : upload.todo = bs :: rest)
    (resumed : upload.writer.pollWrite (uuid upload.drawn) (.unresumed bs) =
      some outcome) :
    Consistent uuid capacity inputs
      (afterWrite { upload with drawn := upload.drawn + 1 } outcome) := by
  have accepted := unclosed.accepted.draw
  rw [next] at accepted
  cases cached : upload.writer.cache with
  | none =>
      cases started : upload.writer.started with
      | true => cases accepted.filled started cached
      | false =>
          rw [pollWrite_first started cached] at resumed
          cases resumed
          have filled := accepted.fill cached
          have shorter : upload.todo.tail = rest := by simp [next]
          rw [← shorter] at filled
          exact Unclosed.idle { unclosed with accepted := filled } rfl
  | some cache =>
      rw [pollWrite_submit cached] at resumed
      cases resumed
      have begun := accepted.start cached
      rw [← next] at begun
      exact Unclosed.calling { unclosed with accepted := begun } rfl
        ⟨⟨rest, next⟩, unclosed.attempting rfl cached⟩

theorem Unclosed.pollWrite_executing {bs : Buffer} {future : BlockFuture U}
    {outcome : BlockWriter U × WriteProgress U}
    (unclosed : Unclosed uuid capacity inputs sent open_ upload)
    (fits : CallFits uuid upload.log capacity upload.drawn upload.todo sent
      open_ upload.writer (.write (.executing bs future)))
    (resumed : upload.writer.pollWrite (uuid upload.drawn)
      (.executing bs future) = some outcome) :
    Consistent uuid capacity inputs
      (afterWrite { upload with drawn := upload.drawn + 1 } outcome) := by
  have accepted := unclosed.accepted.draw
  obtain ⟨⟨rest, next⟩, number, cache, started, cached, recent, after,
    places⟩ := fits
  simp only [pollWrite, Option.bind_eq_bind, Option.bind_eq_some_iff]
    at resumed
  obtain ⟨⟨tasks, progress⟩, polled, same⟩ := resumed
  cases unclosed.aligned.pollExecute places polled with
  | accepted aligned =>
      cases same
      have moved : upload.todo = (some bs).toList ++ upload.todo.tail := by
        simp [next]
      have submitted := accepted.submit started cached
        (Nat.lt_succ_of_lt recent) after tasks moved (by simp)
      exact Unclosed.idle
        { unclosed with aligned, accepted := submitted } rfl
  | refused fails kept =>
      cases same
      exact Unclosed.idle
        { unclosed with
          aligned := kept fails.1
          accepted := accepted.withTasks tasks } rfl
  | gaveUp fails fatal errored =>
      exact absurd (fails.2.symm.trans fatal) (by simp)
  | suspended aligned places =>
      cases same
      exact Unclosed.calling
        { unclosed with aligned, accepted := accepted.withTasks tasks } rfl
        ⟨⟨rest, next⟩, number, cache, started, cached,
          Nat.lt_succ_of_lt recent, after, places⟩

theorem Consistent.pollWrite {future : WriteFuture U}
    {outcome : BlockWriter U × WriteProgress U}
    (consistent : Consistent uuid capacity inputs upload)
    (current : upload.call = some (.write future))
    (resumed : upload.writer.pollWrite (uuid upload.drawn) future =
      some outcome) :
    Consistent uuid capacity inputs
      (afterWrite { upload with drawn := upload.drawn + 1 } outcome) := by
  obtain ⟨sent, open_, unclosed, fits⟩ := consistent.ofCall current
  cases future with
  | unresumed bs =>
      obtain ⟨rest, next⟩ := fits
      exact unclosed.pollWrite_unresumed next resumed
  | executing bs future => exact unclosed.pollWrite_executing fits resumed

/-! ## Resuming `close` -/

theorem Unclosed.pollClose_unresumed
    {outcome : BlockWriter U × CloseProgress U}
    (unclosed : Unclosed uuid capacity inputs sent open_ upload)
    (finished : upload.todo = [])
    (resumed : upload.writer.pollClose (uuid upload.drawn) .unresumed =
      some outcome) :
    Consistent uuid capacity inputs
      (afterClose { upload with drawn := upload.drawn + 1 } outcome) := by
  cases started : upload.writer.started with
  | false =>
      cases cached : upload.writer.cache with
      | none =>
          simp only [pollClose, started, cached] at resumed
          cases resumed
          exact Unclosed.calling { unclosed.draw with } rfl
            ⟨finished, started, by simp [afterClose, cached], rfl⟩
      | some cache =>
          simp only [pollClose, started, cached] at resumed
          cases resumed
          exact Unclosed.calling { unclosed.draw with } rfl
            ⟨finished, started, by simp [afterClose, cached], rfl⟩
  | true =>
      cases cached : upload.writer.cache with
      | none =>
          simp only [pollClose, started, cached] at resumed
          cases resumed
          exact Unclosed.calling { unclosed.draw with } rfl
            ⟨started, cached, trivial⟩
      | some cache =>
          simp only [pollClose, started, cached] at resumed
          cases resumed
          exact Unclosed.calling { unclosed.draw with } rfl
            ⟨finished, unclosed.attempting started cached⟩

theorem Unclosed.pollClose_executing {future : BlockFuture U}
    {outcome : BlockWriter U × CloseProgress U}
    (unclosed : Unclosed uuid capacity inputs sent open_ upload)
    (fits : CallFits uuid upload.log capacity upload.drawn upload.todo sent
      open_ upload.writer (.close (.executing future)))
    (resumed : upload.writer.pollClose (uuid upload.drawn)
      (.executing future) = some outcome) :
    Consistent uuid capacity inputs
      (afterClose { upload with drawn := upload.drawn + 1 } outcome) := by
  have accepted := unclosed.accepted.draw
  obtain ⟨finished, number, cache, started, cached, recent, after,
    places⟩ := fits
  simp only [pollClose, Option.bind_eq_bind, Option.bind_eq_some_iff]
    at resumed
  obtain ⟨⟨tasks, progress⟩, polled, same⟩ := resumed
  cases unclosed.aligned.pollExecute places polled with
  | accepted aligned =>
      cases same
      have submitted := accepted.submit started cached
        (Nat.lt_succ_of_lt recent) after tasks
        (show upload.todo = (none : Option Buffer).toList ++ upload.todo
          from rfl) (fun _ => finished)
      exact Unclosed.calling
        { unclosed with aligned, accepted := submitted } rfl
        ⟨started, rfl, trivial⟩
  | refused fails kept =>
      cases same
      exact Unclosed.idle
        { unclosed with
          aligned := kept fails.1
          accepted := accepted.withTasks tasks } rfl
  | gaveUp fails fatal errored =>
      exact absurd (fails.2.symm.trans fatal) (by simp)
  | suspended aligned places =>
      cases same
      exact Unclosed.calling
        { unclosed with aligned, accepted := accepted.withTasks tasks } rfl
        ⟨finished, number, cache, started, cached,
          Nat.lt_succ_of_lt recent, after, places⟩

theorem Unclosed.pollClose_draining {future : NextFuture}
    {outcome : BlockWriter U × CloseProgress U}
    (unclosed : Unclosed uuid capacity inputs sent open_ upload)
    (fits : CallFits uuid upload.log capacity upload.drawn upload.todo sent
      open_ upload.writer (.close (.draining future)))
    (resumed : upload.writer.pollClose (uuid upload.drawn)
      (.draining future) = some outcome) :
    Consistent uuid capacity inputs
      (afterClose { upload with drawn := upload.drawn + 1 } outcome) := by
  have accepted := unclosed.accepted.draw
  obtain ⟨started, uncached, waits⟩ := fits
  simp only [pollClose, Option.bind_eq_bind, Option.bind_eq_some_iff]
    at resumed
  obtain ⟨⟨tasks, progress⟩, polled, same⟩ := resumed
  cases unclosed.aligned.pollNext waits polled with
  | delivered oldest delivers aligned =>
      subst oldest
      cases same
      exact Unclosed.calling
        { unclosed with
          aligned
          accepted := accepted.collect tasks delivers } rfl
        ⟨started, uncached, trivial⟩
  | failed fails kept =>
      cases same
      exact Unclosed.idle
        { unclosed with
          aligned := kept fails.1
          accepted := accepted.withTasks tasks } rfl
  | gaveUp fails fatal errored =>
      exact absurd (fails.2.symm.trans fatal) (by simp)
  | drained empty aligned =>
      cases same
      exact Unclosed.calling
        { unclosed with aligned, accepted := accepted.withTasks tasks } rfl
        ⟨started, uncached, empty⟩
  | suspended aligned waits =>
      cases same
      exact Unclosed.calling
        { unclosed with aligned, accepted := accepted.withTasks tasks } rfl
        ⟨started, uncached, waits⟩

theorem Consistent.pollClose {future : CloseFuture U}
    {outcome : BlockWriter U × CloseProgress U}
    (consistent : Consistent uuid capacity inputs upload)
    (current : upload.call = some (.close future))
    (resumed : upload.writer.pollClose (uuid upload.drawn) future =
      some outcome) :
    Consistent uuid capacity inputs
      (afterClose { upload with drawn := upload.drawn + 1 } outcome) := by
  obtain ⟨sent, open_, unclosed, fits⟩ := consistent.ofCall current
  cases future with
  | unresumed => exact unclosed.pollClose_unresumed fits resumed
  | writingOnce size body => cases resumed
  | executing future => exact unclosed.pollClose_executing fits resumed
  | draining future => exact unclosed.pollClose_draining fits resumed
  | completing => cases resumed

/-! ## The answers that commit -/

theorem Consistent.wroteOnce {size : Nat} {body : Buffer}
    (consistent : Consistent uuid capacity inputs upload)
    (current : upload.call = some (.close (.writingOnce size body))) :
    Consistent uuid capacity inputs
      (afterClose { upload with log := upload.log ++ [.wroteOnce size body] }
        (upload.writer.wroteOnce (.ok ()))) := by
  obtain ⟨sent, open_, unclosed, finished, unstarted, rfl, rfl⟩ :=
    consistent.ofCall current
  have split := unclosed.accepted.split
  rw [finished, unclosed.accepted.unstarted unstarted, List.append_nil]
    at split
  have few : inputs.length ≤ 1 := by
    rw [split]
    cases upload.writer.cache <;> simp
  have first : inputs.headD Buffer.new =
      upload.writer.cache.getD Buffer.new := by
    rw [split]
    cases upload.writer.cache <;> rfl
  exact .committed unclosed.sound rfl rfl
    (.inl ⟨few, first ▸ commits_concat unclosed.uncommitted rfl⟩)

theorem Consistent.completed (distinct : Function.Injective uuid)
    (consistent : Consistent uuid capacity inputs upload)
    (current : upload.call = some (.close .completing)) :
    Consistent uuid capacity inputs
      (afterClose
        { upload with
          log := upload.log ++ [.completed upload.writer.blockIds] }
        (upload.writer, .returned (.ok ()))) := by
  obtain ⟨sent, open_, unclosed, started, uncached, rfl⟩ :=
    consistent.ofCall current
  have delivered := unclosed.accepted.delivered distinct started uncached
  exact .committed unclosed.sound rfl rfl
    (.inr ⟨unclosed.accepted.several started, _,
      commits_concat unclosed.uncommitted rfl, delivered.growLog⟩)

/-! ## The end of a block task -/

theorem contract_weaker :
    (contract log).Weaker (contract (log ++ extra)) :=
  WriteTask.contract_weaker fun _ member => List.mem_append_left extra member

theorem Accepted.growLog
    (accepted : Accepted uuid log inputs todo drawn sent open_ writer) :
    Accepted uuid (log ++ extra) inputs todo drawn sent open_ writer := by
  obtain ⟨done, ordered, delivered⟩ := accepted.collected
  exact { accepted with
    collected := ⟨done, ordered, delivered.imp contract_weaker.delivers⟩ }

theorem Attempting.growLog {future : BlockFuture U}
    (attempting : Attempting uuid log capacity drawn sent writer future) :
    Attempting uuid (log ++ extra) capacity drawn sent writer future := by
  obtain ⟨number, cache, started, cached, recent, after, places⟩ := attempting
  exact ⟨number, cache, started, cached, recent, after,
    places.mono contract_weaker⟩

theorem CallFits.finish {call : Call U} {position : Nat} {reply : WriteReply}
    {tasks : ConcurrentTasks (BlockInput U) U}
    (fits : CallFits uuid log capacity drawn todo sent open_ writer call)
    (finished : writer.tasks.finish (blockTask U).factory position reply =
      some tasks) :
    CallFits uuid (log ++ extra) capacity drawn todo sent open_
      { writer with tasks } call := by
  cases call with
  | write future =>
      cases future with
      | unresumed bs => exact fits
      | executing bs future => exact ⟨fits.1, fits.2.growLog⟩
  | close future =>
      cases future with
      | executing future => exact ⟨fits.1, fits.2.growLog⟩
      | draining future =>
          obtain ⟨started, uncached, waits⟩ := fits
          exact ⟨started, uncached, waits.finish finished⟩
      | _ => exact fits

theorem Unclosed.growLog
    (unclosed : Unclosed uuid capacity inputs sent open_ upload)
    (noCommit : commits extra = []) :
    Unclosed uuid capacity inputs sent open_
      { upload with log := upload.log ++ extra } :=
  { unclosed with
    uncommitted := by
      simp only [commits, List.filter_append] at noCommit ⊢
      rw [noCommit, List.append_nil]
      exact unclosed.uncommitted
    aligned := unclosed.aligned.mono contract_weaker
    accepted := unclosed.accepted.growLog }

theorem Consistent.finish {position : Nat} {reply : WriteReply}
    {input : BlockInput U} {tasks : ConcurrentTasks (BlockInput U) U}
    (consistent : Consistent uuid capacity inputs upload)
    (temporary : reply.Temporary)
    (finished : upload.writer.tasks.finish (blockTask U).factory position
      reply = some tasks)
    (running : upload.writer.tasks.tasks[position]? = some (.running input)) :
    Consistent uuid capacity inputs
      { upload with
        writer := { upload.writer with tasks }
        log := logBlock upload.log input reply } := by
  obtain ⟨extra, grown, noCommit, recorded⟩ :=
    logBlock_eq_append upload.log input reply
  rw [grown]
  cases consistent with
  | pending unclosed fits =>
      have aligned : tasks.Aligned (contract (upload.log ++ extra)) capacity
          _ :=
        WriteTask.aligned_finish unclosed.aligned finished running temporary
          (fun _ member => List.mem_append_left extra member)
          (fun succeeded => List.mem_append_right _ (recorded succeeded))
      have kept := unclosed.growLog noCommit
      exact .pending
        { kept with aligned, accepted := kept.accepted.withTasks tasks }
        fun call current => (fits call current).finish finished
  | committed sound closed idle committed =>
      exact .committed sound closed idle (committed.growLog noCommit)

theorem Attempting.finish {next : BlockFuture U} {reply : WriteReply}
    {input : BlockInput U}
    (attempting : Attempting uuid log capacity drawn sent writer
      (.awaitingTask (.running input)))
    (temporary : reply.Temporary)
    (finished : ExecuteFuture.finish (blockTask U).factory reply
      (.awaitingTask (.running input)) = some next)
    (recorded : reply.succeeded = true → .ofBlock input ∈ extra) :
    Attempting uuid (log ++ extra) capacity drawn sent writer next := by
  obtain ⟨number, cache, started, cached, recent, after, places⟩ := attempting
  exact ⟨number, cache, started, cached, recent, after,
    WriteTask.places_finish places finished temporary
      (fun _ member => List.mem_append_left extra member)
      (fun succeeded => List.mem_append_right _ (recorded succeeded))⟩

theorem Consistent.finishAwaited {call ended : Call U} {reply : WriteReply}
    {input : BlockInput U}
    (consistent : Consistent uuid capacity inputs upload)
    (temporary : reply.Temporary) (current : upload.call = some call)
    (awaited : awaitedInput call = some input)
    (finished : call.finish reply = some ended) :
    Consistent uuid capacity inputs
      { upload with
        call := some ended
        log := logBlock upload.log input reply } := by
  obtain ⟨sent, open_, unclosed, fits⟩ := consistent.ofCall current
  obtain ⟨extra, grown, noCommit, recorded⟩ :=
    logBlock_eq_append upload.log input reply
  rw [grown]
  have kept := unclosed.growLog noCommit
  unfold awaitedInput at awaited
  split at awaited
  · cases awaited
    simp only [Call.finish, Option.map_eq_some_iff] at finished
    obtain ⟨future, resolved, rfl⟩ := finished
    exact Unclosed.calling { kept with } rfl
      ⟨fits.1, fits.2.finish temporary resolved recorded⟩
  · cases awaited
    simp only [Call.finish, Option.map_eq_some_iff] at finished
    obtain ⟨future, resolved, rfl⟩ := finished
    exact Unclosed.calling { kept with } rfl
      ⟨fits.1, fits.2.finish temporary resolved recorded⟩
  · cases awaited

/-! ## Whole runs -/

theorem Consistent.step (distinct : Function.Injective uuid) {event : Event}
    (consistent : Consistent uuid capacity inputs upload)
    (temporary : event.BlocksTemporary)
    (stepped : BlockUpload.step uuid upload event = some later) :
    Consistent uuid capacity inputs later := by
  cases event with
  | call =>
      simp only [BlockUpload.step, Bool.or_eq_true, not_or,
        Option.ite_none_left_eq_some] at stepped
      obtain ⟨⟨unclosed, _⟩, stepped⟩ := stepped
      cases consistent with
      | committed _ closed _ _ => exact absurd closed unclosed
      | pending pending _ =>
          split at stepped
          · rename_i bs rest remaining
            cases stepped
            exact Unclosed.calling { pending with } rfl ⟨rest, remaining⟩
          · rename_i remaining
            cases stepped
            exact Unclosed.calling { pending with } rfl remaining
  | poll =>
      simp only [BlockUpload.step] at stepped
      split at stepped
      · cases stepped
      · rename_i current
        obtain ⟨outcome, resumed, rfl⟩ := Option.map_eq_some_iff.mp stepped
        exact consistent.pollWrite current resumed
      · rename_i current
        obtain ⟨outcome, resumed, rfl⟩ := Option.map_eq_some_iff.mp stepped
        exact consistent.pollClose current resumed
  | wroteOnce answer =>
      simp only [BlockUpload.step] at stepped
      split at stepped
      · rename_i current
        cases stepped
        exact consistent.wroteOnce current
      · rename_i current
        cases stepped
        obtain ⟨_, _, unclosed, _⟩ := consistent.ofCall current
        exact Unclosed.idle { unclosed with } rfl
      · cases stepped
  | completed answer =>
      simp only [BlockUpload.step] at stepped
      split at stepped
      · rename_i current
        cases stepped
        exact consistent.completed distinct current
      · rename_i current
        cases stepped
        obtain ⟨_, _, unclosed, _⟩ := consistent.ofCall current
        exact Unclosed.idle { unclosed with } rfl
      · cases stepped
  | finish position reply =>
      simp only [BlockUpload.step, Option.bind_eq_bind,
        Option.bind_eq_some_iff] at stepped
      obtain ⟨tasks, finished, stepped⟩ := stepped
      split at stepped
      · rename_i running
        cases stepped
        exact consistent.finish temporary finished running
      · cases stepped
  | finishAwaited reply =>
      simp only [BlockUpload.step, Option.bind_eq_bind,
        Option.bind_eq_some_iff] at stepped
      obtain ⟨call, current, input, awaited, ended, finished, stepped⟩ :=
        stepped
      cases stepped
      exact consistent.finishAwaited temporary current awaited finished

theorem consistent_of_run (distinct : Function.Injective uuid)
    {events : List Event}
    (temporary : ∀ event ∈ events, event.BlocksTemporary)
    (ran : Automaton.run (step uuid) (new capacity inputs) events =
      some upload) :
    Consistent uuid capacity inputs upload :=
  Automaton.run_invariant
    (fun consistent temporary stepped =>
      consistent.step distinct temporary stepped)
    (consistent_new uuid capacity inputs) temporary ran

/-- A block writer commits exactly the accepted buffers.  In every run of a
driver that repeats failed calls, nothing is committed before `close`
succeeds; after that, the only commit is one `write_once` with the only
buffer, or one `complete_block` with distinct ids, each in the place of a
buffer that has been written under it. -/
theorem commits_blocks_in_order (uuid : Nat → U)
    (distinct : Function.Injective uuid) (capacity : Nat)
    (inputs : List Buffer) {events : List Event} {upload : Upload U}
    (temporary : ∀ event ∈ events, event.BlocksTemporary)
    (ran : Automaton.run (step uuid) (new capacity inputs) events =
      some upload) :
    upload.panicked = false ∧
    (upload.closed = false → commits upload.log = []) ∧
    (upload.closed = true → inputs.length ≤ 1 →
      commits upload.log =
        [.wroteOnce (inputs.headD Buffer.new).len (inputs.headD Buffer.new)]) ∧
    (upload.closed = true → 2 ≤ inputs.length →
      ∃ blockIds, commits upload.log = [.completed blockIds] ∧
        blockIds.length = inputs.length ∧ blockIds.Nodup ∧
        ∀ (index : Nat) (body : Buffer), inputs[index]? = some body →
          ∃ blockId, blockIds[index]? = some blockId ∧
            .wroteBlock blockId body.len body ∈ upload.log) := by
  cases consistent_of_run distinct temporary ran with
  | pending unclosed _ =>
      refine ⟨unclosed.sound, fun _ => unclosed.uncommitted, ?_, ?_⟩
      · intro closed
        cases unclosed.unclosed.symm.trans closed
      · intro closed
        cases unclosed.unclosed.symm.trans closed
  | committed sound closed _ committed =>
      refine ⟨sound, ?_, ?_, ?_⟩
      · intro unclosed
        cases unclosed.symm.trans closed
      · intro _ few
        rcases committed with ⟨_, once⟩ | ⟨several, _⟩
        · exact once
        · omega
      · intro _ several
        rcases committed with ⟨few, _⟩ | ⟨_, blockIds, completed, delivered⟩
        · omega
        · exact ⟨blockIds, completed, delivered.written.length_eq.symm,
            delivered.distinct, fun index body found =>
              delivered.blockId found⟩

/-- Two blocks are in the queue when the first one times out; the failure
surfaces in `close`, which draws a new id when it is issued again. -/
def sampleSchedule : List Event :=
  [.call, .poll,
    .call, .poll, .poll,
    .call, .poll, .poll,
    .finish 1 (.answered (.ok ())), .finish 0 .timedOut,
    .call, .poll, .poll,
    .call, .poll, .poll,
    .finish 0 (.answered (.ok ())), .poll,
    .poll, .poll, .poll, .finish 0 (.answered (.ok ())), .poll,
    .poll, .completed (.ok ())]

def sampleInputs : List Buffer :=
  [Buffer.fromBytes [1], Buffer.fromBytes [2, 3], Buffer.new]

theorem commits_blocks_in_order_sample :
    ∃ upload,
      Automaton.run (step id) (new 2 sampleInputs) sampleSchedule =
        some upload ∧
      upload.closed = true ∧
      commits upload.log = [.completed [1, 3, 7]] ∧
      upload.panicked = false := by
  obtain ⟨upload, ran, closed, committed⟩ :
      ∃ upload,
        Automaton.run (step id) (new 2 sampleInputs) sampleSchedule =
          some upload ∧
        upload.closed = true ∧
        commits upload.log = [.completed [1, 3, 7]] :=
    ⟨_, rfl, rfl, rfl⟩
  have temporary : ∀ event ∈ sampleSchedule, event.BlocksTemporary := by
    simp [sampleSchedule, Event.BlocksTemporary, WriteReply.Temporary]
  exact ⟨upload, ran, closed, committed,
    (commits_blocks_in_order id Function.injective_id 2 sampleInputs
      temporary ran).1⟩

end OpenDal.BlockUpload
