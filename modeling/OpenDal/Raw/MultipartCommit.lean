import OpenDal.Raw.MultipartUpload

/-!
# Every step of an upload keeps the invariant

First the three things that can happen to an upload in progress: a buffer is
submitted, a part is collected, the last part has been collected.  Then one
theorem for each kind of event, and the result about whole runs.
-/

namespace OpenDal.MultipartUpload

open MultipartWriter

variable {log extra : List ServiceCall} {capacity : Nat}
  {inputs todo : List Buffer} {open_ : List WriteInput}
  {writer : MultipartWriter} {upload later : Upload}
  {uploadId : String} {sent : List Buffer} {cache : Buffer}

/-! ## An upload in progress -/

theorem Uploading.start (known : writer.uploadId = some uploadId)
    (started : .initiated uploadId ∈ log)
    (uncounted : writer.nextPartNumber = 0) (noParts : writer.parts = []) :
    Uploading log writer uploadId [] [] where
  known := known
  started := started
  counted := uncounted
  collected := ⟨[], rfl, noParts ▸ .nil⟩

theorem Uploading.submit (uploading : Uploading log writer uploadId sent open_)
    (tasks : ConcurrentTasks WriteInput MultipartPart)
    (next : Option Buffer) (cache : Buffer) :
    Uploading log
      { writer with
        tasks
        cache := next
        nextPartNumber := writer.nextPartNumber + 1 }
      uploadId (sent ++ [cache])
      (open_ ++ [writer.nextInput uploadId cache]) := by
  obtain ⟨done, split, parts⟩ := uploading.collected
  exact
    { known := uploading.known
      started := uploading.started
      counted := by simp [uploading.counted]
      collected := ⟨done, by
        rw [orders_concat, split, nextInput, uploading.counted]
        simp, parts⟩ }

theorem Uploading.collect {order : WriteInput} {part : MultipartPart}
    (uploading : Uploading log writer uploadId sent (order :: open_))
    (tasks : ConcurrentTasks WriteInput MultipartPart)
    (delivers : (contract log).delivers order part) :
    Uploading log { writer with tasks, parts := writer.parts ++ [part] }
      uploadId sent open_ := by
  obtain ⟨done, split, parts⟩ := uploading.collected
  exact
    { known := uploading.known
      started := uploading.started
      counted := uploading.counted
      collected := ⟨done ++ [order], by simp [split],
        List.rel_append parts (.cons delivers .nil)⟩ }

theorem Uploading.collectedAll
    (uploading : Uploading log writer uploadId sent []) :
    List.Forall₂ (contract log).delivers (orders uploadId sent)
      writer.parts := by
  obtain ⟨done, split, parts⟩ := uploading.collected
  rw [split, List.append_nil]
  exact parts

theorem Uploading.length_parts
    (uploading : Uploading log writer uploadId sent []) :
    writer.parts.length = writer.nextPartNumber := by
  rw [uploading.counted, ← uploading.collectedAll.length_eq, orders,
    List.length_mapIdx]

/-! ## Reading the phase off the writer -/

theorem Phase.withTasks (phase : Phase log inputs todo open_ writer)
    (tasks : ConcurrentTasks WriteInput MultipartPart) :
    Phase log inputs todo open_ { writer with tasks } := by
  cases phase with
  | buffering unknown uncounted noParts noOrders cached =>
      exact .buffering unknown uncounted noParts noOrders cached
  | uploading upload cached split several =>
      exact .uploading { upload with } cached split several
  | finishing upload uncached finished several =>
      exact .finishing { upload with } uncached finished several

theorem Phase.of_unknown (phase : Phase log inputs todo open_ writer)
    (unknown : writer.uploadId = none) :
    writer.nextPartNumber = 0 ∧ writer.parts = [] ∧ open_ = [] ∧
      inputs = writer.cache.toList ++ todo := by
  cases phase with
  | buffering _ uncounted noParts noOrders cached =>
      exact ⟨uncounted, noParts, noOrders, cached⟩
  | uploading upload _ _ _ => simp [upload.known] at unknown
  | finishing upload _ _ _ => simp [upload.known] at unknown

theorem Phase.of_cached (phase : Phase log inputs todo open_ writer)
    (known : writer.uploadId = some uploadId)
    (cached : writer.cache = some cache) :
    ∃ sent, Uploading log writer uploadId sent open_ ∧
      inputs = sent ++ cache :: todo ∧ 2 ≤ inputs.length := by
  cases phase with
  | buffering unknown _ _ _ _ => simp [known] at unknown
  | uploading upload present split several =>
      cases known.symm.trans upload.known
      cases cached.symm.trans present
      exact ⟨_, upload, split, several⟩
  | finishing _ uncached _ _ => simp [cached] at uncached

theorem Phase.of_uncached (phase : Phase log inputs todo open_ writer)
    (known : writer.uploadId = some uploadId)
    (uncached : writer.cache = none) :
    Uploading log writer uploadId inputs open_ ∧ todo = [] ∧
      2 ≤ inputs.length := by
  cases phase with
  | buffering unknown _ _ _ _ => simp [known] at unknown
  | uploading _ present _ _ => simp [uncached] at present
  | finishing upload _ finished several =>
      cases known.symm.trans upload.known
      exact ⟨upload, finished, several⟩

/-! ## States before `close` has succeeded -/

/-- Nothing has been committed, and every buffer is where it should be. -/
structure Unclosed (capacity : Nat) (inputs : List Buffer)
    (upload : Upload) : Prop where
  sound : upload.panicked = false
  unclosed : upload.closed = false
  uncommitted : commits upload.log = []
  phase : ∃ open_,
    upload.writer.tasks.Aligned (contract upload.log) capacity open_ ∧
    Phase upload.log inputs upload.todo open_ upload.writer

theorem Consistent.toUnclosed (consistent : Consistent capacity inputs upload)
    (unclosed : upload.closed = false) : Unclosed capacity inputs upload where
  sound := consistent.sound
  unclosed := unclosed
  uncommitted := (consistent.pending unclosed).uncommitted
  phase := (consistent.pending unclosed).phase

theorem Consistent.ofCall {call : Call}
    (consistent : Consistent capacity inputs upload)
    (current : upload.call = some call) :
    Unclosed capacity inputs upload ∧
      CallFits upload.log capacity inputs upload.todo upload.writer call := by
  have unclosed : upload.closed = false := by
    by_contra closed
    have idle := (consistent.committed (by simpa using closed)).1
    simp [current] at idle
  exact ⟨consistent.toUnclosed unclosed,
    (consistent.pending unclosed).call call current⟩

theorem Unclosed.idle (pending : Unclosed capacity inputs upload)
    (none : upload.call = none) : Consistent capacity inputs upload where
  sound := pending.sound
  pending := fun _ =>
    { uncommitted := pending.uncommitted
      phase := pending.phase
      call := fun call current => by simp [none] at current }
  committed := fun closed => by simp [pending.unclosed] at closed

theorem Unclosed.calling {call : Call}
    (pending : Unclosed capacity inputs upload)
    (current : upload.call = some call)
    (fits : CallFits upload.log capacity inputs upload.todo upload.writer
      call) :
    Consistent capacity inputs upload where
  sound := pending.sound
  pending := fun _ =>
    { uncommitted := pending.uncommitted
      phase := pending.phase
      call := fun other same => by
        cases current.symm.trans same
        exact fits }
  committed := fun closed => by simp [pending.unclosed] at closed

/-! ## Resuming `write` -/

theorem Phase.submitCache {bs : Buffer} {rest : List Buffer}
    (phase : Phase log inputs todo open_ writer)
    (next : todo = bs :: rest) (known : writer.uploadId = some uploadId) :
    ∃ cache, writer.cache = some cache ∧
      writer.submitCache uploadId bs =
        (writer, .suspended
          (.executing bs (.unresumed (writer.nextInput uploadId cache)))) := by
  cases cached : writer.cache with
  | none =>
      obtain ⟨_, finished, _⟩ := phase.of_uncached known cached
      simp [next] at finished
  | some cache =>
      exact ⟨cache, rfl, by simp [MultipartWriter.submitCache, cached]⟩

theorem Unclosed.pollWrite_unresumed {bs : Buffer} {rest : List Buffer}
    {outcome : MultipartWriter × WriteProgress}
    (pending : Unclosed capacity inputs upload)
    (next : upload.todo = bs :: rest)
    (resumed : upload.writer.pollWrite (.unresumed bs) = some outcome) :
    Consistent capacity inputs (afterWrite upload outcome) := by
  obtain ⟨open_, aligned, phase⟩ := pending.phase
  cases known : upload.writer.uploadId with
  | some uploadId =>
      obtain ⟨cache, cached, submitted⟩ := phase.submitCache next known
      simp only [MultipartWriter.pollWrite, known, submitted,
        Option.some.injEq] at resumed
      subst resumed
      exact Unclosed.calling
        { pending with phase := ⟨open_, aligned, phase⟩ } rfl
        ⟨⟨rest, next⟩, uploadId, cache, known, cached, rfl⟩
  | none =>
      obtain ⟨uncounted, noParts, noOrders, split⟩ :=
        phase.of_unknown known
      cases cached : upload.writer.cache with
      | none =>
          simp only [MultipartWriter.pollWrite, known, cached, fillCache,
            Option.some.injEq] at resumed
          subst resumed
          have filled : inputs = [bs] ++ upload.todo.tail := by
            simp [split, cached, next]
          exact Unclosed.idle
            { pending with
              phase := ⟨open_, aligned,
                .buffering rfl uncounted noParts noOrders filled⟩ } rfl
      | some cache =>
          simp only [MultipartWriter.pollWrite, known, cached,
            Option.some.injEq] at resumed
          subst resumed
          exact Unclosed.calling
            { pending with phase := ⟨open_, aligned, phase⟩ } rfl
            ⟨⟨rest, next⟩, known, by simp [afterWrite, cached]⟩

theorem Unclosed.pollWrite_executing {bs : Buffer} {future : PartFuture}
    {outcome : MultipartWriter × WriteProgress}
    (pending : Unclosed capacity inputs upload)
    (fits : CallFits upload.log capacity inputs upload.todo upload.writer
      (.write (.executing bs future)))
    (resumed : upload.writer.pollWrite (.executing bs future) =
      some outcome) :
    Consistent capacity inputs (afterWrite upload outcome) := by
  obtain ⟨open_, aligned, phase⟩ := pending.phase
  obtain ⟨⟨rest, next⟩, uploadId, cache, known, cached, places⟩ := fits
  simp only [MultipartWriter.pollWrite, Option.bind_eq_bind,
    Option.bind_eq_some_iff] at resumed
  obtain ⟨⟨tasks, progress⟩, polled, same⟩ := resumed
  cases aligned.pollExecute places polled with
  | accepted aligned =>
      obtain ⟨sent, uploading, split, several⟩ :=
        phase.of_cached known cached
      cases same
      have moved : inputs = (sent ++ [cache]) ++ bs :: upload.todo.tail := by
        simp [split, next]
      exact Unclosed.idle
        { pending with
          phase := ⟨_, aligned, .uploading
            (uploading.submit tasks (some bs) cache) rfl moved several⟩ } rfl
  | refused fails kept =>
      cases same
      exact Unclosed.idle
        { pending with
          phase := ⟨open_, kept fails.1, phase.withTasks tasks⟩ } rfl
  | gaveUp fails fatal errored =>
      exact absurd (fails.2.symm.trans fatal) (by simp)
  | suspended aligned places =>
      cases same
      exact Unclosed.calling
        { pending with phase := ⟨open_, aligned, phase.withTasks tasks⟩ } rfl
        ⟨⟨rest, next⟩, uploadId, cache, known, cached, places⟩

theorem Consistent.pollWrite {future : WriteFuture}
    {outcome : MultipartWriter × WriteProgress}
    (consistent : Consistent capacity inputs upload)
    (current : upload.call = some (.write future))
    (resumed : upload.writer.pollWrite future = some outcome) :
    Consistent capacity inputs (afterWrite upload outcome) := by
  obtain ⟨pending, fits⟩ := consistent.ofCall current
  cases future with
  | unresumed bs =>
      obtain ⟨rest, next⟩ := fits
      exact pending.pollWrite_unresumed next resumed
  | initiating bs => cases resumed
  | executing bs future => exact pending.pollWrite_executing fits resumed

theorem Unclosed.growLog (pending : Unclosed capacity inputs upload)
    (noCommit : commits extra = []) :
    Unclosed capacity inputs { upload with log := upload.log ++ extra } := by
  obtain ⟨open_, aligned, phase⟩ := pending.phase
  exact
    { pending with
      uncommitted := by
        simp only [commits, List.filter_append] at noCommit ⊢
        rw [noCommit, List.append_nil]
        exact pending.uncommitted
      phase := ⟨open_, aligned.mono contract_weaker, phase.growLog⟩ }

theorem Consistent.initiated {bs : Buffer}
    (consistent : Consistent capacity inputs upload)
    (current : upload.call = some (.write (.initiating bs))) :
    Consistent capacity inputs
      (afterWrite { upload with log := upload.log ++ [.initiated uploadId] }
        (upload.writer.initiated bs (.ok uploadId))) := by
  obtain ⟨pending, ⟨rest, next⟩, unknown, present⟩ := consistent.ofCall current
  obtain ⟨cache, cached⟩ := Option.ne_none_iff_exists'.mp present
  obtain ⟨open_, aligned, phase⟩ := pending.phase
  obtain ⟨uncounted, noParts, noOrders, split⟩ := phase.of_unknown unknown
  subst noOrders
  have several : 2 ≤ inputs.length := by
    rw [split, next, cached]
    simp
  have first : inputs = [] ++ cache :: upload.todo := by simp [split, cached]
  have started : ServiceCall.initiated uploadId ∈
      upload.log ++ [.initiated uploadId] := by simp
  simp only [MultipartWriter.initiated, MultipartWriter.submitCache, cached]
  exact Unclosed.calling
    { pending.growLog (show commits [.initiated uploadId] = [] from rfl) with
      phase := ⟨[], aligned.mono contract_weaker, .uploading
        (.start rfl started uncounted noParts) rfl first several⟩ } rfl
    ⟨⟨rest, next⟩, uploadId, cache, rfl, rfl, rfl⟩

/-! ## Resuming `close` -/

theorem Unclosed.pollClose_unresumed
    {outcome : MultipartWriter × CloseProgress}
    (pending : Unclosed capacity inputs upload)
    (finished : upload.todo = [])
    (resumed : upload.writer.pollClose .unresumed = some outcome) :
    Consistent capacity inputs (afterClose upload outcome) := by
  obtain ⟨open_, aligned, phase⟩ := pending.phase
  cases known : upload.writer.uploadId with
  | none =>
      cases cached : upload.writer.cache with
      | none =>
          simp only [MultipartWriter.pollClose, known, cached,
            Option.some.injEq] at resumed
          subst resumed
          exact Unclosed.calling
            { pending with phase := ⟨open_, aligned, phase⟩ } rfl
            ⟨finished, known, by simp [afterClose, cached], rfl⟩
      | some cache =>
          simp only [MultipartWriter.pollClose, known, cached,
            Option.some.injEq] at resumed
          subst resumed
          exact Unclosed.calling
            { pending with phase := ⟨open_, aligned, phase⟩ } rfl
            ⟨finished, known, by simp [afterClose, cached], rfl⟩
  | some uploadId =>
      cases cached : upload.writer.cache with
      | none =>
          simp only [MultipartWriter.pollClose, known, cached,
            Option.some.injEq] at resumed
          subst resumed
          exact Unclosed.calling
            { pending with phase := ⟨open_, aligned, phase⟩ } rfl
            ⟨finished, known, cached, trivial⟩
      | some cache =>
          simp only [MultipartWriter.pollClose, known, cached,
            Option.some.injEq] at resumed
          subst resumed
          exact Unclosed.calling
            { pending with phase := ⟨open_, aligned, phase⟩ } rfl
            ⟨finished, known, cache, cached, rfl⟩

theorem Unclosed.pollClose_executing {future : PartFuture}
    {outcome : MultipartWriter × CloseProgress}
    (pending : Unclosed capacity inputs upload)
    (fits : CallFits upload.log capacity inputs upload.todo upload.writer
      (.close (.executing uploadId future)))
    (resumed : upload.writer.pollClose (.executing uploadId future) =
      some outcome) :
    Consistent capacity inputs (afterClose upload outcome) := by
  obtain ⟨open_, aligned, phase⟩ := pending.phase
  obtain ⟨finished, known, cache, cached, places⟩ := fits
  simp only [MultipartWriter.pollClose, Option.bind_eq_bind,
    Option.bind_eq_some_iff] at resumed
  obtain ⟨⟨tasks, progress⟩, polled, same⟩ := resumed
  cases aligned.pollExecute places polled with
  | accepted aligned =>
      obtain ⟨sent, uploading, split, several⟩ :=
        phase.of_cached known cached
      cases same
      have submitted := uploading.submit tasks none cache
      have all : inputs = sent ++ [cache] := by simp [split, finished]
      rw [← all] at submitted
      exact Unclosed.calling
        { pending with
          phase := ⟨_, aligned, .finishing submitted rfl finished several⟩ }
        rfl ⟨finished, known, rfl, trivial⟩
  | refused fails kept =>
      cases same
      exact Unclosed.idle
        { pending with
          phase := ⟨open_, kept fails.1, phase.withTasks tasks⟩ } rfl
  | gaveUp fails fatal errored =>
      exact absurd (fails.2.symm.trans fatal) (by simp)
  | suspended aligned places =>
      cases same
      exact Unclosed.calling
        { pending with phase := ⟨open_, aligned, phase.withTasks tasks⟩ } rfl
        ⟨finished, known, cache, cached, places⟩

theorem Unclosed.pollClose_draining {future : NextFuture}
    {outcome : MultipartWriter × CloseProgress}
    (pending : Unclosed capacity inputs upload)
    (fits : CallFits upload.log capacity inputs upload.todo upload.writer
      (.close (.draining uploadId future)))
    (resumed : upload.writer.pollClose (.draining uploadId future) =
      some outcome) :
    Consistent capacity inputs (afterClose upload outcome) := by
  obtain ⟨open_, aligned, phase⟩ := pending.phase
  obtain ⟨finished, known, uncached, waits⟩ := fits
  obtain ⟨uploading, _, several⟩ := phase.of_uncached known uncached
  simp only [MultipartWriter.pollClose, Option.bind_eq_bind,
    Option.bind_eq_some_iff] at resumed
  obtain ⟨⟨tasks, progress⟩, polled, same⟩ := resumed
  cases aligned.pollNext waits polled with
  | delivered oldest delivers kept =>
      subst oldest
      cases same
      exact Unclosed.calling
        { pending with
          phase := ⟨_, kept, .finishing
            (uploading.collect tasks delivers) uncached finished several⟩ }
        rfl ⟨finished, known, uncached, trivial⟩
  | failed fails kept =>
      cases same
      exact Unclosed.idle
        { pending with
          phase := ⟨open_, kept fails.1, phase.withTasks tasks⟩ } rfl
  | gaveUp fails fatal errored =>
      exact absurd (fails.2.symm.trans fatal) (by simp)
  | drained empty kept =>
      subst empty
      simp only [uploading.length_parts, ne_eq, not_true_eq_false,
        if_false, Option.some.injEq] at same
      subst same
      exact Unclosed.calling
        { pending with phase := ⟨[], kept, phase.withTasks tasks⟩ } rfl
        ⟨known, uploading.started, several, uploading.collectedAll⟩
  | suspended aligned waits =>
      cases same
      exact Unclosed.calling
        { pending with phase := ⟨open_, aligned, phase.withTasks tasks⟩ } rfl
        ⟨finished, known, uncached, waits⟩

theorem Consistent.pollClose {future : CloseFuture}
    {outcome : MultipartWriter × CloseProgress}
    (consistent : Consistent capacity inputs upload)
    (current : upload.call = some (.close future))
    (resumed : upload.writer.pollClose future = some outcome) :
    Consistent capacity inputs (afterClose upload outcome) := by
  obtain ⟨pending, fits⟩ := consistent.ofCall current
  cases future with
  | unresumed => exact pending.pollClose_unresumed fits resumed
  | writingOnce size body => cases resumed
  | executing uploadId future => exact pending.pollClose_executing fits resumed
  | draining uploadId future => exact pending.pollClose_draining fits resumed
  | completing uploadId => cases resumed

/-! ## The answers that commit -/

theorem commits_concat (uncommitted : commits log = []) {call : ServiceCall}
    (isCommit : call.isCommit = true) : commits (log ++ [call]) = [call] := by
  simp only [commits, List.filter_append] at uncommitted ⊢
  simp [uncommitted, isCommit]

theorem Consistent.wroteOnce {size : Nat} {body : Buffer}
    (consistent : Consistent capacity inputs upload)
    (current : upload.call = some (.close (.writingOnce size body))) :
    Consistent capacity inputs
      (afterClose { upload with log := upload.log ++ [.wroteOnce size body] }
        (upload.writer.wroteOnce (.ok ()))) := by
  obtain ⟨pending, finished, unknown, cached, rfl⟩ := consistent.ofCall current
  obtain ⟨open_, aligned, phase⟩ := pending.phase
  obtain ⟨_, _, _, split⟩ := phase.of_unknown unknown
  rw [finished, List.append_nil] at split
  have few : inputs.length ≤ 1 := by
    rw [split]
    cases upload.writer.cache <;> simp
  have first : inputs.headD Buffer.new = body := by
    rw [split, cached]
    cases upload.writer.cache <;> rfl
  exact
    { sound := pending.sound
      pending := fun unclosed => by cases unclosed
      committed := fun _ => ⟨rfl, .inl ⟨few, first ▸
        commits_concat pending.uncommitted rfl⟩⟩ }

theorem Consistent.completed
    (consistent : Consistent capacity inputs upload)
    (current : upload.call = some (.close (.completing uploadId))) :
    Consistent capacity inputs
      (afterClose
        { upload with
          log := upload.log ++ [.completed uploadId upload.writer.parts] }
        (upload.writer, .returned (.ok ()))) := by
  obtain ⟨pending, known, started, several, delivered⟩ :=
    consistent.ofCall current
  exact
    { sound := pending.sound
      pending := fun unclosed => by cases unclosed
      committed := fun _ => ⟨rfl, .inr ⟨several, uploadId,
        upload.writer.parts, commits_concat pending.uncommitted rfl,
        List.mem_append_left _ started,
        delivered.imp contract_weaker.delivers⟩⟩ }

/-! ## The end of a part task -/

theorem CallFits.withTasks {call : Call} {position : Nat} {reply : PartReply}
    {tasks : ConcurrentTasks WriteInput MultipartPart}
    (fits : CallFits log capacity inputs todo writer call)
    (finished : writer.tasks.finish writePart position reply = some tasks) :
    CallFits log capacity inputs todo { writer with tasks } call := by
  cases call with
  | write future => cases future <;> exact fits
  | close future =>
      cases future with
      | draining uploadId future =>
          obtain ⟨ended, known, uncached, waits⟩ := fits
          exact ⟨ended, known, uncached, waits.finish finished⟩
      | _ => exact fits

theorem Consistent.finish {position : Nat} {reply : PartReply}
    {input : WriteInput} {tasks : ConcurrentTasks WriteInput MultipartPart}
    (consistent : Consistent capacity inputs upload)
    (temporary : ∀ err, reply = .answered (.error err) →
      err.isTemporary = true)
    (finished : upload.writer.tasks.finish writePart position reply =
      some tasks)
    (running : upload.writer.tasks.tasks[position]? = some (.running input)) :
    Consistent capacity inputs
      { upload with
        writer := { upload.writer with tasks }
        log := logPart upload.log input reply } := by
  obtain ⟨extra, grown, noCommit⟩ := logPart_eq_append upload.log input reply
  refine
    { sound := consistent.sound
      pending := fun unclosed => ?_
      committed := fun closed => ?_ }
  · have pending := consistent.toUnclosed unclosed
    obtain ⟨open_, aligned, phase⟩ := (pending.growLog noCommit).phase
    have kept : tasks.Aligned (contract (logPart upload.log input reply))
        capacity open_ := by
      apply (grown ▸ aligned).finish finished
      intro order started handedBack result found serves produced
      cases running.symm.trans found
      exact contract_respects temporary serves produced
    exact
      { uncommitted := grown ▸ (pending.growLog noCommit).uncommitted
        phase := ⟨open_, kept, grown ▸ phase.withTasks tasks⟩
        call := fun call current => grown ▸
          (((consistent.pending unclosed).call call current).withTasks
            finished).growLog }
  · obtain ⟨idle, committed⟩ := consistent.committed closed
    exact ⟨idle, grown ▸ committed.growLog noCommit⟩

private theorem places_finish {order input : WriteInput}
    {next : PartFuture} {reply : PartReply}
    (places : ExecuteFuture.Places (contract log) capacity order
      (.awaitingTask (.running input)))
    (temporary : ∀ err, reply = .answered (.error err) →
      err.isTemporary = true)
    (finished : ExecuteFuture.finish writePart reply
      (.awaitingTask (.running input)) = some next) :
    next.Places (contract (logPart log input reply)) capacity order := by
  obtain ⟨extra, grown, _⟩ := logPart_eq_append log input reply
  have weaker : (contract log).Weaker (contract (logPart log input reply)) :=
    grown ▸ contract_weaker
  apply (places.mono weaker).finish finished
  intro started handedBack result same serves produced
  cases same
  exact contract_respects temporary serves produced

theorem CallFits.finish {call ended : Call} {reply : PartReply}
    {input : WriteInput}
    (fits : CallFits log capacity inputs todo writer call)
    (temporary : ∀ err, reply = .answered (.error err) →
      err.isTemporary = true)
    (awaited : awaitedInput call = some input)
    (finished : call.finish reply = some ended) :
    CallFits (logPart log input reply) capacity inputs todo writer ended := by
  unfold awaitedInput at awaited
  split at awaited
  · cases awaited
    obtain ⟨next, uploadId, cache, known, cached, places⟩ := fits
    simp only [Call.finish, Option.map_eq_some_iff] at finished
    obtain ⟨future, resolved, rfl⟩ := finished
    exact ⟨next, uploadId, cache, known, cached,
      places_finish places temporary resolved⟩
  · cases awaited
    obtain ⟨closing, known, cache, cached, places⟩ := fits
    simp only [Call.finish, Option.map_eq_some_iff] at finished
    obtain ⟨future, resolved, rfl⟩ := finished
    exact ⟨closing, known, cache, cached,
      places_finish places temporary resolved⟩
  · cases awaited

theorem Consistent.finishAwaited {call ended : Call} {reply : PartReply}
    {input : WriteInput}
    (consistent : Consistent capacity inputs upload)
    (temporary : ∀ err, reply = .answered (.error err) →
      err.isTemporary = true)
    (current : upload.call = some call)
    (awaited : awaitedInput call = some input)
    (finished : call.finish reply = some ended) :
    Consistent capacity inputs
      { upload with
        call := some ended
        log := logPart upload.log input reply } := by
  obtain ⟨pending, fits⟩ := consistent.ofCall current
  obtain ⟨extra, grown, noCommit⟩ := logPart_eq_append upload.log input reply
  have kept := pending.growLog noCommit
  rw [← grown] at kept
  exact Unclosed.calling { kept with } rfl
    (fits.finish temporary awaited finished)

/-! ## Whole runs -/

theorem Event.partsTemporary.reply {event : Event} {reply : PartReply}
    (temporary : event.partsTemporary)
    (ends : event = .finishAwaited reply ∨
      ∃ position, event = .finish position reply) :
    ∀ err, reply = .answered (.error err) → err.isTemporary = true := by
  intro err same
  subst same
  rcases ends with rfl | ⟨position, rfl⟩
  · exact temporary
  · exact temporary

theorem Consistent.step {event : Event}
    (consistent : Consistent capacity inputs upload)
    (temporary : event.partsTemporary)
    (stepped : MultipartUpload.step upload event = some later) :
    Consistent capacity inputs later := by
  cases event with
  | call =>
      simp only [MultipartUpload.step, Bool.or_eq_true, not_or,
        Option.ite_none_left_eq_some] at stepped
      obtain ⟨⟨unclosed, _⟩, stepped⟩ := stepped
      have pending := consistent.toUnclosed (by simpa using unclosed)
      split at stepped
      · rename_i bs rest remaining
        cases stepped
        exact Unclosed.calling { pending with } rfl ⟨rest, remaining⟩
      · rename_i remaining
        cases stepped
        exact Unclosed.calling { pending with } rfl remaining
  | poll =>
      cases current : upload.call with
      | none => simp [MultipartUpload.step, current] at stepped
      | some call =>
          cases call with
          | write future =>
              simp only [MultipartUpload.step, current,
                Option.map_eq_some_iff] at stepped
              obtain ⟨outcome, resumed, rfl⟩ := stepped
              exact consistent.pollWrite current resumed
          | close future =>
              simp only [MultipartUpload.step, current,
                Option.map_eq_some_iff] at stepped
              obtain ⟨outcome, resumed, rfl⟩ := stepped
              exact consistent.pollClose current resumed
  | drop =>
      cases current : upload.call with
      | none => simp [MultipartUpload.step, current] at stepped
      | some call =>
          simp only [MultipartUpload.step, current,
            Option.ite_none_right_eq_some, Option.some.injEq] at stepped
          obtain ⟨_, rfl⟩ := stepped
          exact Unclosed.idle { (consistent.ofCall current).1 with } rfl
  | initiated answer =>
      simp only [MultipartUpload.step] at stepped
      split at stepped
      · rename_i current
        cases stepped
        exact consistent.initiated current
      · rename_i current
        cases stepped
        exact Unclosed.idle { (consistent.ofCall current).1 with } rfl
      · cases stepped
  | wroteOnce answer =>
      simp only [MultipartUpload.step] at stepped
      split at stepped
      · rename_i current
        cases stepped
        exact consistent.wroteOnce current
      · rename_i current
        cases stepped
        exact Unclosed.idle { (consistent.ofCall current).1 with } rfl
      · cases stepped
  | completed answer =>
      simp only [MultipartUpload.step] at stepped
      split at stepped
      · rename_i current
        cases stepped
        exact consistent.completed current
      · rename_i current
        cases stepped
        exact Unclosed.idle { (consistent.ofCall current).1 with } rfl
      · cases stepped
  | finish position reply =>
      simp only [MultipartUpload.step, Option.bind_eq_bind,
        Option.bind_eq_some_iff] at stepped
      obtain ⟨tasks, finished, stepped⟩ := stepped
      split at stepped
      · rename_i running
        cases stepped
        exact consistent.finish (temporary.reply (.inr ⟨position, rfl⟩))
          finished running
      · cases stepped
  | finishAwaited reply =>
      simp only [MultipartUpload.step, Option.bind_eq_bind,
        Option.bind_eq_some_iff] at stepped
      obtain ⟨call, current, input, awaited, ended, finished, stepped⟩ :=
        stepped
      cases stepped
      exact consistent.finishAwaited (temporary.reply (.inl rfl)) current
        awaited finished

theorem consistent_of_run {events : List Event}
    (temporary : ∀ event ∈ events, event.partsTemporary)
    (ran : Automaton.run step (new capacity inputs) events = some upload) :
    Consistent capacity inputs upload :=
  Automaton.run_invariant
    (fun consistent temporary stepped => consistent.step temporary stepped)
    (consistent_new capacity inputs) temporary ran

/-- The service answers a part write with the number of the part. -/
def PartsNumbered (log : List ServiceCall) : Prop :=
  ∀ uploadId partNumber size body part,
    .wrotePart uploadId partNumber size body part ∈ log →
      part.partNumber = partNumber

theorem delivered_part {parts : List MultipartPart} {index : Nat}
    {body : Buffer}
    (delivered : List.Forall₂ (contract log).delivers
      (orders uploadId inputs) parts)
    (found : inputs[index]? = some body) :
    ∃ part, parts[index]? = some part ∧
      .wrotePart uploadId index body.len body part ∈ log := by
  obtain ⟨sameLength, related⟩ := List.forall₂_iff_get.mp delivered
  obtain ⟨within, rfl⟩ := List.getElem?_eq_some_iff.mp found
  have ordered : index < (orders uploadId inputs).length := by
    simpa [orders] using within
  refine ⟨parts.get ⟨index, sameLength ▸ ordered⟩, by simp, ?_⟩
  simpa [orders, contract, ServiceCall.ofPart] using
    related index ordered (sameLength ▸ ordered)

theorem map_partNumber_eq_range {parts : List MultipartPart}
    (delivered : List.Forall₂ (contract log).delivers
      (orders uploadId inputs) parts)
    (numbered : PartsNumbered log) :
    parts.map MultipartPart.partNumber = List.range inputs.length := by
  have sameLength : parts.length = inputs.length := by
    simpa [orders] using delivered.length_eq.symm
  apply List.ext_getElem (by simp [sameLength])
  intro index within _
  rw [List.length_map, sameLength] at within
  obtain ⟨part, found, written⟩ :=
    delivered_part delivered (List.getElem?_eq_getElem within)
  obtain ⟨_, rfl⟩ := List.getElem?_eq_some_iff.mp found
  simpa using numbered _ _ _ _ _ written

/-- A multipart writer commits exactly the accepted buffers.  In every run of
a driver that repeats failed and dropped calls, nothing is committed before
`close` succeeds; after that, the only commit is one `write_once` with the
only buffer, or one `complete_part` with the results of the successful
`write_part` of every buffer, in order. -/
theorem commits_accepted (capacity : Nat) (inputs : List Buffer)
    {events : List Event} {upload : Upload}
    (temporary : ∀ event ∈ events, event.partsTemporary)
    (ran : Automaton.run step (new capacity inputs) events = some upload) :
    upload.panicked = false ∧
    (upload.closed = false → commits upload.log = []) ∧
    (upload.closed = true → inputs.length ≤ 1 →
      commits upload.log =
        [.wroteOnce (inputs.headD Buffer.new).len (inputs.headD Buffer.new)]) ∧
    (upload.closed = true → 2 ≤ inputs.length →
      ∃ uploadId parts,
        commits upload.log = [.completed uploadId parts] ∧
        .initiated uploadId ∈ upload.log ∧
        parts.length = inputs.length ∧
        (∀ index body, inputs[index]? = some body →
          ∃ part, parts[index]? = some part ∧
            .wrotePart uploadId index body.len body part ∈ upload.log) ∧
        (PartsNumbered upload.log →
          parts.map MultipartPart.partNumber =
            List.range inputs.length)) := by
  have consistent := consistent_of_run temporary ran
  refine ⟨consistent.sound,
    fun unclosed => (consistent.pending unclosed).uncommitted, ?_, ?_⟩
  · intro closed few
    rcases (consistent.committed closed).2 with ⟨_, once⟩ | ⟨several, _⟩
    · exact once
    · omega
  · intro closed several
    rcases (consistent.committed closed).2 with
      ⟨few, _⟩ | ⟨_, uploadId, parts, completed, started, delivered⟩
    · omega
    · have sameLength : parts.length = inputs.length := by
        simpa [orders] using delivered.length_eq.symm
      exact ⟨uploadId, parts, completed, started, sameLength,
        fun index body found => delivered_part delivered found,
        map_partNumber_eq_range delivered⟩

def samplePart (partNumber : Nat) : MultipartPart :=
  { partNumber
    etag := "etag"
    checksum := none }

def sampleInputs : List Buffer :=
  [Buffer.fromBytes [1], Buffer.fromBytes [2, 3], Buffer.new]

/-- The first part fails once after the second one has been written, the
failure surfaces in `close`, and the second `close` is dropped. -/
def sampleSchedule : List Event :=
  [.call, .poll,
    .call, .poll, .initiated (.ok "id"), .poll,
    .call, .poll, .poll,
    .finish 1 (.answered (.ok (samplePart 1))), .finish 0 .timedOut,
    .call, .poll, .poll,
    .call, .poll, .poll, .drop,
    .call, .poll, .poll,
    .finish 0 (.answered (.ok (samplePart 0))), .poll,
    .poll, .poll, .poll, .finish 0 (.answered (.ok (samplePart 2))), .poll,
    .poll, .completed (.ok ())]

theorem commits_accepted_sample :
    ∃ upload,
      Automaton.run step (new 2 sampleInputs) sampleSchedule = some upload ∧
      upload.closed = true ∧
      commits upload.log =
        [.completed "id" [samplePart 0, samplePart 1, samplePart 2]] ∧
      upload.panicked = false := by
  obtain ⟨upload, ran, closed, committed⟩ :
      ∃ upload,
        Automaton.run step (new 2 sampleInputs) sampleSchedule = some upload ∧
        upload.closed = true ∧
        commits upload.log =
          [.completed "id" [samplePart 0, samplePart 1, samplePart 2]] :=
    ⟨_, rfl, rfl, rfl⟩
  have temporary : ∀ event ∈ sampleSchedule, event.partsTemporary := by
    simp [sampleSchedule, Event.partsTemporary]
  exact ⟨upload, ran, closed, committed,
    (commits_accepted 2 sampleInputs temporary ran).1⟩

end OpenDal.MultipartUpload
