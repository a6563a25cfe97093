import OpenDal.Mailbox
import OpenDal.Raw.RequestWriter
import OpenDal.Types.BufferCounters

/-!
# Writers of monoiofs

The file belongs to a task on a worker thread.  The writer sends it one
request for each chunk, with the position of the chunk, and waits for the
answer; the position moves on with the answer.  A future that is dropped
leaves its request in the channel, where it is still served.

All requests in the channel therefore have the position of the writer, and
what has been acknowledged is in the file before it.  Behind it can be what is
left of writes that have failed.  If every such write is made again, its
chunk covers what it has left.
-/

namespace OpenDal

open Automaton

/-- The file as the worker sees it; `synced` is what the last successful
`sync_all` has found. -/
structure MonoiofsFile where
  content : Bytes
  synced : Option Bytes
  append : Bool
deriving DecidableEq

inductive MonoiofsWriter.WriterRequest where
  | write (pos : Nat) (buf : Bytes)
  | close

/-- What happens to a request: an error or a crash of the worker can come
after some of the bytes have been written. -/
inductive MonoiofsWriter.WriterOutcome where
  | done
  | failed (written : Nat) (err : Error)
  | crashed (written : Nat)

namespace MonoiofsFile

/-- `OpenOptions` with `truncate(!append)`. -/
def opened (append : Bool) (existing : Bytes) : MonoiofsFile :=
  { content := if append then existing else []
    synced := none
    append }

/-- A file that is opened for appending takes every write at its end. -/
def writeAllAt (self : MonoiofsFile) (buf : Bytes) (pos : Nat) :
    MonoiofsFile :=
  if self.append then
    { self with content := self.content ++ buf }
  else if buf.isEmpty then
    self
  else
    { self with
      content := self.content.take pos ++
        List.replicate (pos - self.content.length) 0 ++ buf ++
          self.content.drop (pos + buf.length) }

/-- One round of `worker_entrypoint`. -/
def serve (self : MonoiofsFile) :
    MonoiofsWriter.WriterRequest → MonoiofsWriter.WriterOutcome →
      MonoiofsFile × Mailbox.Served (Except Error Unit)
  | .write pos buf, .done => (self.writeAllAt buf pos, .answers (.ok ()))
  | .write pos buf, .failed written err =>
      (self.writeAllAt (buf.take written) pos, .answers (.error err))
  | .write pos buf, .crashed written =>
      (self.writeAllAt (buf.take written) pos, .crashes)
  | .close, .done =>
      ({ self with synced := some self.content }, .stops (.ok ()))
  | .close, .failed _ err => (self, .stops (.error err))
  | .close, .crashed _ => (self, .crashes)

end MonoiofsFile

/-- The sender is in the session. -/
structure MonoiofsWriter where
  pos : Nat
deriving DecidableEq

namespace MonoiofsWriter

abbrev Channel : Type :=
  Mailbox MonoiofsFile WriterRequest (Except Error Unit)

/-- A future that waits for an answer: to the chunk of `n` bytes in front of
`bs`, or to `Close`. -/
inductive WriteFuture where
  | write (bs : Buffer) (n : Nat)
  | close

def broken : String :=
  "worker thread should not exit, tx may be dropped"

/-- `core.unwrap(self.tx.send(..))` -/
def request (self : MonoiofsWriter) (channel : Channel)
    (request : WriterRequest) (future : WriteFuture) :
    MonoiofsWriter × Channel × Progress WriteFuture (Except Error Unit) :=
  match channel.send request with
  | none => (self, channel, .panicked broken)
  | some channel => (self, channel, .suspended future)

/-- The head of the loop of `write`. -/
def write (self : MonoiofsWriter) (channel : Channel) (bs : Buffer) :
    MonoiofsWriter × Channel × Progress WriteFuture (Except Error Unit) :=
  if bs.len = 0 then
    (self, channel, .returned (.ok ()))
  else
    match bs.inner.current with
    | none => (self, channel, .panicked "index out of bounds")
    | some buf =>
        self.request channel (.write self.pos buf) (.write bs buf.length)

def start (self : MonoiofsWriter) (channel : Channel) :
    WriteCall →
      MonoiofsWriter × Channel × Progress WriteFuture (Except Error Unit)
  | .write bs => self.write channel bs
  | .close => self.request channel .close .close
  | .abort => (self, channel, .returned (.error
      (.new .unsupported "Monoiofs doesn't support abort")))

/-- The answer has arrived. -/
def resume (self : MonoiofsWriter) (channel : Channel) :
    WriteFuture → Except Error Unit →
      MonoiofsWriter × Channel × Progress WriteFuture (Except Error Unit)
  | .write _ _, .error err => (self, channel, .returned (.error err))
  | .write bs n, .ok () =>
      match bs.advance n with
      | none => (self, channel, .panicked "cannot advance past `remaining`")
      | some bs => write ⟨self.pos + n⟩ channel bs
  | .close, result => (self, channel, .returned result)

end MonoiofsWriter

/-- The writer is behind the complete layer.  The chunks whose answer has
arrived are recorded. -/
structure MonoiofsSession where
  writer : CompleteWriter MonoiofsWriter
  channel : MonoiofsWriter.Channel
  call : Option (WriteCall × MonoiofsWriter.WriteFuture)
  history : List (HistoryEntry Empty)
  acknowledged : Bytes
  panicked : Bool

inductive MonoiofsEvent where
  | call (call : WriteCall)
  | poll
  | drop
  | serve (outcome : MonoiofsWriter.WriterOutcome)
  /-- Another task has panicked on the thread of the worker. -/
  | crash

namespace MonoiofsSession

/-- `MonoiofsWriter::new` has succeeded. -/
def new (file : MonoiofsFile) : MonoiofsSession :=
  { writer := ⟨some ⟨0⟩⟩
    channel := .new file
    call := none
    history := []
    acknowledged := []
    panicked := false }

def after (session : MonoiofsSession) (call : WriteCall) :
    MonoiofsWriter × MonoiofsWriter.Channel ×
      Progress MonoiofsWriter.WriteFuture (Except Error Unit) → MonoiofsSession
  | (writer, channel, .suspended future) =>
      { session with
        writer := ⟨some writer⟩
        channel
        call := some (call, future) }
  | (writer, channel, .returned result) =>
      { session with
        writer := ⟨if call.isFinal && result.isOk then none else some writer⟩
        channel
        call := none
        history := session.history ++ [call.returned result] }
  | (writer, channel, .panicked _) =>
      { session with
        writer := ⟨some writer⟩
        channel
        call := none
        panicked := true }

/-- The chunk that an answer is about. -/
def answeredChunk : MonoiofsWriter.WriteFuture → Except Error Unit → Bytes
  | .write bs n, .ok () => bs.bytes.take n
  | _, _ => []

def step (session : MonoiofsSession) : MonoiofsEvent → Option MonoiofsSession
  | .call call =>
      if session.panicked || session.call.isSome then
        none
      else
        match session.writer.inner with
        | none => some { session with
            history := session.history ++
              [call.returned (.error WriterSession.closedError)] }
        | some writer =>
            some (session.after call (writer.start session.channel call))
  | .poll =>
      match session.writer.inner, session.call with
      | some writer, some (call, future) =>
          match session.channel.receive with
          | (.pending, _) => some session
          | (.canceled, channel) => some
              { session with
                channel
                call := none
                panicked := true }
          | (.answered result, channel) =>
              let acknowledged :=
                session.acknowledged ++ answeredChunk future result
              some ({ session with acknowledged }.after call
                (writer.resume channel future result))
      | _, _ => none
  | .drop =>
      match session.call with
      | none => none
      | some (call, _) => some
          { session with
            channel := session.channel.leave
            call := none
            history := session.history ++
              [call.returned (.error RequestSession.dropped)] }
  | .serve outcome =>
      (session.channel.serve MonoiofsFile.serve outcome).map fun channel =>
        { session with channel }
  | .crash =>
      if session.channel.alive then
        some { session with channel := session.channel.crash }
      else
        none

end MonoiofsSession

/-! ## Chunks -/

def Buffer.IsContiguous (bs : Buffer) : Prop :=
  ∃ bytes, bs.inner = .contiguous bytes

namespace MonoiofsWriter

open Buffer.Inner in
/-- `current` is what the buffer begins with, and all of a contiguous one. -/
theorem current_spec {bs : Buffer} (remains : bs.len ≠ 0) :
    ∃ buf rest, bs.inner.current = some buf ∧
      bs.advance buf.length = some rest ∧ bs.bytes = buf ++ rest.bytes ∧
      (bs.IsContiguous → rest.len = 0) := by
  obtain ⟨buf, advanced, chunked, _, _⟩ := drain_step bs.wellFormed remains
  have current : bs.inner.current = some buf := by
    rw [← chunked]
    cases shape : bs.inner with
    | contiguous bytes => rfl
    | nonContiguous parts size idx offset =>
        have positive : size ≠ 0 := by
          intro empty
          exact remains (by simp [Buffer.len, shape, Buffer.Inner.len, empty])
        simp [Buffer.Inner.current, Buffer.Inner.chunk, positive]
  have front := chunk_eq_take bs.wellFormed remains chunked
  have enough : buf.length ≤ bs.len := by
    rw [← Buffer.length_bytes, front]
    exact List.length_take_le' _ _
  obtain ⟨rest, moved, dropped⟩ := Buffer.advance_spec enough
  refine ⟨buf, rest, current, moved, ?_, ?_⟩
  · have taken : buf = bs.bytes.take buf.length := front
    calc
      bs.bytes = bs.bytes.take buf.length ++ bs.bytes.drop buf.length :=
        (List.take_append_drop _ _).symm
      _ = buf ++ rest.bytes := by rw [← taken, dropped]
  · rintro ⟨bytes, shape⟩
    have whole : buf = bytes := by
      rw [shape] at current
      exact (Option.some.inj current).symm
    rw [← Buffer.length_bytes, dropped, List.length_drop, Buffer.length_bytes,
      Buffer.len, shape, whole]
    simp [Buffer.Inner.len]

end MonoiofsWriter

/-! ## The contract of the worker -/

theorem MonoiofsFile.writeAllAt_behind {file : MonoiofsFile}
    {acked tail : Bytes} (piece : Bytes) (truncating : file.append = false)
    (split : file.content = acked ++ tail) :
    (file.writeAllAt piece acked.length).append = false ∧
      (file.writeAllAt piece acked.length).content =
        acked ++ (piece ++ tail.drop piece.length) := by
  rw [writeAllAt, truncating]
  by_cases empty : piece = []
  · subst empty
    simp [truncating, split]
  · simp [empty, split, List.drop_append]

theorem prefix_rewrite {piece tail buf : Bytes} (front : piece <+: buf)
    (behind : tail <+: buf) : piece ++ tail.drop piece.length <+: buf := by
  rcases Nat.le_total tail.length piece.length with short | long
  · rw [List.drop_of_length_le short, List.append_nil]
    exact front
  · have same : piece <+: tail :=
      List.prefix_of_prefix_length_le front behind long
    obtain ⟨rest, rfl⟩ := same
    simpa using behind

namespace MonoiofsSession

open MonoiofsWriter

/-- What has been acknowledged is in front.  If the session is steady, there is
only one chunk in the channel, and what is behind is the beginning of it. -/
def contract (acked : Bytes) (steady : Prop) (chunk : Option Bytes) :
    Mailbox.Contract MonoiofsFile WriterRequest where
  holds file := file.append = false ∧ ∃ tail, file.content = acked ++ tail ∧
    (steady → tail <+: chunk.getD [])
  admits
    | .write pos buf => pos = acked.length ∧ (steady → chunk = some buf)
    | .close => True

variable {acked : Bytes} {steady : Prop} {chunk : Option Bytes}

theorem kept_piece {file : MonoiofsFile} {piece buf : Bytes}
    (holds : (contract acked steady chunk).holds file)
    (admitted : steady → chunk = some buf) (front : piece <+: buf) :
    (contract acked steady chunk).holds
      (file.writeAllAt piece acked.length) := by
  obtain ⟨truncating, tail, split, behind⟩ := holds
  have written := MonoiofsFile.writeAllAt_behind piece truncating split
  refine ⟨written.1, _, written.2, fun calm => ?_⟩
  have same := admitted calm
  have before := behind calm
  rw [same] at before ⊢
  exact prefix_rewrite front before

theorem kept : (contract acked steady chunk).Kept MonoiofsFile.serve := by
  intro file request outcome holds admitted
  cases request with
  | close =>
      obtain ⟨truncating, content⟩ := holds
      cases outcome with
      | done => exact ⟨truncating, content⟩
      | failed written err => exact ⟨truncating, content⟩
      | crashed written => exact ⟨truncating, content⟩
  | write pos buf =>
      obtain ⟨rfl, same⟩ := admitted
      cases outcome with
      | done => exact kept_piece holds same List.prefix_rfl
      | failed written err =>
          exact kept_piece holds same (List.take_prefix written buf)
      | crashed written =>
          exact kept_piece holds same (List.take_prefix written buf)

/-! ## Histories -/

end MonoiofsSession

def HistoryEntry.call : HistoryEntry Empty → WriteCall
  | .wrote bs _ => .write bs
  | .closed _ => .close
  | .aborted _ => .abort

@[simp] theorem HistoryEntry.call_returned (call : WriteCall)
    (result : Except Error Unit) :
    HistoryEntry.call (call.returned result) = call := by
  cases call <;> rfl

namespace MonoiofsSession

open MonoiofsWriter

/-- All calls so far, with the one in flight. -/
def calls (session : MonoiofsSession) : List WriteCall :=
  session.history.map HistoryEntry.call ++
    (session.call.map Prod.fst).toList

/-- Every write that fails is one of a contiguous buffer, and the next call is
the same write again. -/
def Repeats (history : List (HistoryEntry Empty)) (calls : List WriteCall) :
    Prop :=
  ∀ k bs err, history[k]? = some (.wrote bs (.error err)) →
    bs.IsContiguous ∧ ∀ next, calls[k + 1]? = some next → next = .write bs

theorem Repeats.of_prefix {history more : List (HistoryEntry Empty)}
    {calls further : List WriteCall} (repeats : Repeats more further)
    (earlier : history <+: more) (before : calls <+: further) :
    Repeats history calls := by
  obtain ⟨rest, rfl⟩ := earlier
  obtain ⟨others, rfl⟩ := before
  intro k bs err failed
  obtain ⟨bound, _⟩ := List.getElem?_eq_some_iff.mp failed
  obtain ⟨contiguous, again⟩ := repeats k bs err
    (by rw [List.getElem?_append_left bound, failed])
  refine ⟨contiguous, fun next called => again next ?_⟩
  obtain ⟨within, _⟩ := List.getElem?_eq_some_iff.mp called
  rw [List.getElem?_append_left within, called]

theorem Repeats.again {before : List (HistoryEntry Empty)} {bs : Buffer}
    {err : Error} {next : WriteCall}
    (repeats : Repeats (before ++ [.wrote bs (.error err)])
      ((before ++ [HistoryEntry.wrote bs (.error err)]).map
        HistoryEntry.call ++ [next])) : bs.IsContiguous ∧ next = .write bs := by
  obtain ⟨contiguous, again⟩ := repeats before.length bs err (by simp)
  refine ⟨contiguous, again next ?_⟩
  rw [List.getElem?_append_right (by simp)]
  simp

theorem Repeats.contiguous {history : List (HistoryEntry Empty)}
    {calls : List WriteCall} (repeats : Repeats history calls) {bs : Buffer}
    {err : Error} (failed : HistoryEntry.wrote bs (.error err) ∈ history) :
    bs.IsContiguous := by
  obtain ⟨k, found⟩ := List.getElem?_of_mem failed
  exact (repeats k bs err found).1

/-- A buffer begins with the whole chunks `front`, and `rest` is what comes
after them. -/
inductive WholeChunks (bs : Buffer) : Bytes → Buffer → Prop where
  | nil : WholeChunks bs [] bs
  | next {front buf : Bytes} {rest later : Buffer}
      (chunks : WholeChunks bs front rest) (remains : rest.len ≠ 0)
      (current : rest.inner.current = some buf)
      (moved : rest.advance buf.length = some later) :
      WholeChunks bs (front ++ buf) later

theorem WholeChunks.split {bs rest : Buffer} {front : Bytes}
    (chunks : WholeChunks bs front rest) :
    bs.bytes = front ++ rest.bytes := by
  induction chunks with
  | nil => rfl
  | next chunks remains current moved induction =>
      obtain ⟨buf, behind, found, advanced, parts, _⟩ := current_spec remains
      cases found.symm.trans current
      cases advanced.symm.trans moved
      rw [induction, parts, List.append_assoc]

theorem WholeChunks.of_contiguous {bs rest : Buffer} {front : Bytes}
    (chunks : WholeChunks bs front rest) (contiguous : bs.IsContiguous) :
    front = [] ∧ rest = bs ∨ rest.len = 0 := by
  induction chunks with
  | nil => exact .inl ⟨rfl, rfl⟩
  | next chunks remains current moved induction =>
      obtain ⟨buf, behind, found, advanced, _, all⟩ := current_spec remains
      cases found.symm.trans current
      cases advanced.symm.trans moved
      obtain ⟨-, same⟩ := induction.resolve_right remains
      rw [same] at all
      exact .inr (all contiguous)

/-- What the writer has acknowledged: all of an accepted write, and of one that
has failed whole chunks from its beginning, but not all of them. -/
inductive Takes : List (HistoryEntry Empty) → Bytes → Prop where
  | nil : Takes [] []
  | accepted {history : List (HistoryEntry Empty)} {taken : Bytes}
      (earlier : Takes history taken) (bs : Buffer) :
      Takes (history ++ [.wrote bs (.ok ())]) (taken ++ bs.bytes)
  | failed {history : List (HistoryEntry Empty)} {taken front : Bytes}
      (earlier : Takes history taken) (bs rest : Buffer) (err : Error)
      (chunks : WholeChunks bs front rest)
      (unfinished : front = [] ∨ rest.len ≠ 0) :
      Takes (history ++ [.wrote bs (.error err)]) (taken ++ front)
  | final {history : List (HistoryEntry Empty)} {taken : Bytes}
      (earlier : Takes history taken) (call : WriteCall)
      (final : call.isFinal = true) (result : Except Error Unit) :
      Takes (history ++ [call.returned result]) taken

theorem Takes.eq_acceptedBytes {history : List (HistoryEntry Empty)}
    {taken : Bytes} (takes : Takes history taken)
    (contiguous : ∀ bs err,
      HistoryEntry.wrote bs (.error err) ∈ history → bs.IsContiguous) :
    taken = acceptedBytes history := by
  induction takes with
  | nil => rfl
  | accepted earlier bs induction =>
      rw [acceptedBytes_wrote, induction fun other err member =>
        contiguous other err (List.mem_append_left _ member)]
  | @failed history _ front earlier bs rest err chunks unfinished induction =>
      have nothing : front = [] := by
        rcases unfinished with nothing | remains
        · exact nothing
        · exact ((chunks.of_contiguous (contiguous bs err
            (by simp))).resolve_right remains).1
      have same : acceptedBytes (history ++ [.wrote bs (.error err)]) =
        acceptedBytes history := acceptedBytes_error (.write bs) err
      rw [same, nothing, List.append_nil]
      exact induction fun other err member =>
        contiguous other err (List.mem_append_left _ member)
  | final earlier call final result induction =>
      rw [acceptedBytes_final final]
      exact induction fun other err member =>
        contiguous other err (List.mem_append_left _ member)

/-! ## Sessions -/

def Steady (session : MonoiofsSession) : Prop :=
  Repeats session.history session.calls

/-- The chunk in the channel belongs to a write that has failed. -/
def Pending (session : MonoiofsSession) (chunk : Option Bytes) : Prop :=
  session.Steady → ∀ buf, chunk = some buf → buf ≠ [] ∧
    ∃ before bs err, session.history = before ++ [.wrote bs (.error err)] ∧
      bs.bytes = buf

inductive Stage (session : MonoiofsSession) : Prop where
  | idle (writer : MonoiofsWriter) (acked : Bytes) (chunk : Option Bytes)
      (opened : session.writer.inner = some writer)
      (free : session.call = none) (pos : writer.pos = acked.length)
      (takes : Takes session.history acked)
      (log : session.acknowledged = acked)
      (respects : session.channel.Respects
        (contract acked session.Steady chunk) MonoiofsFile.serve none)
      (pending : session.Pending chunk)
  | writing (writer : MonoiofsWriter) (acked front : Bytes) (bs rest : Buffer)
      (buf : Bytes) (opened : session.writer.inner = some writer)
      (busy : session.call = some (.write bs, .write rest buf.length))
      (pos : writer.pos = (acked ++ front).length)
      (takes : Takes session.history acked)
      (log : session.acknowledged = acked ++ front)
      (chunks : WholeChunks bs front rest) (remains : rest.len ≠ 0)
      (current : rest.inner.current = some buf)
      (respects : session.channel.Respects
        (contract (acked ++ front) session.Steady (some buf))
          MonoiofsFile.serve (some (.write writer.pos buf)))
  | closing (writer : MonoiofsWriter) (acked : Bytes) (chunk : Option Bytes)
      (opened : session.writer.inner = some writer)
      (busy : session.call = some (.close, .close))
      (pos : writer.pos = acked.length) (takes : Takes session.history acked)
      (log : session.acknowledged = acked)
      (respects : session.channel.Respects
        (contract acked session.Steady chunk) MonoiofsFile.serve (some .close))
      (nothing : session.Steady → chunk = none)
  | closed (acked : Bytes) (ended : session.writer.inner = none)
      (free : session.call = none) (takes : Takes session.history acked)
      (log : session.acknowledged = acked)
      (stopped : session.channel.alive = false)
      (empty : session.channel.queue = [])
      (durable : session.channel.worker.synced =
        some session.channel.worker.content)
      (inFront : acked <+: session.channel.worker.content)
      (alone : session.Steady → session.channel.worker.content = acked)
  | panicked (acked front : Bytes) (panics : session.panicked = true)
      (free : session.call = none) (takes : Takes session.history acked)
      (log : session.acknowledged = acked ++ front)
      (stopped : session.channel.alive = false)
      (empty : session.channel.queue = [])
      (inFront : acked ++ front <+: session.channel.worker.content)
      (opened : session.writer.inner ≠ none)

variable {session later : MonoiofsSession} {acked : Bytes} {steady : Prop}
  {chunk : Option Bytes}

theorem respects_weaken {channel : Channel} {awaited : Option WriterRequest}
    {other : Prop} (weaker : other → steady)
    (respects : channel.Respects (contract acked steady chunk)
      MonoiofsFile.serve awaited) :
    channel.Respects (contract acked other chunk) MonoiofsFile.serve
      awaited := by
  apply respects.mono
  · rintro file ⟨truncating, tail, split, behind⟩
    exact ⟨truncating, tail, split, fun calm => behind (weaker calm)⟩
  · intro request admitted
    cases request with
    | close => trivial
    | write pos buf =>
        exact ⟨admitted.1, fun calm => admitted.2 (weaker calm)⟩

theorem respects_chunk {channel : Channel} {buf : Bytes}
    (fits : steady → ∀ other, chunk = some other → other = buf)
    (respects : channel.Respects (contract acked steady chunk)
      MonoiofsFile.serve none) :
    channel.Respects (contract acked steady (some buf)) MonoiofsFile.serve
      none := by
  apply respects.mono
  · rintro file ⟨truncating, tail, split, behind⟩
    refine ⟨truncating, tail, split, fun calm => ?_⟩
    have before := behind calm
    cases chunk with
    | none =>
        rw [Option.getD_none, List.prefix_nil] at before
        rw [before]
        exact List.nil_prefix
    | some other =>
        rw [fits calm other rfl] at before
        exact before
  · intro request admitted
    cases request with
    | close => trivial
    | write pos other =>
        refine ⟨admitted.1, fun calm => ?_⟩
        have same := admitted.2 calm
        rw [fits calm other same]

theorem stage_new {file : MonoiofsFile} (truncating : file.append = false)
    (empty : file.content = []) : (new file).Stage := by
  refine .idle ⟨0⟩ [] none rfl rfl rfl .nil rfl ?_ ?_
  · apply Mailbox.respects_new
    exact ⟨truncating, [], empty, fun _ => List.nil_prefix⟩
  · rintro _ buf ⟨⟩

theorem eq_of_current {bs : Buffer} {buf : Bytes}
    (contiguous : bs.IsContiguous) (remains : bs.len ≠ 0)
    (current : bs.inner.current = some buf) : buf ≠ [] ∧ bs.bytes = buf := by
  obtain ⟨other, rest, same, _, split, all⟩ := current_spec remains
  cases same.symm.trans current
  have nothing : rest.bytes = [] := by
    rw [← List.length_eq_zero_iff, Buffer.length_bytes]
    exact all contiguous
  rw [nothing, List.append_nil] at split
  refine ⟨?_, split⟩
  rintro rfl
  apply remains
  rw [← Buffer.length_bytes, split]
  rfl

theorem inFront {channel : Channel} {awaited : Option WriterRequest}
    (respects : channel.Respects (contract acked steady chunk)
      MonoiofsFile.serve awaited) : acked <+: channel.worker.content := by
  obtain ⟨_, tail, split, _⟩ := respects.holds
  exact ⟨tail, split.symm⟩

/-- The loop of `write` from any of its rounds on. -/
theorem stage_write {writer : MonoiofsWriter} {channel : Channel}
    (front : Bytes) {bs rest : Buffer}
    (takes : Takes session.history acked)
    (log : session.acknowledged = acked ++ front)
    (pos : writer.pos = (acked ++ front).length)
    (chunks : WholeChunks bs front rest)
    (weaker : Repeats session.history
      (session.history.map HistoryEntry.call ++ [.write bs]) → steady)
    (respects : channel.Respects (contract (acked ++ front) steady chunk)
      MonoiofsFile.serve none)
    (fits : Repeats session.history
      (session.history.map HistoryEntry.call ++ [.write bs]) →
        ∀ buf, chunk = some buf →
          rest.len ≠ 0 ∧ rest.inner.current = some buf) :
    (session.after (.write bs) (writer.write channel rest)).Stage := by
  by_cases empty : rest.len = 0
  · have nothing : rest.bytes = [] := by
      rw [← List.length_eq_zero_iff, Buffer.length_bytes]
      exact empty
    have split := chunks.split
    rw [nothing, List.append_nil] at split
    rw [write, if_pos empty]
    have earlier : ∀ more : MonoiofsSession,
        more.history = session.history ++ [.wrote bs (.ok ())] →
          more.call = none → more.Steady → Repeats session.history
            (session.history.map HistoryEntry.call ++ [.write bs]) := by
      intro more grown free calm
      refine Repeats.of_prefix calm ?_ ?_
      · rw [grown]
        exact List.prefix_append _ _
      · simp [calls, grown, free, HistoryEntry.call]
    refine .idle writer (acked ++ front) chunk rfl rfl pos ?_ log ?_ ?_
    · rw [← split]
      exact takes.accepted bs
    · exact respects_weaken (fun calm => weaker (earlier _ rfl rfl calm))
        respects
    · intro calm buf same
      exact absurd empty (fits (earlier _ rfl rfl calm) buf same).1
  · obtain ⟨buf, behind, current, _, _, _⟩ := current_spec empty
    simp only [write, empty, if_false, current, MonoiofsWriter.request]
    cases sent : channel.send (.write writer.pos buf) with
    | none =>
        have stopped := Mailbox.dead_of_send sent
        exact .panicked acked front rfl rfl takes log stopped
          (respects.stopped stopped) (inFront respects)
          (Option.some_ne_none writer)
    | some sending =>
        have one : channel.Respects (contract (acked ++ front)
            (Repeats session.history (session.history.map HistoryEntry.call ++
              [.write bs])) (some buf)) MonoiofsFile.serve none := by
          refine respects_chunk ?_ (respects_weaken weaker respects)
          intro calm other same
          have found := (fits calm other same).2
          exact (Option.some.inj (current.symm.trans found)).symm
        exact .writing writer acked front bs rest buf rfl rfl pos takes log
          chunks empty current (one.send ⟨pos, fun _ => rfl⟩ sent)

theorem calls_free (free : session.call = none) :
    session.calls = session.history.map HistoryEntry.call := by
  simp [calls, free]

theorem steady_of_returned {call : WriteCall} {result : Except Error Unit}
    (grown : later.history = session.history ++ [call.returned result])
    (free : later.call = none) (steady : later.Steady) :
    Repeats session.history
      (session.history.map HistoryEntry.call ++ [call]) := by
  refine Repeats.of_prefix steady ?_ ?_
  · rw [grown]
    exact List.prefix_append _ _
  · rw [calls_free free, grown]
    simp

theorem steady_of_calling {call : WriteCall} {future : WriteFuture}
    (busy : session.call = some (call, future)) :
    session.Steady ↔ Repeats session.history
      (session.history.map HistoryEntry.call ++ [call]) := by
  simp [Steady, calls, busy]

theorem stage_failed {writer : MonoiofsWriter} {channel : Channel}
    {front : Bytes} {bs rest : Buffer} {buf : Bytes} {future : WriteFuture}
    (err : Error) (busy : session.call = some (.write bs, future))
    (opened : later.writer.inner = some writer) (free : later.call = none)
    (grown : later.history = session.history ++ [.wrote bs (.error err)])
    (same : later.channel = channel)
    (pos : writer.pos = (acked ++ front).length)
    (takes : Takes session.history acked)
    (log : later.acknowledged = acked ++ front)
    (chunks : WholeChunks bs front rest) (remains : rest.len ≠ 0)
    (current : rest.inner.current = some buf)
    (respects : channel.Respects (contract (acked ++ front) session.Steady
      (some buf)) MonoiofsFile.serve none) : later.Stage := by
  have ended : later.history =
      session.history ++ [(WriteCall.write bs).returned (.error err)] := grown
  have weaker : later.Steady → session.Steady := fun calm =>
    (steady_of_calling busy).mpr (steady_of_returned ended free calm)
  refine .idle writer (acked ++ front) (some buf) opened free pos ?_ log ?_ ?_
  · rw [grown]
    exact takes.failed bs rest err chunks (.inr remains)
  · rw [same]
    exact respects_weaken weaker respects
  · rintro calm _ ⟨⟩
    have contiguous : bs.IsContiguous := by
      apply Repeats.contiguous calm
      rw [grown]
      exact List.mem_append_right _ List.mem_cons_self
    have found := (chunks.of_contiguous contiguous).resolve_right remains
    rw [found.2] at remains current
    obtain ⟨nonempty, bytes⟩ := eq_of_current contiguous remains current
    exact ⟨nonempty, session.history, bs, err, grown, bytes⟩

theorem Pending.nothing {call : WriteCall}
    (pending : session.Pending chunk) (free : session.call = none)
    (other : ∀ bs, call ≠ .write bs)
    (steady : Repeats session.history
      (session.history.map HistoryEntry.call ++ [call])) : chunk = none := by
  have before : session.Steady := by
    refine Repeats.of_prefix steady List.prefix_rfl ?_
    rw [calls_free free]
    exact List.prefix_append _ _
  cases chunk with
  | none => rfl
  | some buf =>
      obtain ⟨_, history, bs, err, ended, _⟩ := pending before buf rfl
      rw [ended] at steady
      exact absurd steady.again.2 (other bs)

theorem Stage.call (stage : session.Stage) {call : WriteCall}
    (stepped : session.step (.call call) = some later) : later.Stage := by
  rw [step] at stepped
  split at stepped
  · cases stepped
  rename_i ready
  cases stage with
  | writing _ _ _ _ _ _ _ busy => simp [busy] at ready
  | closing _ _ _ _ busy => simp [busy] at ready
  | panicked _ _ panics => simp [panics] at ready
  | closed acked ended free takes log stopped empty durable inFront alone =>
      simp only [ended] at stepped
      cases stepped
      have weaker : ({ session with history := session.history ++
          [call.returned (.error WriterSession.closedError)] } :
            MonoiofsSession).Steady → session.Steady := by
        intro calm
        refine Repeats.of_prefix calm (List.prefix_append _ _) ?_
        simp [calls, free]
      refine .closed acked ended free ?_ log stopped empty durable inFront
        fun calm => alone (weaker calm)
      cases call with
      | write bs =>
          have failed := takes.failed bs bs WriterSession.closedError .nil
            (.inl rfl)
          rw [List.append_nil] at failed
          exact failed
      | close => exact takes.final .close rfl _
      | abort => exact takes.final .abort rfl _
  | idle writer acked chunk opened free pos takes log respects pending =>
      simp only [opened] at stepped
      cases stepped
      have before : ∀ {next : WriteCall}, Repeats session.history
          (session.history.map HistoryEntry.call ++ [next]) →
            session.Steady := by
        intro next calm
        refine Repeats.of_prefix calm List.prefix_rfl ?_
        rw [calls_free free]
        exact List.prefix_append _ _
      cases call with
      | write bs =>
          have still : acked ++ [] = acked := List.append_nil acked
          rw [← still] at log pos respects
          refine stage_write [] takes log pos .nil before respects ?_
          intro calm buf same
          obtain ⟨nonempty, history, failed, err, ended, bytes⟩ :=
            pending (before calm) buf same
          rw [ended] at calm
          obtain ⟨⟨whole, shape⟩, again⟩ := calm.again
          cases again
          have content : bs.bytes = whole := by
            rw [Buffer.bytes, shape]
            rfl
          refine ⟨?_, ?_⟩
          · intro empty
            rw [← Buffer.length_bytes, bytes, List.length_eq_zero_iff] at empty
            exact nonempty empty
          · rw [shape, ← bytes, content]
            rfl
      | close =>
          simp only [start, MonoiofsWriter.request]
          cases sent : session.channel.send .close with
          | none =>
              have stopped := Mailbox.dead_of_send sent
              have still : acked ++ [] = acked := List.append_nil acked
              rw [← still] at log respects
              exact .panicked acked [] rfl rfl takes log stopped
                (respects.stopped stopped) (inFront respects)
                (Option.some_ne_none writer)
          | some channel =>
              have closing : (session.after .close
                  (writer, channel, .suspended .close)).Steady →
                    Repeats session.history (session.history.map
                      HistoryEntry.call ++ [.close]) :=
                (steady_of_calling rfl).mp
              refine .closing writer acked chunk rfl rfl pos takes log ?_ ?_
              · exact (respects_weaken (fun calm => before (closing calm))
                  respects).send trivial sent
              · intro calm
                exact pending.nothing free (fun bs same => by cases same)
                  (closing calm)
      | abort =>
          have returned : ∀ {result : Except Error Unit}
              {more : MonoiofsSession},
              more.history = session.history ++ [WriteCall.abort.returned
                result] → more.call = none → more.Steady →
                Repeats session.history (session.history.map
                  HistoryEntry.call ++ [.abort]) :=
            fun grown ended calm => steady_of_returned grown ended calm
          refine .idle writer acked chunk rfl rfl pos ?_ log ?_ ?_
          · exact takes.final .abort rfl _
          · exact respects_weaken
              (fun calm => before (returned rfl rfl calm)) respects
          · intro calm buf same
            have nothing := pending.nothing free
              (fun bs same => by cases same) (returned rfl rfl calm)
            rw [nothing] at same
            cases same

theorem holds_acked {before : MonoiofsFile} {front buf : Bytes}
    (holds : (contract (acked ++ front) steady (some buf)).holds before) :
    (contract (acked ++ (front ++ buf)) steady none).holds
      (before.writeAllAt buf (acked ++ front).length) := by
  obtain ⟨truncating, tail, split, behind⟩ := holds
  have written := MonoiofsFile.writeAllAt_behind buf truncating split
  refine ⟨written.1, tail.drop buf.length, ?_, fun calm => ?_⟩
  · rw [written.2]
    simp
  · have short := (behind calm).length_le
    rw [Option.getD_some] at short
    rw [List.drop_of_length_le short]
    exact List.prefix_rfl

theorem Stage.poll (stage : session.Stage)
    (stepped : session.step .poll = some later) : later.Stage := by
  cases stage with
  | idle _ _ _ opened free => simp [step, opened, free] at stepped
  | closed _ ended => simp [step, ended] at stepped
  | panicked _ _ _ free => simp [step, free] at stepped
  | writing writer acked front bs rest buf opened busy pos takes log chunks
      remains current respects =>
      simp only [step, opened, busy] at stepped
      rcases respects.receive with ⟨received, _, _⟩ |
        ⟨channel, received, stopped, left⟩ |
        ⟨result, channel, before, outcome, received, held, same, replied, _,
          nothing, left⟩
      · rw [received] at stepped
        cases stepped
        exact .writing writer acked front bs rest buf opened busy pos takes
          log chunks remains current respects
      · rw [received] at stepped
        cases stepped
        exact .panicked acked front rfl rfl takes log stopped
          (left.stopped stopped) (inFront left) (by simp [opened])
      · rw [received] at stepped
        cases stepped
        cases outcome with
        | crashed written => cases replied
        | failed written err =>
            obtain rfl : result = .error err := (Option.some.inj replied).symm
            have still : session.acknowledged ++ [] = acked ++ front := by
              rw [log, List.append_nil]
            exact stage_failed err busy rfl rfl rfl rfl pos takes still chunks
              remains current left
        | done =>
            obtain rfl : result = .ok () := (Option.some.inj replied).symm
            obtain ⟨other, behind, same', moved, parts, _⟩ :=
              current_spec remains
            cases same'.symm.trans current
            have acks := holds_acked held
            rw [← pos] at acks
            have kept : (contract (acked ++ (front ++ buf)) session.Steady
                none).holds channel.worker := by
              rw [← same]
              exact acks
            simp only [resume, moved]
            refine stage_write (front ++ buf) takes ?_ ?_
              (chunks.next remains current moved) ?_
              (left.renew nothing kept) ?_
            · simp [answeredChunk, log, parts]
            · simp [pos, Nat.add_assoc]
            · exact (steady_of_calling busy).mpr
            · rintro _ _ ⟨⟩
  | closing writer acked chunk opened busy pos takes log respects nothing =>
      simp only [step, opened, busy] at stepped
      rcases respects.receive with ⟨received, _, _⟩ |
        ⟨channel, received, stopped, left⟩ |
        ⟨result, channel, before, outcome, received, held, same, replied, last,
          empty, left⟩
      · rw [received] at stepped
        cases stepped
        exact .closing writer acked chunk opened busy pos takes log respects
          nothing
      · rw [received] at stepped
        cases stepped
        have still : acked ++ [] = acked := List.append_nil acked
        rw [← still] at log left
        exact .panicked acked [] rfl rfl takes log stopped
          (left.stopped stopped) (inFront left) (by simp [opened])
      · rw [received] at stepped
        cases stepped
        have weaker : ∀ more : MonoiofsSession,
            more.history = session.history ++ [WriteCall.close.returned
              result] → more.call = none → more.Steady → session.Steady :=
          fun more grown free calm => (steady_of_calling busy).mpr
            (steady_of_returned grown free calm)
        have still : session.acknowledged ++ [] = acked := by
          rw [log, List.append_nil]
        cases outcome with
        | crashed written => cases replied
        | failed written err =>
            obtain rfl : result = .error err := (Option.some.inj replied).symm
            refine .idle writer acked chunk rfl rfl pos
              (takes.final .close rfl _) still
              (respects_weaken (weaker _ rfl rfl) left) ?_
            intro calm buf chosen
            rw [nothing (weaker _ rfl rfl calm)] at chosen
            cases chosen
        | done =>
            obtain rfl : result = .ok () := (Option.some.inj replied).symm
            obtain ⟨_, tail, split, behind⟩ := left.holds
            refine .closed acked rfl rfl (takes.final .close rfl _) still
              (last rfl) empty ?_ ⟨tail, split.symm⟩ ?_
            · show channel.worker.synced = some channel.worker.content
              rw [← same]
              rfl
            · intro calm
              have steady := weaker _ rfl rfl calm
              have nothing' := behind steady
              rw [nothing steady, Option.getD_none, List.prefix_nil] at nothing'
              rw [nothing', List.append_nil] at split
              exact split

theorem Stage.drop (stage : session.Stage)
    (stepped : session.step .drop = some later) : later.Stage := by
  cases stage with
  | idle _ _ _ _ free => simp [step, free] at stepped
  | closed _ _ free => simp [step, free] at stepped
  | panicked _ _ _ free => simp [step, free] at stepped
  | writing writer acked front bs rest buf opened busy pos takes log chunks
      remains current respects =>
      simp only [step, busy] at stepped
      cases stepped
      exact stage_failed RequestSession.dropped busy opened rfl rfl rfl pos
        takes log chunks remains current respects.leave
  | closing writer acked chunk opened busy pos takes log respects nothing =>
      simp only [step, busy] at stepped
      cases stepped
      have weaker : ∀ more : MonoiofsSession,
          more.history = session.history ++ [WriteCall.close.returned
            (.error RequestSession.dropped)] → more.call = none →
              more.Steady → session.Steady :=
        fun more grown free calm => (steady_of_calling busy).mpr
          (steady_of_returned grown free calm)
      refine .idle writer acked chunk opened rfl pos
        (takes.final .close rfl _) log
        (respects_weaken (weaker _ rfl rfl) respects.leave) ?_
      intro calm buf chosen
      rw [nothing (weaker _ rfl rfl calm)] at chosen
      cases chosen

/-- Whatever becomes of the worker between the steps of the writer. -/
theorem Stage.change (stage : session.Stage) {channel : Channel}
    (running : session.channel.queue ≠ [] ∨ session.channel.alive = true)
    (keeps : ∀ {acked : Bytes} {steady : Prop} {chunk : Option Bytes}
      {awaited : Option WriterRequest},
      session.channel.Respects (contract acked steady chunk)
        MonoiofsFile.serve awaited →
      channel.Respects (contract acked steady chunk) MonoiofsFile.serve
        awaited) : ({ session with channel } : MonoiofsSession).Stage := by
  have dead : session.channel.alive = false → session.channel.queue = [] →
      False := by
    intro stopped empty
    rcases running with busy | alive
    · exact busy empty
    · simp [stopped] at alive
  cases stage with
  | idle writer acked chunk opened free pos takes log respects pending =>
      exact .idle writer acked chunk opened free pos takes log (keeps respects)
        pending
  | writing writer acked front bs rest buf opened busy pos takes log chunks
      remains current respects =>
      exact .writing writer acked front bs rest buf opened busy pos takes log
        chunks remains current (keeps respects)
  | closing writer acked chunk opened busy pos takes log respects nothing =>
      exact .closing writer acked chunk opened busy pos takes log
        (keeps respects) nothing
  | closed acked ended free takes log stopped empty =>
      exact (dead stopped empty).elim
  | panicked acked front panics free takes log stopped empty =>
      exact (dead stopped empty).elim

theorem Stage.step (stage : session.Stage) {event : MonoiofsEvent}
    (stepped : session.step event = some later) : later.Stage := by
  cases event with
  | call call => exact stage.call stepped
  | poll => exact stage.poll stepped
  | drop => exact stage.drop stepped
  | serve outcome =>
      obtain ⟨channel, served, same⟩ := Option.map_eq_some_iff.mp stepped
      cases same
      obtain ⟨_, _, _, queued, _⟩ := Mailbox.serve_cases served
      exact stage.change (.inl (by simp [queued]))
        fun respects => respects.serve kept served
  | crash =>
      simp only [MonoiofsSession.step] at stepped
      split at stepped
      · rename_i alive
        cases stepped
        exact stage.change (.inr alive) fun respects => respects.crash
      · cases stepped

/-! ## The end of a session -/

/-- After a `close` that has succeeded there is no writer. -/
def Ended (session : MonoiofsSession) : Prop :=
  .closed (.ok ()) ∈ session.history → session.writer.inner = none

theorem Ended.after {call : WriteCall}
    (unclosed : .closed (.ok ()) ∉ session.history)
    (progress : MonoiofsWriter × Channel ×
      Progress WriteFuture (Except Error Unit)) :
    (session.after call progress).Ended := by
  obtain ⟨writer, channel, _ | result | _⟩ := progress
  · exact fun member => absurd member unclosed
  · intro member
    rcases List.mem_append.mp member with earlier | last
    · exact absurd earlier unclosed
    · cases call with
      | write bs => cases List.mem_singleton.mp last
      | abort => cases List.mem_singleton.mp last
      | close =>
          cases List.mem_singleton.mp last
          rfl
  · exact fun member => absurd member unclosed

theorem Ended.step (ended : session.Ended) {event : MonoiofsEvent}
    (stepped : session.step event = some later) : later.Ended := by
  have unclosed : ∀ {writer}, session.writer.inner = some writer →
      .closed (.ok ()) ∉ session.history := by
    intro writer opened member
    rw [ended member] at opened
    cases opened
  cases event with
  | call call =>
      rw [MonoiofsSession.step] at stepped
      split at stepped
      · cases stepped
      · split at stepped
        · rename_i gone
          cases stepped
          exact fun _ => gone
        · rename_i writer opened
          cases stepped
          exact .after (unclosed opened) _
  | poll =>
      simp only [MonoiofsSession.step] at stepped
      split at stepped
      · rename_i writer call future opened busy
        split at stepped
        · cases stepped
          exact ended
        · cases stepped
          exact ended
        · cases stepped
          refine Ended.after ?_ _
          exact unclosed opened
      · cases stepped
  | drop =>
      simp only [MonoiofsSession.step] at stepped
      split at stepped
      · cases stepped
      · rename_i call future busy
        cases stepped
        intro member
        rcases List.mem_append.mp member with earlier | last
        · exact ended earlier
        · cases call <;> cases List.mem_singleton.mp last
  | serve outcome =>
      obtain ⟨channel, _, same⟩ := Option.map_eq_some_iff.mp stepped
      cases same
      exact ended
  | crash =>
      simp only [MonoiofsSession.step] at stepped
      split at stepped
      · cases stepped
        exact ended
      · cases stepped

/-! ## Panics -/

/-- The worker does not crash, and nothing is called after a `close` that has
failed or has been dropped. -/
def Careful (session : MonoiofsSession) : MonoiofsEvent → Prop
  | .call _ => ∀ before err, session.history ≠ before ++ [.closed (.error err)]
  | .serve (.crashed _) => False
  | .crash => False
  | _ => True

def IsWrite : WriterRequest → Prop
  | .write _ _ => True
  | .close => False

def Orphans (queue : List (WriterRequest × Bool)) : Prop :=
  ∀ entry ∈ queue, IsWrite entry.1

/-- How far the writer has come without a panic. -/
inductive Unharmed (session : MonoiofsSession) : Prop where
  | opened (writing : ∀ future, session.call ≠ some (.close, future))
      (alive : session.channel.alive = true)
      (orphans : Orphans session.channel.queue)
  | closing (busy : session.call = some (.close, .close))
      (alive : session.channel.alive = true)
      (empty : session.channel.waiting = some none)
      (orphans : List (WriterRequest × Bool))
      (last : session.channel.queue = orphans ++ [(.close, true)])
      (writes : Orphans orphans) (unheard : ∀ entry ∈ orphans, entry.2 = false)
  | answered (busy : session.call = some (.close, .close))
      (reply : Except Error Unit)
      (arrived : session.channel.waiting = some (some reply))
      (nothing : session.channel.queue = [])
  | failed (free : session.call = none)
      (before : List (HistoryEntry Empty)) (err : Error)
      (last : session.history = before ++ [.closed (.error err)])
  | closed (free : session.call = none) (ended : session.writer.inner = none)

theorem unharmed_write {writer : MonoiofsWriter} {channel : Channel}
    {bs rest : Buffer} (alive : channel.alive = true)
    (orphans : Orphans channel.queue) (calm : session.panicked = false) :
    (session.after (.write bs) (writer.write channel rest)).Unharmed ∧
      (session.after (.write bs) (writer.write channel rest)).panicked =
        false := by
  by_cases empty : rest.len = 0
  · rw [write, if_pos empty]
    exact ⟨.opened (by simp [after]) alive orphans, calm⟩
  · obtain ⟨buf, behind, current, _, _, _⟩ := current_spec empty
    simp only [write, empty, if_false, current, MonoiofsWriter.request,
      Mailbox.send, alive, if_true]
    refine ⟨.opened (by simp [after]) rfl ?_, calm⟩
    intro entry member
    rcases List.mem_append.mp member with earlier | last
    · exact orphans entry earlier
    · rw [List.mem_singleton.mp last]
      trivial

theorem Unharmed.call (unharmed : session.Unharmed) (stage : session.Stage)
    (calm : session.panicked = false) {call : WriteCall}
    (careful : session.Careful (.call call))
    (stepped : session.step (.call call) = some later) :
    later.Unharmed ∧ later.panicked = false := by
  rw [MonoiofsSession.step] at stepped
  split at stepped
  · cases stepped
  rename_i ready
  cases unharmed with
  | closing busy => simp [busy] at ready
  | answered busy => simp [busy] at ready
  | failed free before err last => exact absurd last (careful before err)
  | closed free ended =>
      simp only [ended] at stepped
      cases stepped
      exact ⟨.closed free ended, calm⟩
  | opened writing alive orphans =>
      split at stepped
      · cases stepped
        exact ⟨.opened writing alive orphans, calm⟩
      · rename_i writer present
        cases stepped
        cases call with
        | write bs => exact unharmed_write alive orphans calm
        | abort => exact ⟨.opened (by simp [after, start]) alive orphans, calm⟩
        | close =>
            simp only [start, MonoiofsWriter.request, Mailbox.send, alive,
              if_true]
            refine ⟨.closing rfl rfl rfl _ rfl orphans ?_, calm⟩
            cases stage with
            | idle _ _ _ _ _ _ _ _ respects => exact (respects.unheard rfl).2
            | writing _ _ _ _ _ _ _ busy => simp [busy] at ready
            | closing _ _ _ _ busy => simp [busy] at ready
            | closed _ ended => simp [ended] at present
            | panicked _ _ panics => simp [panics] at calm

theorem Unharmed.poll (unharmed : session.Unharmed) (stage : session.Stage)
    (calm : session.panicked = false)
    (stepped : session.step .poll = some later) :
    later.Unharmed ∧ later.panicked = false := by
  cases unharmed with
  | failed free => simp [MonoiofsSession.step, free] at stepped
  | closed free => simp [MonoiofsSession.step, free] at stepped
  | closing busy alive empty orphans last writes unheard =>
      simp only [MonoiofsSession.step, busy, Mailbox.receive, empty, alive,
        if_true] at stepped
      split at stepped
      · cases stepped
        exact ⟨.closing busy alive empty orphans last writes unheard, calm⟩
      · cases stepped
  | answered busy reply arrived nothing =>
      cases present : session.writer.inner with
      | none => simp [MonoiofsSession.step, present] at stepped
      | some writer =>
          simp only [MonoiofsSession.step, present, busy, Mailbox.receive,
            arrived] at stepped
          cases stepped
          cases reply with
          | error err => exact ⟨.failed rfl session.history err rfl, calm⟩
          | ok => exact ⟨.closed rfl rfl, calm⟩
  | opened writing alive orphans =>
      cases stage with
      | idle _ _ _ _ free => simp [MonoiofsSession.step, free] at stepped
      | closed _ _ free => simp [MonoiofsSession.step, free] at stepped
      | panicked _ _ panics => simp [panics] at calm
      | closing _ _ _ _ busy => exact absurd busy (writing _)
      | writing writer acked front bs rest buf present busy pos takes log
          chunks remains current respects =>
          have kept := Mailbox.receive_rest session.channel
          simp only [MonoiofsSession.step, present, busy] at stepped
          rcases respects.receive with ⟨received, _, _⟩ |
            ⟨channel, received, stopped, _⟩ |
            ⟨result, channel, _, _, received, _⟩
          · rw [received] at stepped
            cases stepped
            exact ⟨.opened writing alive orphans, calm⟩
          · rw [received, alive] at kept
            rw [kept.1] at stopped
            cases stopped
          · rw [received, alive] at kept
            rw [received] at stepped
            cases stepped
            have left : Orphans channel.queue := by
              rw [kept.2]
              exact orphans
            cases result with
            | error err => exact ⟨.opened (by simp [after, resume]) kept.1 left,
                calm⟩
            | ok =>
                obtain ⟨other, behind, same, moved, _, _⟩ :=
                  current_spec remains
                cases same.symm.trans current
                simp only [resume, moved]
                exact unharmed_write kept.1 left calm

theorem Unharmed.drop (unharmed : session.Unharmed)
    (calm : session.panicked = false)
    (stepped : session.step .drop = some later) :
    later.Unharmed ∧ later.panicked = false := by
  cases unharmed with
  | failed free => simp [MonoiofsSession.step, free] at stepped
  | closed free => simp [MonoiofsSession.step, free] at stepped
  | closing busy =>
      simp only [MonoiofsSession.step, busy] at stepped
      cases stepped
      exact ⟨.failed rfl session.history RequestSession.dropped rfl, calm⟩
  | answered busy =>
      simp only [MonoiofsSession.step, busy] at stepped
      cases stepped
      exact ⟨.failed rfl session.history RequestSession.dropped rfl, calm⟩
  | opened writing alive orphans =>
      simp only [MonoiofsSession.step] at stepped
      split at stepped
      · cases stepped
      · cases stepped
        refine ⟨.opened (by simp) alive ?_, calm⟩
        intro entry member
        obtain ⟨before, queued, rfl⟩ := List.mem_map.mp member
        exact orphans before queued

/-- A request that is served; only `Close` is the last one. -/
theorem Unharmed.serve (unharmed : session.Unharmed) {outcome : WriterOutcome}
    {channel : Channel} (careful : session.Careful (.serve outcome))
    (served : session.channel.serve MonoiofsFile.serve outcome =
      some channel) :
    ({ session with channel } : MonoiofsSession).Unharmed := by
  obtain ⟨request, heard, queue, queued, ends⟩ := Mailbox.serve_cases served
  have goes : ∀ pos buf, request = .write pos buf →
      channel = session.channel.advance MonoiofsFile.serve request heard queue
        outcome := by
    rintro pos buf rfl
    rcases ends with ⟨last, _⟩ | ⟨_, same⟩
    · cases outcome with
      | crashed written => exact careful.elim
      | done => cases last
      | failed written err => cases last
    · exact same
  cases unharmed with
  | failed free before err last => exact .failed free before err last
  | closed free ended => exact .closed free ended
  | answered busy reply arrived nothing => simp [nothing] at queued
  | opened writing alive orphans =>
      have first := orphans (request, heard) (by simp [queued])
      cases request with
      | close => exact first.elim
      | write pos buf =>
          cases goes pos buf rfl
          refine .opened writing alive fun entry member => orphans entry ?_
          rw [queued]
          exact List.mem_cons_of_mem _ member
  | closing busy alive empty orphans last writes unheard =>
      rw [queued] at last
      cases orphans with
      | cons orphan orphans =>
          obtain ⟨rfl, rfl⟩ := List.cons.inj last
          have first := writes (request, heard) List.mem_cons_self
          cases request with
          | close => exact first.elim
          | write pos buf =>
              cases goes pos buf rfl
              have ignored : heard = false := unheard _ List.mem_cons_self
              refine .closing busy alive ?_ orphans rfl
                (fun entry member => writes entry ?_)
                (fun entry member => unheard entry ?_)
              · simp [Mailbox.advance, ignored, empty]
              · exact List.mem_cons_of_mem _ member
              · exact List.mem_cons_of_mem _ member
      | nil =>
          obtain ⟨same, rfl⟩ := List.cons.inj last
          obtain ⟨rfl, rfl⟩ := Prod.mk.inj same
          cases outcome with
          | crashed written => exact careful.elim
          | done =>
              obtain ⟨_, rfl⟩ := ends.resolve_right (by simp
                [MonoiofsFile.serve, Mailbox.Served.isLast])
              exact .answered busy (.ok ()) rfl rfl
          | failed written err =>
              obtain ⟨_, rfl⟩ := ends.resolve_right (by simp
                [MonoiofsFile.serve, Mailbox.Served.isLast])
              exact .answered busy (.error err) rfl rfl

theorem Unharmed.step (unharmed : session.Unharmed) (stage : session.Stage)
    (calm : session.panicked = false) {event : MonoiofsEvent}
    (careful : session.Careful event)
    (stepped : session.step event = some later) :
    later.Unharmed ∧ later.panicked = false := by
  cases event with
  | call call => exact unharmed.call stage calm careful stepped
  | poll => exact unharmed.poll stage calm stepped
  | drop => exact unharmed.drop calm stepped
  | crash => exact careful.elim
  | serve outcome =>
      obtain ⟨channel, served, same⟩ := Option.map_eq_some_iff.mp stepped
      cases same
      exact ⟨unharmed.serve careful served, calm⟩

/-! ## All runs -/

/-- The bytes of a last write that has failed. -/
def leftover (history : List (HistoryEntry Empty)) : Bytes :=
  match history.getLast? with
  | some (.wrote bs (.error _)) => bs.bytes
  | _ => []

theorem Stage.takes (stage : session.Stage) :
    session.acknowledged <+: session.channel.worker.content ∧
    ∃ taken front, Takes session.history taken ∧
      session.acknowledged = taken ++ front ∧
      (∀ bs future, session.call = some (.write bs, future) →
        ∃ rest, WholeChunks bs front rest) ∧
      (session.call = none → session.panicked = false → front = []) := by
  have unwritten : ∀ {call : Option (WriteCall × WriteFuture)} {front : Bytes},
      (∀ bs future, call ≠ some (.write bs, future)) →
        ∀ bs future, call = some (.write bs, future) →
          ∃ rest, WholeChunks bs front rest :=
    fun other bs future busy => absurd busy (other bs future)
  cases stage with
  | idle writer acked chunk opened free pos takes log respects pending =>
      refine ⟨log ▸ inFront respects, acked, [], takes, ?_,
        unwritten (by simp [free]), fun _ _ => rfl⟩
      rw [log, List.append_nil]
  | writing writer acked front bs rest buf opened busy pos takes log chunks
      remains current respects =>
      refine ⟨log ▸ inFront respects, acked, front, takes, log, ?_, ?_⟩
      · intro other future called
        rw [busy] at called
        cases called
        exact ⟨rest, chunks⟩
      · intro free
        rw [busy] at free
        cases free
  | closing writer acked chunk opened busy pos takes log respects nothing =>
      refine ⟨log ▸ inFront respects, acked, [], takes, ?_,
        unwritten (by simp [busy]), fun _ _ => rfl⟩
      rw [log, List.append_nil]
  | closed acked ended free takes log stopped empty durable inFront alone =>
      refine ⟨log ▸ inFront, acked, [], takes, ?_,
        unwritten (by simp [free]), fun _ _ => rfl⟩
      rw [log, List.append_nil]
  | panicked acked front panics free takes log stopped empty inFront =>
      refine ⟨log ▸ inFront, acked, front, takes, log,
        unwritten (by simp [free]), ?_⟩
      intro _ calm
      rw [panics] at calm
      cases calm

theorem Stage.exact (stage : session.Stage) (steady : session.Steady)
    (free : session.call = none) (calm : session.panicked = false) :
    ∃ rest, session.channel.worker.content =
      acceptedBytes session.history ++ rest ∧
        rest <+: leftover session.history := by
  have accepts : ∀ {taken : Bytes}, Takes session.history taken →
      taken = acceptedBytes session.history := fun takes =>
    takes.eq_acceptedBytes fun bs err failed => Repeats.contiguous steady failed
  cases stage with
  | writing _ _ _ _ _ _ _ busy => simp [busy] at free
  | closing _ _ _ _ busy => simp [busy] at free
  | panicked _ _ panics => simp [panics] at calm
  | closed acked ended free takes log stopped empty durable inFront alone =>
      rw [← accepts takes]
      exact ⟨[], by rw [alone steady, List.append_nil], List.nil_prefix⟩
  | idle writer acked chunk opened free pos takes log respects pending =>
      obtain ⟨_, tail, split, behind⟩ := respects.holds
      rw [← accepts takes]
      refine ⟨tail, split, ?_⟩
      have before := behind steady
      cases chunk with
      | none =>
          rw [Option.getD_none, List.prefix_nil] at before
          rw [before]
          exact List.nil_prefix
      | some buf =>
          obtain ⟨_, history, bs, err, last, bytes⟩ := pending steady buf rfl
          rw [Option.getD_some, ← bytes] at before
          rw [last, leftover, List.getLast?_concat]
          exact before

end MonoiofsSession

open MonoiofsSession in
/-- In every run of a writer of monoiofs the file begins with all chunks that
have been acknowledged, in order.  These are all bytes of the accepted writes
and whole chunks from the beginning of the others, and of a write that is still
going on.  If every failed write is one contiguous chunk and is
made again, there is nothing else in the file but the beginning of a last one
that has failed, however often it has been served.  After a successful `close`
the file is synced and does not change any more.  Nothing panics unless the
worker crashes or there is a call after a `close` that has failed or has been
dropped. -/
theorem MonoiofsWriter.writes_in_place {file : MonoiofsFile}
    (truncating : file.append = false) (empty : file.content = [])
    {events : List MonoiofsEvent} {session : MonoiofsSession}
    (ran : Automaton.run step (new file) events = some session) :
    (session.acknowledged <+: session.channel.worker.content ∧
      ∃ taken front, Takes session.history taken ∧
        session.acknowledged = taken ++ front ∧
        (∀ bs future, session.call = some (.write bs, future) →
          ∃ rest, WholeChunks bs front rest) ∧
        (session.call = none → session.panicked = false → front = [])) ∧
    (session.Steady → session.call = none → session.panicked = false →
      ∃ rest, session.channel.worker.content =
        acceptedBytes session.history ++ rest ∧
          rest <+: leftover session.history) ∧
    (.closed (.ok ()) ∈ session.history →
      session.channel.alive = false ∧ session.channel.queue = [] ∧
        session.channel.worker.synced =
          some session.channel.worker.content) ∧
    (Automaton.Along step Careful (new file) events →
      session.panicked = false) := by
  have start : (new file).Stage := stage_new truncating empty
  have stage : session.Stage :=
    Automaton.run_invariant_of_forall (fun stage => stage.step) start ran
  have ended : session.Ended :=
    Automaton.run_invariant_of_forall (fun ended => ended.step)
      (by simp [Ended, new]) ran
  refine ⟨stage.takes, stage.exact, fun member => ?_, fun careful => ?_⟩
  · have gone := ended member
    cases stage with
    | idle _ _ _ opened => simp [gone] at opened
    | writing _ _ _ _ _ _ opened => simp [gone] at opened
    | closing _ _ _ opened => simp [gone] at opened
    | closed acked _ _ _ _ stopped empty durable =>
        exact ⟨stopped, empty, durable⟩
    | panicked _ _ _ _ _ _ _ _ _ opened => exact absurd gone opened
  · have unharmed : (new file).Unharmed ∧ (new file).panicked = false :=
      ⟨.opened (by simp [new]) rfl (by simp [Orphans, new, Mailbox.new]), rfl⟩
    have all := Automaton.run_invariant_along
      (fun {state event next} (holds : state.Stage ∧ state.Unharmed ∧
          state.panicked = false) (careful : state.Careful event) stepped =>
        (⟨holds.1.step stepped, holds.2.1.step holds.1 holds.2.2 careful
          stepped⟩ : next.Stage ∧ next.Unharmed ∧ next.panicked = false))
      ⟨start, unharmed⟩ careful ran
    exact all.2.2

namespace MonoiofsSession

/-- A write is dropped while its request is in the channel, and made again. -/
def repeatedWrite : List MonoiofsEvent :=
  [.call (.write (.fromBytes [104, 105])), .drop,
    .call (.write (.fromBytes [104, 105])),
    .serve (.failed 1 (.new .unexpected "EIO")), .serve .done, .poll,
    .call .close, .serve .done, .poll]

end MonoiofsSession

open MonoiofsSession in
theorem MonoiofsWriter.writes_in_place_repeated :
    ∃ session, Automaton.run step (new (.opened false [1, 2, 3]))
      repeatedWrite = some session ∧
        session.channel.worker.content = [104, 105] ∧
        session.channel.worker.synced = some [104, 105] := by
  obtain ⟨session, ran, content, history⟩ : ∃ session,
      Automaton.run step (new (.opened false [1, 2, 3])) repeatedWrite =
        some session ∧ session.channel.worker.content = [104, 105] ∧
          session.history =
            [.wrote (.fromBytes [104, 105]) (.error RequestSession.dropped),
              .wrote (.fromBytes [104, 105]) (.ok ()), .closed (.ok ())] :=
    ⟨_, rfl, rfl, rfl⟩
  have closed : .closed (.ok ()) ∈ session.history := by simp [history]
  have places := writes_in_place rfl rfl ran
  have synced := (places.2.2.1 closed).2.2
  rw [content] at synced
  exact ⟨session, ran, content, synced⟩

open MonoiofsSession in
-- a `close` that is dropped and made again panics
example : (Automaton.run step (new (.opened false []))
    [.call .close, .drop, .serve .done, .call .close]).map panicked =
    some true := rfl

end OpenDal
