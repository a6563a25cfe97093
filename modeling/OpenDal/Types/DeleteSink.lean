import OpenDal.Types.DeletedEntries
import OpenDal.Types.DeleterClose

/-!
# `FuturesDeleteSink`

The sink owns a `Deleter` and drives it by futures: one that deletes an item,
one that flushes, one that closes.  A future does nothing before it is polled,
and `poll_flush` and `poll_close` return as soon as they have made theirs.

So what they promise holds only when it held before: when the future that is
polled on the way is a flush or a close, or when nothing is queued.
-/

namespace OpenDal

/-- The futures are named by what they will do to the deleter they own. -/
inductive DeleteSinkState (D : Type) where
  | idle (deleter : Option (Deleter D))
  | delete (deleter : Deleter D) (input : DeleteInput)
  | flush (deleter : Deleter D)
  | close (deleter : Deleter D)

namespace DeleteSinkState

variable {D : Type}

/-- The deleter, also while a future owns it. -/
def deleter : DeleteSinkState D → Option (Deleter D)
  | .idle deleter => deleter
  | .delete deleter _ => some deleter
  | .flush deleter => some deleter
  | .close deleter => some deleter

def isDelete : DeleteSinkState D → Bool
  | .delete _ _ => true
  | _ => false

def isFlush : DeleteSinkState D → Bool
  | .flush _ => true
  | _ => false

def isClose : DeleteSinkState D → Bool
  | .close _ => true
  | _ => false

end DeleteSinkState

structure FuturesDeleteSink (D : Type) where
  state : DeleteSinkState D

namespace FuturesDeleteSink

variable {D : Type}

def new (deleter : Deleter D) : FuturesDeleteSink D :=
  ⟨.idle (some deleter)⟩

def closedError : Error :=
  Error.new .unexpected "FuturesDeleteSink has been closed or errored"

def notReadyError : Error :=
  Error.new .unexpected
    "FuturesDeleteSink is not ready to send, please poll_ready first"

def startSend (sink : FuturesDeleteSink D) (input : DeleteInput) :
    Except Error Unit × FuturesDeleteSink D :=
  match sink.state with
  | .idle none => (.error closedError, sink)
  | .idle (some deleter) => (.ok (), ⟨.delete deleter input⟩)
  | _ => (.error notReadyError, sink)

/-- The `Idle` arm of `poll_flush` and `poll_close`: the future is made and
not polled. -/
def start (future : Deleter D → DeleteSinkState D)
    (deleter : Option (Deleter D)) :
    Poll (Except Error Unit) × FuturesDeleteSink D :=
  match deleter with
  | none => (.ready (.error closedError), ⟨.idle none⟩)
  | some deleter => (.ready (.ok ()), ⟨future deleter⟩)

variable [Delete D]

/-- What a future comes to when it is polled: `none` is pending, and closing
may flush as many times as the number says.  The outer `none` is a panic or a
`close` that needs more flushes. -/
def pollFuture (polled : Option Nat) (state : DeleteSinkState D) :
    Option (Poll (Except Error Unit × Deleter D)) :=
  match polled, state with
  | none, _ => some .pending
  | some _, .idle _ => some .pending
  | some _, .delete deleter input => (deleter.delete input).map .ready
  | some _, .flush deleter =>
      deleter.flush.map fun (res, deleter) =>
        .ready (res.map fun _ => (), deleter)
  | some fuel, .close deleter => (deleter.close fuel).map .ready

def pollReady (polled : Option Nat) (sink : FuturesDeleteSink D) :
    Option (Poll (Except Error Unit) × FuturesDeleteSink D) :=
  match sink.state with
  | .idle _ => some (.ready (.ok ()), sink)
  | _ =>
      match pollFuture polled sink.state with
      | none => none
      | some .pending => some (.pending, sink)
      | some (.ready (res, deleter)) =>
          some (.ready res, ⟨.idle (some deleter)⟩)

/-- The loop of `poll_flush` and `poll_close`: it ends when a future of its
own kind has been completed, and goes on to make one after any other. -/
def drive (future : Deleter D → DeleteSinkState D)
    (own : DeleteSinkState D → Bool) (polled : Option Nat)
    (sink : FuturesDeleteSink D) :
    Option (Poll (Except Error Unit) × FuturesDeleteSink D) :=
  match sink.state with
  | .idle deleter => some (start future deleter)
  | _ =>
      match pollFuture polled sink.state with
      | none => none
      | some .pending => some (.pending, sink)
      | some (.ready (.error err, deleter)) =>
          some (.ready (.error err), ⟨.idle (some deleter)⟩)
      | some (.ready (.ok (), deleter)) =>
          if own sink.state then
            some (.ready (.ok ()), ⟨.idle (some deleter)⟩)
          else
            some (start future (some deleter))

def pollFlush (polled : Option Nat) (sink : FuturesDeleteSink D) :
    Option (Poll (Except Error Unit) × FuturesDeleteSink D) :=
  drive .flush DeleteSinkState.isFlush polled sink

def pollClose (polled : Option Nat) (sink : FuturesDeleteSink D) :
    Option (Poll (Except Error Unit) × FuturesDeleteSink D) :=
  drive .close DeleteSinkState.isClose polled sink

end FuturesDeleteSink

/-! ## Calls of the sink -/

/-- A call of `oio::Delete`. -/
inductive DeleteCall where
  | delete (key : Path × OpDelete)
  | flush

/-- A deleter together with the calls it has received. -/
structure Logged (D : Type) where
  inner : D
  log : List DeleteCall

instance (D : Type) [Delete D] : Delete (Logged D) where
  delete d path args :=
    (Delete.delete d.inner path args).map id
      fun inner => ⟨inner, d.log ++ [.delete (path, args)]⟩
  flush d :=
    (Delete.flush d.inner).map id fun inner => ⟨inner, d.log ++ [.flush]⟩

namespace DeleteSession

inductive Event where
  | pollReady (polled : Option Nat)
  | startSend (input : DeleteInput)
  | pollFlush (polled : Option Nat)
  | pollClose (polled : Option Nat)

end DeleteSession

/-- A sink and the items that `start_send` has accepted. -/
structure DeleteSession (D : Type) where
  sink : FuturesDeleteSink D
  sent : List (Path × OpDelete)

namespace DeleteSession

variable {D : Type}

def new (deleter : Deleter D) : DeleteSession D :=
  ⟨.new deleter, []⟩

def step [Delete D] (session : DeleteSession D) :
    Event → Option (DeleteSession D)
  | .pollReady polled =>
      (session.sink.pollReady polled).map fun (_, sink) => { session with sink }
  | .pollFlush polled =>
      (session.sink.pollFlush polled).map fun (_, sink) => { session with sink }
  | .pollClose polled =>
      (session.sink.pollClose polled).map fun (_, sink) => { session with sink }
  | .startSend input =>
      match session.sink.startSend input with
      | (.ok (), sink) => some ⟨sink, session.sent ++ [input.key]⟩
      | (.error _, sink) => some { session with sink }

end DeleteSession

/-! ## Deleters of a reliable service -/

namespace ServiceDeleter

variable {S : Type}

def isOneShot : ServiceDeleter S → Bool
  | .oneShot _ => true
  | .batch _ => false

variable [BatchDelete S]

theorem flush_reliable (reliable : Reliable S)
    (d : ServiceDeleter (Recorded S)) :
    ∃ later, Delete.flush d = (.ok d.pending.length, later) ∧
      later.pending = [] ∧ later.isOneShot = d.isOneShot ∧
      later.inner.handed = d.inner.handed ++ d.pending := by
  cases d with
  | oneShot d =>
      obtain ⟨inner, queued⟩ := d
      cases queued with
      | none => exact ⟨_, rfl, rfl, rfl, (List.append_nil _).symm⟩
      | some key =>
          obtain ⟨path, args⟩ := key
          have answered : deleteOnce inner path args =
              (.ok (), ⟨(deleteOnce inner.service path args).2,
                inner.handed ++ [(path, args)]⟩) :=
            Prod.ext (reliable.once inner.service path args) rfl
          refine ⟨.oneShot ⟨⟨(deleteOnce inner.service path args).2,
            inner.handed ++ [(path, args)]⟩, none⟩, ?_, rfl, rfl, rfl⟩
          simp only [Delete.flush, OneShotDeleter.flush, answered]
          rfl
  | batch d =>
      obtain ⟨later, flushed, empty, handed⟩ := d.flush_recorded reliable
      refine ⟨.batch later, ?_, empty, rfl, handed⟩
      have same : Delete.flush d = (.ok d.buffer.length, later) := flushed
      simp only [Delete.flush] at same ⊢
      rw [same]
      rfl

theorem delete_reliable {d : ServiceDeleter (Recorded S)} (path : Path)
    (args : OpDelete) (free : d.isOneShot = true → d.pending = []) :
    ∃ later, Delete.delete d path args = (.ok (), later) ∧
      later.isOneShot = d.isOneShot := by
  cases d with
  | oneShot d =>
      have empty : d.queued = none := by
        simpa [pending] using free rfl
      refine ⟨.oneShot { d with queued := some (path, args) }, ?_, rfl⟩
      simp only [Delete.delete, OneShotDeleter.delete, empty]
      rfl
  | batch d => exact ⟨_, rfl, rfl⟩

end ServiceDeleter

/-! ## What the deleter of the sink keeps -/

namespace DeleteSession

variable {S : Type}

/-- The deleter of a service whose calls are recorded on both sides of it. -/
abbrev RecordedDeleter (S : Type) : Type :=
  Deleter (Logged (ServiceDeleter (Recorded S)))

abbrev RecordedSink (S : Type) : Type :=
  FuturesDeleteSink (Logged (ServiceDeleter (Recorded S)))

abbrev Recording (S : Type) : Type :=
  DeleteSession (Logged (ServiceDeleter (Recorded S)))

/-- The last call was not a deletion. -/
def FlushedLast (log : List DeleteCall) : Prop :=
  ∀ key, log.getLast? ≠ some (.delete key)

/-- The items in `keys` are queued or have been handed to the service, and
something is queued exactly when the last call was a deletion. -/
structure Settled (keys : List (Path × OpDelete))
    (d : RecordedDeleter S) : Prop where
  counted : d.deleter.inner.pending.length ≤ d.curSize
  suited : d.deleter.inner.isOneShot = true → d.maxSize ≤ 1
  found : ∀ key ∈ keys, key ∈ d.deleter.inner.inner.handed ∨
    key ∈ d.deleter.inner.pending
  last : d.deleter.inner.pending = [] ↔ FlushedLast d.deleter.log

theorem Settled.mono {keys fewer : List (Path × OpDelete)}
    {d : RecordedDeleter S}
    (settled : Settled keys d) (subset : fewer ⊆ keys) : Settled fewer d :=
  { settled with
    found := fun key member => settled.found key (subset member) }

/-- The deleter is settled for what was sent, except for the item of a
deletion that has not been completed. -/
def Consistent (session : Recording S) : Prop :=
  match session.sink.state with
  | .idle none => False
  | .idle (some d) => Settled session.sent d
  | .flush d => Settled session.sent d
  | .close d => Settled session.sent d
  | .delete d input => ∃ keys, session.sent = keys ++ [input.key] ∧
      Settled keys d

/-- Before the call the queue was empty, or a flush or a close was under
way. -/
def Drained (sink : RecordedSink S) : Prop :=
  match sink.state with
  | .idle none => False
  | .idle (some d) => d.deleter.inner.pending = []
  | .delete _ _ => False
  | .flush _ => True
  | .close _ => True

theorem isDelete_eq_false_iff_drained {sink : RecordedSink S}
    (busy : ∀ deleter, sink.state ≠ .idle deleter) :
    sink.state.isDelete = false ↔ Drained sink := by
  unfold Drained
  cases current : sink.state with
  | idle deleter => exact absurd current (busy deleter)
  | delete deleter input => simp [DeleteSinkState.isDelete]
  | flush deleter => simp [DeleteSinkState.isDelete]
  | close deleter => simp [DeleteSinkState.isDelete]

/-- What `poll_flush` and `poll_close` do with the sink: the call is pending,
or it returns with a deleter that is settled for what was sent and has nothing
queued exactly when the sink was drained. -/
def Returns (session : Recording S) (poll : Poll (Except Error Unit))
    (later : RecordedSink S) : Prop :=
  poll = .pending ∧ later = session.sink ∨
    poll = .ready (.ok ()) ∧ ∃ d, later.state.deleter = some d ∧
      later.state.isDelete = false ∧ Settled session.sent d ∧
      (d.deleter.inner.pending = [] ↔ Drained session.sink)

theorem Returns.consistent {session : Recording S}
    {poll : Poll (Except Error Unit)} {later : RecordedSink S}
    (returns : Returns session poll later) (consistent : Consistent session) :
    Consistent { session with sink := later } := by
  rcases returns with ⟨_, rfl⟩ | ⟨_, d, owns, notDelete, settled, _⟩
  · exact consistent
  · unfold Consistent
    cases current : later.state with
    | idle deleter =>
        rw [current] at owns
        cases owns
        exact settled
    | delete deleter input => simp [current, DeleteSinkState.isDelete] at notDelete
    | flush deleter =>
        rw [current] at owns
        cases owns
        exact settled
    | close deleter =>
        rw [current] at owns
        cases owns
        exact settled

theorem settled_new (service : S) {d : ServiceDeleter (Recorded S)}
    {maxSize : Option Nat}
    (opened : d = .oneShot (OneShotDeleter.new ⟨service, []⟩) ∧
        maxSize.getD 1 ≤ 1 ∨
      d = .batch (BatchDeleter.new ⟨service, []⟩)) :
    Settled [] (Deleter.create (Logged.mk d []) maxSize) := by
  rcases opened with ⟨rfl, small⟩ | rfl
  · constructor
    · exact Nat.zero_le _
    · intro _
      exact small
    · intro key member
      cases member
    · simp [FlushedLast, Deleter.create, ServiceDeleter.pending,
        OneShotDeleter.new]
  · constructor
    · exact Nat.zero_le _
    · intro oneShot
      cases oneShot
    · intro key member
      cases member
    · simp [FlushedLast, Deleter.create, ServiceDeleter.pending,
        BatchDeleter.new]

variable [BatchDelete S]

theorem Settled.flush (reliable : Reliable S)
    {keys : List (Path × OpDelete)}
    {d : RecordedDeleter S}
    (settled : Settled keys d) :
    ∃ deleted later, d.flush = some (.ok deleted, later) ∧
      Settled keys later ∧ later.deleter.inner.pending = [] := by
  obtain ⟨inner, flushed, empty, kind, handed⟩ :=
    d.deleter.inner.flush_reliable reliable
  have answered : Delete.flush d.deleter =
      (.ok d.deleter.inner.pending.length,
        ⟨inner, d.deleter.log ++ [.flush]⟩) := by
    simp only [Delete.flush] at flushed ⊢
    rw [flushed]
    rfl
  refine ⟨_, _, by simp only [Deleter.flush, answered, if_pos settled.counted]; rfl,
    ?_, empty⟩
  constructor
  · simp [empty]
  · intro oneShot
    exact settled.suited (kind ▸ oneShot)
  · intro key member
    left
    rw [handed, List.mem_append]
    exact settled.found key member
  · simp [empty, FlushedLast]

theorem Settled.push {keys : List (Path × OpDelete)}
    {d : RecordedDeleter S}
    (settled : Settled keys d) (input : DeleteInput)
    (free : d.deleter.inner.isOneShot = true →
      d.deleter.inner.pending = []) :
    ∃ later, d.push input = (.ok (), later) ∧
      Settled (input.key :: keys) later ∧
      later.deleter.inner.pending ≠ [] := by
  obtain ⟨inner, queued, kind⟩ :=
    ServiceDeleter.delete_reliable input.path input.op free
  obtain ⟨same, members, longer⟩ := ServiceDeleter.delete_ok queued
  have answered : Delete.delete d.deleter input.path input.op =
      (.ok (), ⟨inner, d.deleter.log ++ [.delete input.key]⟩) := by
    simp only [Delete.delete] at queued ⊢
    rw [queued]
    rfl
  have present : inner.pending ≠ [] := by
    apply List.ne_nil_of_mem
    exact (members input.key).mpr (.inl rfl)
  refine ⟨_, by simp only [Deleter.push, answered]; rfl, ?_, present⟩
  constructor
  · exact longer.trans (Nat.succ_le_succ settled.counted)
  · intro oneShot
    exact settled.suited (kind ▸ oneShot)
  · intro key member
    show key ∈ inner.inner.handed ∨ key ∈ inner.pending
    rw [same, members]
    rcases List.mem_cons.mp member with rfl | earlier
    · exact .inr (.inl rfl)
    · exact (settled.found key earlier).imp_right .inr
  · constructor
    · intro empty
      exact absurd empty present
    · intro flushed
      exact absurd (by simp) (flushed input.key)

theorem Settled.delete (reliable : Reliable S)
    {keys : List (Path × OpDelete)}
    {d : RecordedDeleter S}
    (settled : Settled keys d) (input : DeleteInput) :
    ∃ later, d.delete input = some (.ok (), later) ∧
      Settled (input.key :: keys) later ∧
      later.deleter.inner.pending ≠ [] := by
  by_cases full : d.maxSize ≤ d.curSize
  · obtain ⟨deleted, between, flushed, kept, empty⟩ := settled.flush reliable
    obtain ⟨later, pushed, grown⟩ := kept.push input fun _ => empty
    exact ⟨later, by simp [Deleter.delete, if_pos full, flushed, pushed],
      grown⟩
  · have free : d.deleter.inner.isOneShot = true →
        d.deleter.inner.pending = [] := by
      intro oneShot
      have small := settled.suited oneShot
      have counted := settled.counted
      apply List.length_eq_zero_iff.mp
      omega
    obtain ⟨later, pushed, grown⟩ := settled.push input free
    exact ⟨later, by simp [Deleter.delete, if_neg full, pushed], grown⟩

theorem Settled.close (reliable : Reliable S)
    {keys : List (Path × OpDelete)} {fuel : Nat}
    {d later : RecordedDeleter S}
    {res : Except Error Unit} (settled : Settled keys d)
    (closed : d.close fuel = some (res, later)) :
    res = .ok () ∧ Settled keys later ∧ later.deleter.inner.pending = [] := by
  induction fuel generalizing d with
  | zero => cases closed
  | succ fuel induction =>
      obtain ⟨deleted, next, flushed, kept, empty⟩ := settled.flush reliable
      simp only [Deleter.close, flushed] at closed
      split at closed
      · cases closed
        exact ⟨rfl, kept, empty⟩
      · exact induction kept closed

/-- A future that is completed has succeeded.  The queue is empty afterwards
unless it was a deletion. -/
theorem Consistent.pollFuture (reliable : Reliable S)
    {session : Recording S}
    (consistent : Consistent session) {polled : Option Nat}
    {res : Except Error Unit}
    {d : RecordedDeleter S}
    (completed : FuturesDeleteSink.pollFuture polled session.sink.state =
      some (.ready (res, d))) :
    res = .ok () ∧ Settled session.sent d ∧
      (d.deleter.inner.pending = [] ↔
        session.sink.state.isDelete = false) := by
  unfold Consistent at consistent
  cases polled with
  | none => cases completed
  | some fuel =>
      cases current : session.sink.state with
      | idle deleter =>
          rw [current] at completed
          cases completed
      | delete deleter input =>
          simp only [current] at consistent
          obtain ⟨keys, sent, settled⟩ := consistent
          obtain ⟨later, deleted, grown, present⟩ :=
            settled.delete reliable input
          simp only [current, FuturesDeleteSink.pollFuture, deleted] at completed
          cases completed
          refine ⟨rfl, ?_, ?_⟩
          · apply grown.mono
            rw [sent]
            simp
          · simp [present, DeleteSinkState.isDelete]
      | flush deleter =>
          simp only [current] at consistent
          obtain ⟨amount, later, flushed, kept, empty⟩ :=
            consistent.flush reliable
          simp only [current, FuturesDeleteSink.pollFuture, flushed] at completed
          cases completed
          exact ⟨rfl, kept, by simp [empty, DeleteSinkState.isDelete]⟩
      | close deleter =>
          simp only [current] at consistent
          simp only [current, FuturesDeleteSink.pollFuture,
            Option.map_eq_some_iff] at completed
          obtain ⟨⟨result, later⟩, closed, same⟩ := completed
          cases same
          obtain ⟨succeeded, kept, empty⟩ := consistent.close reliable closed
          exact ⟨succeeded, kept, by simp [empty, DeleteSinkState.isDelete]⟩

theorem Consistent.pollReady (reliable : Reliable S)
    {session : Recording S}
    (consistent : Consistent session) {polled : Option Nat}
    {poll : Poll (Except Error Unit)}
    {later : RecordedSink S}
    (called : session.sink.pollReady polled = some (poll, later)) :
    Consistent { session with sink := later } := by
  unfold FuturesDeleteSink.pollReady at called
  split at called
  · cases called
    exact consistent
  · split at called
    · cases called
    · cases called
      exact consistent
    · rename_i res deleter completed
      cases called
      obtain ⟨_, settled, _⟩ := consistent.pollFuture reliable completed
      exact settled

theorem Consistent.drive (reliable : Reliable S) {session : Recording S}
    (consistent : Consistent session)
    {future : RecordedDeleter S → DeleteSinkState
      (Logged (ServiceDeleter (Recorded S)))}
    {own : DeleteSinkState (Logged (ServiceDeleter (Recorded S))) → Bool}
    (owns : ∀ d, (future d).deleter = some d)
    (notDelete : ∀ d, (future d).isDelete = false)
    {polled : Option Nat} {poll : Poll (Except Error Unit)}
    {later : RecordedSink S}
    (called : session.sink.drive future own polled = some (poll, later)) :
    Returns session poll later := by
  unfold FuturesDeleteSink.drive at called
  split at called
  · rename_i deleter idle
    simp only [Consistent, idle] at consistent
    cases deleter with
    | none => exact consistent.elim
    | some d =>
        cases called
        exact .inr ⟨rfl, d, owns d, notDelete d, consistent,
          by simp [Drained, idle]⟩
  · rename_i busy
    split at called
    · cases called
    · cases called
      exact .inl ⟨rfl, rfl⟩
    · rename_i err deleter completed
      obtain ⟨succeeded, _⟩ := consistent.pollFuture reliable completed
      cases succeeded
    · rename_i deleter completed
      obtain ⟨_, settled, emptied⟩ := consistent.pollFuture reliable completed
      have drained := emptied.trans (isDelete_eq_false_iff_drained busy)
      split at called
      · cases called
        exact .inr ⟨rfl, deleter, rfl, rfl, settled, drained⟩
      · cases called
        exact .inr ⟨rfl, deleter, owns deleter, notDelete deleter, settled,
          drained⟩

theorem Consistent.pollFlush (reliable : Reliable S) {session : Recording S}
    (consistent : Consistent session) {polled : Option Nat}
    {poll : Poll (Except Error Unit)} {later : RecordedSink S}
    (called : session.sink.pollFlush polled = some (poll, later)) :
    Returns session poll later :=
  consistent.drive reliable (fun _ => rfl) (fun _ => rfl) called

theorem Consistent.pollClose (reliable : Reliable S) {session : Recording S}
    (consistent : Consistent session) {polled : Option Nat}
    {poll : Poll (Except Error Unit)} {later : RecordedSink S}
    (called : session.sink.pollClose polled = some (poll, later)) :
    Returns session poll later :=
  consistent.drive reliable (fun _ => rfl) (fun _ => rfl) called

theorem Consistent.step (reliable : Reliable S) {session later : Recording S}
    {event : Event} (consistent : Consistent session)
    (stepped : session.step event = some later) : Consistent later := by
  cases event with
  | pollReady polled =>
      obtain ⟨⟨poll, sink⟩, called, rfl⟩ := Option.map_eq_some_iff.mp stepped
      exact consistent.pollReady reliable called
  | pollFlush polled =>
      obtain ⟨⟨poll, sink⟩, called, rfl⟩ := Option.map_eq_some_iff.mp stepped
      exact (consistent.pollFlush reliable called).consistent consistent
  | pollClose polled =>
      obtain ⟨⟨poll, sink⟩, called, rfl⟩ := Option.map_eq_some_iff.mp stepped
      exact (consistent.pollClose reliable called).consistent consistent
  | startSend input =>
      simp only [DeleteSession.step, FuturesDeleteSink.startSend] at stepped
      unfold Consistent at consistent
      cases current : session.sink.state with
      | idle deleter =>
          rw [current] at consistent
          cases deleter with
          | none => exact consistent.elim
          | some d =>
              simp only [current] at stepped
              cases stepped
              exact ⟨session.sent, rfl, consistent⟩
      | _ =>
          simp only [current] at stepped
          cases stepped
          simpa only [Consistent, current] using consistent

/-- Everything that was sent has been handed to the service, and nothing is
queued. -/
def Complete (sent : List (Path × OpDelete)) (sink : RecordedSink S) : Prop :=
  ∃ d, sink.state.deleter = some d ∧
    (∀ key ∈ sent, key ∈ d.deleter.inner.inner.handed) ∧
    d.deleter.inner.pending = []

/-- A flush has been executed after the last deletion. -/
def Flushed (sink : RecordedSink S) : Prop :=
  ∃ d, sink.state.deleter = some d ∧ FlushedLast d.deleter.log

/-- In every run of the sink: when `poll_close` returns `Ok` everything sent
has been deleted, and when `poll_flush` returns `Ok` a flush has followed the
last deletion, exactly when the sink was drained before that call. -/
theorem promises_iff_drained (reliable : Reliable S) (service : S)
    {d : ServiceDeleter (Recorded S)} {maxSize : Option Nat}
    (opened : d = .oneShot (OneShotDeleter.new ⟨service, []⟩) ∧
        maxSize.getD 1 ≤ 1 ∨
      d = .batch (BatchDeleter.new ⟨service, []⟩))
    {events : List Event} {session : Recording S}
    (ran : Automaton.run DeleteSession.step
      (new (Deleter.create ⟨d, []⟩ maxSize)) events = some session) :
    (∀ polled later,
      session.sink.pollClose polled = some (.ready (.ok ()), later) →
      (Complete session.sent later ↔ Drained session.sink)) ∧
    (∀ polled later,
      session.sink.pollFlush polled = some (.ready (.ok ()), later) →
      (Flushed later ↔ Drained session.sink)) := by
  have initially : Consistent (new (Deleter.create ⟨d, []⟩ maxSize)) :=
    settled_new service opened
  have consistent : Consistent session :=
    Automaton.run_invariant_of_forall
      (fun consistent stepped => consistent.step reliable stepped)
      initially ran
  constructor
  · intro polled later called
    rcases consistent.pollClose reliable called with
      ⟨impossible, _⟩ | ⟨_, closed, owns, _, settled, drained⟩
    · cases impossible
    · rw [← drained]
      constructor
      · intro given
        obtain ⟨other, same, _, empty⟩ := given
        cases owns.symm.trans same
        exact empty
      · intro empty
        refine ⟨closed, owns, ?_, empty⟩
        intro key member
        have found := settled.found key member
        simpa [empty] using found
  · intro polled later called
    rcases consistent.pollFlush reliable called with
      ⟨impossible, _⟩ | ⟨_, flushed, owns, _, settled, drained⟩
    · cases impossible
    · rw [← drained, settled.last]
      constructor
      · intro given
        obtain ⟨other, same, last⟩ := given
        cases owns.symm.trans same
        exact last
      · intro last
        exact ⟨flushed, owns, last⟩

/-- A sink over an empty store, which deletes in batches. -/
def memorySession : Recording MemoryStore :=
  new (Deleter.create ⟨.batch (BatchDeleter.new ⟨MemoryStore.mk [], []⟩), []⟩
    (some 1000))

/-- A flush that was made before is completed on the way to the close. -/
theorem promises_iff_drained_flushBetween :
    ∃ session later,
      Automaton.run DeleteSession.step memorySession
        [.pollReady none, .startSend (.ofPath ['a']), .pollReady (some 0),
          .startSend (.ofPath ['b']), .pollFlush (some 0)] = some session ∧
      session.sink.pollClose (some 0) = some (.ready (.ok ()), later) ∧
      session.sent.length = 2 ∧ Complete session.sent later := by
  refine ⟨_, _, rfl, rfl, rfl, ?_⟩
  have ran : Automaton.run DeleteSession.step memorySession
      [.pollReady none, .startSend (.ofPath ['a']), .pollReady (some 0),
        .startSend (.ofPath ['b']), .pollFlush (some 0)] = some _ := rfl
  have promised :=
    promises_iff_drained MemoryStore.reliable ⟨[]⟩ (.inr rfl) ran
  exact (promised.1 (some 0) _ rfl).mpr trivial

/-- One item is sent and the sink is closed, or flushed: the call completes
the deletion, makes its own future and returns. -/
theorem promises_fail_afterSend :
    ∃ session, Automaton.run DeleteSession.step memorySession
        [.pollReady none, .startSend (.ofPath ['a'])] = some session ∧
      (∃ later, session.sink.pollClose (some 0) =
          some (.ready (.ok ()), later) ∧
        ¬ Complete session.sent later) ∧
      (∃ later, session.sink.pollFlush (some 0) =
          some (.ready (.ok ()), later) ∧
        ¬ Flushed later) := by
  refine ⟨_, rfl, ⟨_, rfl, ?_⟩, ⟨_, rfl, ?_⟩⟩
  · intro given
    obtain ⟨d, owned, _, empty⟩ := given
    cases owned
    cases empty
  · intro given
    obtain ⟨d, owned, last⟩ := given
    cases owned
    exact last _ rfl

end DeleteSession

end OpenDal
