import OpenDal.Raw.KvBackend

/-!
# The cached value of a `typed_kv` writer

`close` builds the value out of the buffers that have been written, and keeps
it, so that a close that has failed can be made again.  The value that is kept
is what every later close stores.
-/

namespace OpenDal

/-- An adapter with the last value that it has been able to set. -/
structure Recording (S V : Type) where
  store : S
  stored : Option (Path × V)

instance {S V : Type} [Adapter S V] : Adapter (Recording S V) V where
  get kv key :=
    let (result, store) := Adapter.get kv.store key
    (result, { kv with store })
  set kv key v :=
    match Adapter.set kv.store key v with
    | (.error err, store) => (.error err, { kv with store })
    | (.ok (), store) => (.ok (), { store, stored := some (key, v) })
  delete kv key :=
    let (result, store) := Adapter.delete kv.store key
    (result, { kv with store })
  scan kv dir :=
    let (result, store) := Adapter.scan kv.store dir
    (result, { kv with store })

theorem set_recording {S V : Type} [Adapter S V] (kv : Recording S V)
    (key : Path) (v : V) :
    (∃ err store, Adapter.set kv key v = (.error err, { kv with store })) ∨
      ∃ store, Adapter.set kv key v =
        (.ok (), ⟨store, some (key, v)⟩) := by
  simp only [Adapter.set]
  split
  · rename_i err store _
    exact .inl ⟨err, store, rfl⟩
  · rename_i store _
    exact .inr ⟨store, rfl⟩

/-! ## Calls and what they ask for -/

/-- The calls of a writer; the blocking one has no `abort`. -/
inductive KvWriterCall where
  | write (bs : Buffer)
  | abort
  | close
deriving DecidableEq

namespace KvWriterCall

def acceptedAfter (bytes : Bytes) : KvWriterCall → Bytes
  | .write bs => bytes ++ bs.bytes
  | .abort => []
  | .close => bytes

/-- The bytes of all buffers written since the last abort. -/
def accepted (calls : List KvWriterCall) : Bytes :=
  calls.foldl acceptedAfter []

/-- The calls before the first close. -/
def beforeClose (calls : List KvWriterCall) : List KvWriterCall :=
  calls.takeWhile (· != .close)

theorem accepted_concat (calls : List KvWriterCall) (call : KvWriterCall) :
    accepted (calls ++ [call]) = acceptedAfter (accepted calls) call := by
  simp [accepted]

theorem beforeClose_of_mem {calls : List KvWriterCall}
    (closed : .close ∈ calls) (later : List KvWriterCall) :
    beforeClose (calls ++ later) = beforeClose calls := by
  induction calls with
  | nil => cases closed
  | cons first calls induction =>
      by_cases isClose : first = .close
      · subst isClose
        rfl
      · have behind : .close ∈ calls := by
          rcases List.mem_cons.mp closed with same | behind
          · exact absurd same.symm isClose
          · exact behind
        have kept : (first != .close) = true := by simpa using isClose
        simp only [beforeClose, List.cons_append, List.takeWhile_cons, kept,
          if_true]
        exact congrArg (first :: ·) (induction behind)

theorem beforeClose_of_not_mem {calls : List KvWriterCall}
    (opened : .close ∉ calls) (later : List KvWriterCall) :
    beforeClose (calls ++ later) = calls ++ beforeClose later := by
  apply List.takeWhile_append_of_pos
  intro call member
  have other : call ≠ .close := by
    intro same
    exact opened (same ▸ member)
  simpa using other

theorem beforeClose_close (calls : List KvWriterCall) :
    beforeClose (calls ++ [.close]) = beforeClose calls := by
  by_cases closed : .close ∈ calls
  · exact beforeClose_of_mem closed [.close]
  · have whole := beforeClose_of_not_mem closed []
    rw [List.append_nil] at whole
    exact (beforeClose_of_not_mem closed [.close]).trans whole.symm

end KvWriterCall

open KvWriterCall

/-! ## The writer of `kv`, which keeps its buffers -/

namespace Kv.KvWriter

def abort (writer : KvWriter) : KvWriter :=
  { writer with buffer := writer.buffer.clear }

/-- Closing leaves the writer as it is. -/
def step (writer : KvWriter) : KvWriterCall → KvWriter
  | .write bs => writer.write bs
  | .abort => writer.abort
  | .close => writer

def run (writer : KvWriter) (calls : List KvWriterCall) : KvWriter :=
  calls.foldl step writer

theorem run_spec (path : Path) (calls : List KvWriterCall) :
    ((new path).run calls).path = path ∧
      ((new path).run calls).buffer.bytes = accepted calls := by
  induction calls using List.reverseRecOn with
  | nil => exact ⟨rfl, rfl⟩
  | append_singleton calls call induction =>
      obtain ⟨samePath, bytes⟩ := induction
      rw [run, List.foldl_append, accepted_concat, ← bytes]
      cases call with
      | write bs => exact ⟨samePath, QueueBuf.bytes_push _ bs⟩
      | abort => exact ⟨samePath, rfl⟩
      | close => exact ⟨samePath, rfl⟩

/-- Every close that succeeds stores what was accepted since the last
abort. -/
theorem close_stores {S : Type} [Adapter S Buffer] (kv : Recording S Buffer)
    (path : Path) (calls : List KvWriterCall) {later : Recording S Buffer}
    (closed : ((new path).run calls).close kv = (.ok (), later)) :
    ∃ value, later.stored = some (path, value) ∧
      value.bytes = accepted calls := by
  obtain ⟨samePath, bytes⟩ := run_spec path calls
  unfold close at closed
  rw [samePath] at closed
  rcases set_recording kv path ((new path).run calls).buffer.collect with
    ⟨err, store, failed⟩ | ⟨store, stored⟩
  · cases failed.symm.trans closed
  · cases stored.symm.trans closed
    exact ⟨_, rfl, (QueueBuf.bytes_collect _).trans bytes⟩

end Kv.KvWriter

/-! ## The writer of `typed_kv`, which keeps its value -/

namespace TypedKv

def KvWriter.abort (writer : KvWriter) : KvWriter :=
  { writer with buf := none }

structure KvSession (S : Type) where
  writer : KvWriter
  kv : Recording S Value

namespace KvSession

def new {S : Type} (kv : S) (path : Path) (op : KvOpWrite) : KvSession S :=
  ⟨.new path op, ⟨kv, none⟩⟩

variable {S : Type} [Adapter S Value]

def close (session : KvSession S) : Except Error Unit × KvSession S :=
  let (result, writer, kv) := session.writer.close session.kv
  (result, ⟨writer, kv⟩)

def step (session : KvSession S) : KvWriterCall → KvSession S
  | .write bs => { session with writer := session.writer.write bs }
  | .abort => { session with writer := session.writer.abort }
  | .close => session.close.2

def run (session : KvSession S) (calls : List KvWriterCall) : KvSession S :=
  calls.foldl step session

end KvSession

/-- The value has these bytes, and its metadata tells their number. -/
def Value.Holds (value : Value) (bytes : Bytes) : Prop :=
  value.value.bytes = bytes ∧ value.metadata.contentLength = bytes.length

/-- The last value that was set is one under the path with these bytes. -/
def KvSession.Stores {S : Type} (session : KvSession S) (path : Path)
    (bytes : Bytes) : Prop :=
  ∃ value, session.kv.stored = some (path, value) ∧ value.Holds bytes

/-! ## What a close stores -/

/-- The bytes that have been written and are not part of a value yet. -/
def KvWriter.pending (writer : KvWriter) : Bytes :=
  (writer.buf.map QueueBuf.bytes).getD []

theorem KvWriter.pending_write (writer : KvWriter) (bs : Buffer) :
    (writer.write bs).pending = writer.pending ++ bs.bytes := by
  cases opened : writer.buf with
  | none => simp [KvWriter.write, KvWriter.pending, opened]
  | some buf => simp [KvWriter.write, KvWriter.pending, opened]

theorem KvWriter.holds_build (writer : KvWriter) :
    writer.build.1.Holds writer.pending := by
  cases opened : writer.buf with
  | none =>
      simp only [KvWriter.build, KvWriter.pending, Value.Holds, opened]
      exact ⟨rfl, rfl⟩
  | some buf =>
      simp [KvWriter.build, KvWriter.pending, Value.Holds, opened]

/-- The value that a close hands to the adapter, and keeps. -/
def KvWriter.closing (writer : KvWriter) : Value :=
  writer.value.getD writer.build.1

theorem KvSession.close_spec {S : Type} [Adapter S Value]
    (session : KvSession S) :
    (session.close.1 = .ok () →
      session.close.2.kv.stored =
        some (session.writer.path, session.writer.closing)) ∧
    session.close.2.writer.path = session.writer.path ∧
    session.close.2.writer.value = some session.writer.closing := by
  unfold KvSession.close KvWriter.close KvWriter.closing
  cases cached : session.writer.value with
  | some value =>
      simp only [Option.getD_some]
      rcases set_recording session.kv session.writer.path value with
        ⟨err, store, failed⟩ | ⟨store, stored⟩
      · simp [failed, cached]
      · simp [stored, cached]
  | none =>
      simp only [Option.getD_none]
      have path : session.writer.build.2.path = session.writer.path := rfl
      rcases set_recording session.kv session.writer.path
          session.writer.build.1 with
        ⟨err, store, failed⟩ | ⟨store, stored⟩
      · simp [path, failed]
      · simp [path, stored]

/-- The first value is built of what was accepted until then, and it is the
one that is kept. -/
structure KvSession.Follows {S : Type} (session : KvSession S) (path : Path)
    (calls : List KvWriterCall) : Prop where
  path : session.writer.path = path
  opened : .close ∉ calls →
    session.writer.value = none ∧ session.writer.pending = accepted calls
  closed : .close ∈ calls → ∃ value, session.writer.value = some value ∧
    value.Holds (accepted (beforeClose calls))

variable {S : Type}

theorem KvSession.follows_new (kv : S) (path : Path) (op : KvOpWrite) :
    (KvSession.new kv path op).Follows path [] where
  path := rfl
  opened _ := ⟨rfl, rfl⟩
  closed member := by cases member

theorem KvSession.Follows.holds_closing {session : KvSession S} {path : Path}
    {calls : List KvWriterCall} (follows : session.Follows path calls) :
    session.writer.closing.Holds (accepted (beforeClose calls)) := by
  by_cases closed : .close ∈ calls
  · obtain ⟨value, cached, holds⟩ := follows.closed closed
    rw [KvWriter.closing, cached]
    exact holds
  · obtain ⟨none, pending⟩ := follows.opened closed
    have whole := beforeClose_of_not_mem closed []
    rw [List.append_nil] at whole
    rw [KvWriter.closing, none, whole.trans (List.append_nil calls), ← pending]
    exact session.writer.holds_build

variable [Adapter S Value]

theorem KvSession.Follows.step {session : KvSession S} {path : Path}
    {calls : List KvWriterCall} (follows : session.Follows path calls)
    (call : KvWriterCall) :
    (session.step call).Follows path (calls ++ [call]) := by
  have behind (closed : .close ∈ calls) :
      beforeClose (calls ++ [call]) = beforeClose calls :=
    beforeClose_of_mem closed [call]
  cases call with
  | write bs =>
      constructor
      · exact follows.path
      · intro opened
        obtain ⟨none, pending⟩ := follows.opened (by simpa using opened)
        refine ⟨none, ?_⟩
        rw [accepted_concat, acceptedAfter, ← pending]
        exact session.writer.pending_write bs
      · intro closed
        have before : .close ∈ calls := by simpa using closed
        rw [behind before]
        exact follows.closed before
  | abort =>
      constructor
      · exact follows.path
      · intro opened
        obtain ⟨none, _⟩ := follows.opened (by simpa using opened)
        refine ⟨none, ?_⟩
        rw [accepted_concat]
        rfl
      · intro closed
        have before : .close ∈ calls := by simpa using closed
        rw [behind before]
        exact follows.closed before
  | close =>
      obtain ⟨_, path, cached⟩ := session.close_spec
      constructor
      · exact path.trans follows.path
      · intro opened
        exact absurd (by simp) opened
      · intro _
        refine ⟨session.writer.closing, cached, ?_⟩
        rw [beforeClose_close]
        exact follows.holds_closing

theorem KvSession.follows_run (kv : S) (path : Path) (op : KvOpWrite)
    (calls : List KvWriterCall) :
    ((KvSession.new kv path op).run calls).Follows path calls := by
  induction calls using List.reverseRecOn with
  | nil => exact follows_new kv path op
  | append_singleton calls call induction =>
      rw [KvSession.run, List.foldl_append]
      exact induction.step call

/-- A close that succeeds, after any calls, stores what was accepted since the
last abort exactly when these are the bytes that were accepted before the
first close. -/
theorem close_stores_iff (kv : S) (path : Path) (op : KvOpWrite)
    (calls : List KvWriterCall) {later : KvSession S}
    (closed : ((KvSession.new kv path op).run calls).close =
      (.ok (), later)) :
    later.Stores path (accepted calls) ↔
      accepted (beforeClose calls) = accepted calls := by
  have follows := KvSession.follows_run kv path op calls
  obtain ⟨stores, _⟩ := ((KvSession.new kv path op).run calls).close_spec
  have holds := follows.holds_closing
  rw [closed] at stores
  have stored := stores rfl
  rw [follows.path] at stored
  constructor
  · rintro ⟨value, last, bytes, _⟩
    rw [stored] at last
    cases last
    exact holds.1.symm.trans bytes
  · intro same
    rw [← same]
    exact ⟨_, stored, holds⟩

/-- An adapter whose first sets fail. -/
structure Unsteady where
  failures : Nat

instance : Adapter Unsteady Value where
  get kv _ := (.ok none, kv)
  set kv _ _ :=
    match kv.failures with
    | 0 => (.ok (), kv)
    | failures + 1 => (.error (.new .unexpected "set"), ⟨failures⟩)
  delete kv _ := (.ok (), kv)
  scan kv _ := (.ok [], kv)

/-- An aborted write, and then one whose first close fails. -/
theorem close_stores_iff_retried :
    ∃ later, ((KvSession.new (Unsteady.mk 1) ['f'] ⟨none, none, none⟩).run
        [.write (Buffer.fromBytes [7]), .abort,
          .write (Buffer.fromBytes [1]), .write (Buffer.fromBytes [2]),
          .close]).close = (.ok (), later) ∧
      later.Stores ['f'] [1, 2] := by
  have closed : ((KvSession.new (Unsteady.mk 1) ['f'] ⟨none, none, none⟩).run
      [.write (Buffer.fromBytes [7]), .abort,
        .write (Buffer.fromBytes [1]), .write (Buffer.fromBytes [2]),
        .close]).close = (.ok (), _) := rfl
  exact ⟨_, closed, (close_stores_iff _ _ _ _ closed).mpr rfl⟩

/-- What is written between a close that fails and one that succeeds is
lost. -/
theorem close_stores_fails :
    ¬ (∀ (kv : Unsteady) (calls : List KvWriterCall)
        (later : KvSession Unsteady),
        ((KvSession.new kv ['f'] ⟨none, none, none⟩).run calls).close =
          (.ok (), later) →
        later.Stores ['f'] (accepted calls)) := by
  intro claimed
  have closed : ((KvSession.new (Unsteady.mk 1) ['f'] ⟨none, none, none⟩).run
      [.write (Buffer.fromBytes [1]), .close,
        .write (Buffer.fromBytes [2])]).close = (.ok (), _) := rfl
  obtain ⟨value, stored, bytes, _⟩ := claimed _ _ _ closed
  cases stored
  exact absurd bytes (by decide)

end TypedKv

end OpenDal
