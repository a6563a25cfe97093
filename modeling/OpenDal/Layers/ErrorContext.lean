import OpenDal.Layers.CompleteWriter
import OpenDal.Layers.EmptyRequests
import OpenDal.Raw.Delete

/-!
# `ErrorContextLayer`

The layer says in each error which operation has failed, on which path, and how
much the handle had already done.  All functions of its wrapper have one shape:
an answer is counted and handed on, an error is annotated and handed on.

A session is any sequence of calls on one handle.  It is compared with the
same calls on the handle inside: the invariant is that the wrapper has counted
what the answers before add up to.
-/

namespace OpenDal

open Automaton

/-! ## Operations -/

/-- The names of the functions of `Access` and of its handles. -/
inductive Operation where
  | info
  | createDir
  | read
  | readerRead
  | write
  | writerWrite
  | writerClose
  | writerAbort
  | copy
  | rename
  | stat
  | delete
  | deleterDelete
  | deleterFlush
  | list
  | listerNext
  | presign
  | blockingCreateDir
  | blockingRead
  | blockingReaderRead
  | blockingWrite
  | blockingWriterWrite
  | blockingWriterClose
  | blockingCopy
  | blockingRename
  | blockingStat
  | blockingDelete
  | blockingDeleterDelete
  | blockingDeleterFlush
  | blockingList
  | blockingListerNext
deriving DecidableEq, Repr

def Operation.intoStatic : Operation → String
  | .info => "metadata"
  | .createDir => "create_dir"
  | .read => "read"
  | .readerRead => "Reader::read"
  | .write => "write"
  | .writerWrite => "Writer::write"
  | .writerClose => "Writer::close"
  | .writerAbort => "Writer::abort"
  | .copy => "copy"
  | .rename => "rename"
  | .stat => "stat"
  | .delete => "delete"
  | .list => "list"
  | .listerNext => "List::next"
  | .presign => "presign"
  | .blockingCreateDir => "blocking_create_dir"
  | .blockingRead => "blocking_read"
  | .blockingReaderRead => "BlockingReader::read"
  | .blockingWrite => "blocking_write"
  | .blockingWriterWrite => "BlockingWriter::write"
  | .blockingWriterClose => "BlockingWriter::close"
  | .blockingCopy => "blocking_copy"
  | .blockingRename => "blocking_rename"
  | .blockingStat => "blocking_stat"
  | .blockingDelete => "blocking_delete"
  | .blockingList => "blocking_list"
  | .blockingListerNext => "BlockingLister::next"
  | .deleterDelete => "Deleter::delete"
  | .deleterFlush => "Deleter::flush"
  | .blockingDeleterDelete => "BlockingDeleter::delete"
  | .blockingDeleterFlush => "BlockingDeleter::flush"

/-- An operation that the error already carries becomes part of the context. -/
def Error.withOperation (err : Error) (operation : Operation) : Error :=
  let pushed :=
    if err.operation = "" then
      err
    else
      err.withContext "called" err.operation
  { pushed with operation := operation.intoStatic }

/-! ## Handles -/

/-- The functions of readers, writers, listers and deleters. -/
inductive HandleCall where
  | read
  | write (bs : Buffer)
  | close
  | abort
  | next
  | delete (path : String) (args : OpDelete)
  | flush

abbrev HandleCall.Answer : HandleCall → Type
  | .read => Buffer
  | .write _ => Unit
  | .close => Unit
  | .abort => Unit
  | .next => Option Entry
  | .delete _ _ => Unit
  | .flush => Nat

/-- `oio::Read`, `oio::Write`, `oio::List`, `oio::Delete` and their blocking
variants. -/
class Handle (T : Type) where
  perform : T → (call : HandleCall) → Except Error call.Answer × T

structure ErrorContextWrapper (T : Type) where
  scheme : String
  path : String
  inner : T
  range : BytesRange
  processed : Nat

namespace ErrorContextWrapper

variable {T : Type}

def new (scheme path : String) (inner : T) : ErrorContextWrapper T :=
  { scheme
    path
    inner
    range := ⟨0, none⟩
    processed := 0 }

def withRange (self : ErrorContextWrapper T) (range : BytesRange) :
    ErrorContextWrapper T :=
  { self with range }

/-- The shape of all functions of the wrapper; `none` is a panic of
`annotate`. -/
def handOn {α : Type} (self : ErrorContextWrapper T) (amount : α → Nat)
    (annotate : Error → Option Error) :
    Except Error α × T → Option (Except Error α × ErrorContextWrapper T)
  | (.ok value, inner) =>
      some (.ok value,
        { self with inner, processed := self.processed + amount value })
  | (.error err, inner) =>
      (annotate err).map fun err => (.error err, { self with inner })

variable [Handle T] (self : ErrorContextWrapper T)

/-- `read` of the two kinds of reader, which differ in the operation. -/
def read (debug : Bool) (operation : Operation) :
    Option (Except Error Buffer × ErrorContextWrapper T) :=
  self.handOn Buffer.len
    (fun err => (self.range.display debug).map fun range =>
      ((((err.withOperation operation).withContext
        "service" self.scheme).withContext
        "path" self.path).withContext
        "range" (String.ofList range)).withContext
        "read" (toString self.processed))
    (Handle.perform self.inner .read)

def write (operation : Operation) (bs : Buffer) :
    Option (Except Error Unit × ErrorContextWrapper T) :=
  let size := bs.len
  self.handOn (fun _ => size)
    (fun err => some <|
      ((((err.withOperation operation).withContext
        "service" self.scheme).withContext
        "path" self.path).withContext
        "size" (toString size)).withContext
        "written" (toString self.processed))
    (Handle.perform self.inner (.write bs))

def close (operation : Operation) :
    Option (Except Error Unit × ErrorContextWrapper T) :=
  self.handOn (fun _ => 0)
    (fun err => some <|
      (((err.withOperation operation).withContext
        "service" self.scheme).withContext
        "path" self.path).withContext
        "written" (toString self.processed))
    (Handle.perform self.inner .close)

def abort : Option (Except Error Unit × ErrorContextWrapper T) :=
  self.handOn (fun _ => 0)
    (fun err => some <|
      (((err.withOperation .writerAbort).withContext
        "service" self.scheme).withContext
        "path" self.path).withContext
        "processed" (toString self.processed))
    (Handle.perform self.inner .abort)

def next (operation : Operation) :
    Option (Except Error (Option Entry) × ErrorContextWrapper T) :=
  self.handOn (fun entry => entry.isSome.toNat)
    (fun err => some <|
      (((err.withOperation operation).withContext
        "service" self.scheme).withContext
        "path" self.path).withContext
        "listed" (toString self.processed))
    (Handle.perform self.inner .next)

/-- The path is that of the call, since a deleter has none. -/
def delete (path : String) (args : OpDelete) :
    Option (Except Error Unit × ErrorContextWrapper T) :=
  self.handOn (fun _ => 0)
    (fun err => some <|
      (((err.withOperation .deleterDelete).withContext
        "service" self.scheme).withContext
        "path" path).withContext
        "deleted" (toString self.processed))
    (Handle.perform self.inner (.delete path args))

def flush : Option (Except Error Nat × ErrorContextWrapper T) :=
  self.handOn id
    (fun err => some <|
      ((err.withOperation .deleterFlush).withContext
        "service" self.scheme).withContext
        "deleted" (toString self.processed))
    (Handle.perform self.inner .flush)

end ErrorContextWrapper

/-- A blocking handle or one with futures. -/
inductive Flavor where
  | futures
  | blocking
deriving DecidableEq, Repr

/-- The operation that an error of this call carries.  The two functions of a
blocking deleter use the names of those of the other one, and a blocking writer
has no `abort`. -/
def HandleCall.operation : Flavor → HandleCall → Operation
  | .futures, .read => .readerRead
  | .blocking, .read => .blockingReaderRead
  | .futures, .write _ => .writerWrite
  | .blocking, .write _ => .blockingWriterWrite
  | .futures, .close => .writerClose
  | .blocking, .close => .blockingWriterClose
  | _, .abort => .writerAbort
  | .futures, .next => .listerNext
  | .blocking, .next => .blockingListerNext
  | _, .delete _ _ => .deleterDelete
  | _, .flush => .deleterFlush

/-- One call through the wrapper. -/
def ErrorContextWrapper.perform {T : Type} [Handle T] (debug : Bool)
    (flavor : Flavor) (self : ErrorContextWrapper T) (call : HandleCall) :
    Option (Except Error call.Answer × ErrorContextWrapper T) :=
  match call with
  | .read => self.read debug (HandleCall.operation flavor .read)
  | .write bs => self.write (HandleCall.operation flavor (.write bs)) bs
  | .close => self.close (HandleCall.operation flavor .close)
  | .abort => self.abort
  | .next => self.next (HandleCall.operation flavor .next)
  | .delete path args => self.delete path args
  | .flush => self.flush

/-! ## `ErrorContextAccessor` -/

/-- The functions of `Access`. -/
inductive AccessCall where
  | createDir (path : String)
  | read (path : String) (range : BytesRange)
  | write (path : String)
  | copy (source target : String)
  | rename (source target : String)
  | stat (path : String)
  | delete
  | list (path : String)
  | presign (path : String)

/-- There is no blocking `presign`. -/
def AccessCall.operation : Flavor → AccessCall → Operation
  | .futures, .createDir _ => .createDir
  | .blocking, .createDir _ => .blockingCreateDir
  | .futures, .read _ _ => .read
  | .blocking, .read _ _ => .blockingRead
  | .futures, .write _ => .write
  | .blocking, .write _ => .blockingWrite
  | .futures, .copy _ _ => .copy
  | .blocking, .copy _ _ => .blockingCopy
  | .futures, .rename _ _ => .rename
  | .blocking, .rename _ _ => .blockingRename
  | .futures, .stat _ => .stat
  | .blocking, .stat _ => .blockingStat
  | .futures, .delete => .delete
  | .blocking, .delete => .blockingDelete
  | .futures, .list _ => .list
  | .blocking, .list _ => .blockingList
  | _, .presign _ => .presign

/-- What the accessor makes of an error of the service; `none` is a panic. -/
def ErrorContextAccessor.annotate (debug : Bool) (scheme : String)
    (flavor : Flavor) (call : AccessCall) (err : Error) : Option Error :=
  let named := (err.withOperation (call.operation flavor)).withContext
    "service" scheme
  match call with
  | .createDir path => some (named.withContext "path" path)
  | .read path range =>
      (range.display debug).map fun range =>
        (named.withContext "path" path).withContext
          "range" (String.ofList range)
  | .write path => some (named.withContext "path" path)
  | .copy source target =>
      some ((named.withContext "from" source).withContext "to" target)
  | .rename source target =>
      some ((named.withContext "from" source).withContext "to" target)
  | .stat path => some (named.withContext "path" path)
  | .delete => some named
  | .list path => some (named.withContext "path" path)
  | .presign path => some (named.withContext "path" path)

/-- The functions that return a handle; a reader is given its range. -/
def ErrorContextAccessor.opened {T : Type} (debug : Bool) (scheme : String)
    (flavor : Flavor) (call : AccessCall) :
    Except Error T → Option (Except Error (ErrorContextWrapper T))
  | .ok inner =>
      some <| .ok <|
        match call with
        | .read path range =>
            (ErrorContextWrapper.new scheme path inner).withRange range
        | .write path => .new scheme path inner
        | .list path => .new scheme path inner
        | _ => .new scheme "" inner
  | .error err => (annotate debug scheme flavor call err).map .error

/-! ## Sessions -/

/-- A call that has come to its end. -/
structure HandleAnswer where
  call : HandleCall
  result : Except Error call.Answer

structure HandleSession (T : Type) where
  handle : T
  answers : List HandleAnswer

def HandleSession.step {T : Type}
    (perform : T → (call : HandleCall) →
      Option (Except Error call.Answer × T))
    (self : HandleSession T) (call : HandleCall) : Option (HandleSession T) :=
  (perform self.handle call).map fun (result, handle) =>
    { handle
      answers := self.answers ++ [⟨call, result⟩] }

/-- The calls on a handle without the layer. -/
def HandleSession.plainStep {T : Type} [Handle T] :
    HandleSession T → HandleCall → Option (HandleSession T) :=
  step fun handle call => some (Handle.perform handle call)

namespace HandleAnswer

/-- The bytes, entries or deletions that an answer stands for. -/
def amount : HandleAnswer → Nat
  | ⟨.read, .ok buf⟩ => buf.len
  | ⟨.write bs, .ok ()⟩ => bs.len
  | ⟨.next, .ok entry⟩ => entry.isSome.toNat
  | ⟨.flush, .ok deleted⟩ => deleted
  | _ => 0

def total (answers : List HandleAnswer) : Nat :=
  (answers.map amount).sum

end HandleAnswer

/-- What the layer adds about the call. -/
def HandleCall.details (path range done : String) :
    HandleCall → List (String × String)
  | .read => [("path", path), ("range", range), ("read", done)]
  | .write bs =>
      [("path", path), ("size", toString bs.len), ("written", done)]
  | .close => [("path", path), ("written", done)]
  | .abort => [("path", path), ("processed", done)]
  | .next => [("path", path), ("listed", done)]
  | .delete path _ => [("path", path), ("deleted", done)]
  | .flush => [("deleted", done)]

/-- The error with the operation and the context; nothing else is changed, and
what was in its context comes first. -/
def Error.annotated (err : Error) (operation : Operation)
    (details : List (String × String)) : Error :=
  { err with
    operation := operation.intoStatic
    context := err.context ++
      (if err.operation = "" then [] else [("called", err.operation)]) ++
      details }

theorem Error.annotated_eq (err : Error) (operation : Operation)
    (details : List (String × String)) :
    err.annotated operation details =
      details.foldl (fun err (key, value) => err.withContext key value)
        (err.withOperation operation) := by
  have folded : ∀ (details : List (String × String)) (err : Error),
      details.foldl (fun err (key, value) => err.withContext key value) err =
        { err with context := err.context ++ details } := by
    intro details
    induction details with
    | nil => simp
    | cons detail details induction =>
        intro err
        rw [List.foldl_cons, induction]
        simp [withContext]
  rw [folded, withOperation]
  split <;> simp_all [annotated, withContext]

/-- What the layer adds about a call of the service. -/
def AccessCall.details (range : String) : AccessCall → List (String × String)
  | .createDir path => [("path", path)]
  | .read path _ => [("path", path), ("range", range)]
  | .write path => [("path", path)]
  | .copy source target => [("from", source), ("to", target)]
  | .rename source target => [("from", source), ("to", target)]
  | .stat path => [("path", path)]
  | .delete => []
  | .list path => [("path", path)]
  | .presign path => [("path", path)]

/-- The range of a read as it is displayed. -/
def AccessCall.shown (debug : Bool) : AccessCall → Option String
  | .read _ range => (range.display debug).map String.ofList
  | _ => some ""

/-- An error of the service keeps its kind, message and status, and panics
where the range cannot be displayed. -/
theorem ErrorContextAccessor.annotate_eq (debug : Bool) (scheme : String)
    (flavor : Flavor) (call : AccessCall) (err : Error) :
    annotate debug scheme flavor call err =
      (call.shown debug).map fun range =>
        err.annotated (call.operation flavor)
          (("service", scheme) :: call.details range) := by
  cases call with
  | read path range =>
      simp only [annotate, AccessCall.shown, AccessCall.details,
        Option.map_map, Error.annotated_eq, Function.comp_def]
      rfl
  | _ =>
      simp only [annotate, AccessCall.shown, AccessCall.details,
        Option.map_some, Error.annotated_eq]
      rfl

/-- The answer of a handle as the wrapper hands it on, after `done` bytes,
entries or deletions. -/
def HandleAnswer.reported {T : Type} (debug : Bool)
    (wrapper : ErrorContextWrapper T) (flavor : Flavor) (done : Nat) :
    HandleAnswer → HandleAnswer
  | ⟨call, .ok value⟩ => ⟨call, .ok value⟩
  | ⟨call, .error err⟩ =>
      ⟨call, .error <| err.annotated (call.operation flavor) <|
        ("service", wrapper.scheme) :: call.details wrapper.path
          (String.ofList ((wrapper.range.display debug).getD []))
            (toString done)⟩

/-- What the wrapper hands on of the answers of the handle inside. -/
def HandleAnswer.reports {T : Type} (debug : Bool)
    (wrapper : ErrorContextWrapper T) (flavor : Flavor)
    (answers : List HandleAnswer) : List HandleAnswer :=
  answers.mapIdx fun i answer =>
    answer.reported debug wrapper flavor (total (answers.take i))

namespace HandleAnswer

@[simp] theorem total_concat (answers : List HandleAnswer)
    (answer : HandleAnswer) :
    total (answers ++ [answer]) = total answers + answer.amount := by
  simp [total]

theorem reports_concat {T : Type} (debug : Bool)
    (wrapper : ErrorContextWrapper T) (flavor : Flavor)
    (answers : List HandleAnswer) (answer : HandleAnswer) :
    reports debug wrapper flavor (answers ++ [answer]) =
      reports debug wrapper flavor answers ++
        [answer.reported debug wrapper flavor (total answers)] := by
  have before : (answers.mapIdx fun i earlier => earlier.reported debug
        wrapper flavor (total ((answers ++ [answer]).take i))) =
      reports debug wrapper flavor answers := by
    apply List.mapIdx_eq_mapIdx_iff.mpr
    intro i within
    rw [List.take_append_of_le_length (Nat.le_of_lt within)]
  rw [reports, List.mapIdx_concat, before, List.take_left]

/-- The range of a failed read cannot be displayed. -/
def Unshown {T : Type} (debug : Bool) (wrapper : ErrorContextWrapper T) :
    HandleAnswer → Prop
  | ⟨.read, .error _⟩ => wrapper.range.display debug = none
  | _ => False

end HandleAnswer

/-- One call through the wrapper is the call inside, with the answer handed on
and counted; it panics at a range that cannot be displayed. -/
theorem ErrorContextWrapper.perform_spec {T : Type} [Handle T]
    (debug : Bool) (flavor : Flavor) (self : ErrorContextWrapper T)
    (call : HandleCall)
    {result : Except Error call.Answer} {inner : T}
    (answered : Handle.perform self.inner call = (result, inner)) :
    (HandleAnswer.Unshown debug self ⟨call, result⟩ ∧
      self.perform debug flavor call = none) ∨
    (¬ HandleAnswer.Unshown debug self ⟨call, result⟩ ∧
      ∃ reported, self.perform debug flavor call = some (reported,
          { self with
            inner
            processed := self.processed +
              HandleAnswer.amount ⟨call, result⟩ }) ∧
        (⟨call, reported⟩ : HandleAnswer) =
          HandleAnswer.reported debug self flavor self.processed
            ⟨call, result⟩) := by
  cases result with
  | ok value =>
      refine .inr ⟨?_, .ok value, ?_, by cases call <;> rfl⟩
      · cases call <;> exact id
      · cases call <;> simp only [perform, read, write, close, abort, next,
          delete, flush, handOn, answered, HandleAnswer.amount, Nat.add_zero,
          id]
  | error err =>
      have annotated := err.annotated_eq (call.operation flavor) <|
        ("service", self.scheme) :: call.details self.path
          (String.ofList ((self.range.display debug).getD []))
          (toString self.processed)
      by_cases unshown : HandleAnswer.Unshown debug self ⟨call, .error err⟩
      · refine .inl ⟨unshown, ?_⟩
        cases call with
        | read =>
            have hidden : self.range.display debug = none := unshown
            simp [perform, read, handOn, answered, hidden]
        | _ => exact unshown.elim
      · refine .inr ⟨unshown, _, ?_, rfl⟩
        rw [annotated]
        cases call with
        | read =>
            obtain ⟨range, shown⟩ := Option.ne_none_iff_exists'.mp unshown
            simp [perform, read, handOn, answered, shown,
              HandleCall.details, HandleAnswer.amount]
        | _ => simp [perform, write, close, abort, next, delete, flush,
            handOn, answered, HandleCall.details, HandleCall.operation,
            HandleAnswer.amount]

namespace ErrorContextWrapper

variable {T : Type} [Handle T] {debug : Bool}
  {wrapper : ErrorContextWrapper T} {flavor : Flavor} {plain : HandleSession T}
  {session : HandleSession (ErrorContextWrapper T)}

/-- The session through the wrapper after the same calls as the plain one. -/
structure Follows (debug : Bool) (wrapper : ErrorContextWrapper T)
    (flavor : Flavor) (plain : HandleSession T)
    (session : HandleSession (ErrorContextWrapper T)) : Prop where
  shown : ∀ answer ∈ plain.answers, ¬ HandleAnswer.Unshown debug wrapper answer
  handle : session.handle =
    { wrapper with
      inner := plain.handle
      processed := HandleAnswer.total plain.answers }
  answers : session.answers =
    HandleAnswer.reports debug wrapper flavor plain.answers

theorem Follows.step (follows : wrapper.Follows debug flavor plain session)
    (call : HandleCall) :
    ∃ answer next, plain.plainStep call = some next ∧
      next.answers = plain.answers ++ [answer] ∧
      ((HandleAnswer.Unshown debug wrapper answer ∧
          session.step (perform debug flavor) call = none) ∨
        ∃ later, session.step (perform debug flavor) call = some later ∧
          wrapper.Follows debug flavor next later) := by
  obtain ⟨shown, held, reported⟩ := follows
  rcases answered : Handle.perform plain.handle call with ⟨result, inner⟩
  refine ⟨⟨call, result⟩, ⟨inner, plain.answers ++ [⟨call, result⟩]⟩,
    by simp [HandleSession.plainStep, HandleSession.step, answered], rfl, ?_⟩
  have performed : Handle.perform session.handle.inner call =
      (result, inner) := by
    rw [held]
    exact answered
  have same : ∀ answer, HandleAnswer.Unshown debug session.handle answer ↔
      HandleAnswer.Unshown debug wrapper answer := by
    intro answer
    rw [held]
    rfl
  rcases perform_spec debug flavor session.handle call performed with
    ⟨unshown, panicked⟩ | ⟨displayed, answer, done, handed⟩
  · refine .inl ⟨(same _).mp unshown, ?_⟩
    rw [HandleSession.step, panicked, Option.map_none]
  · refine .inr ⟨_, by rw [HandleSession.step, done, Option.map_some], ?_⟩
    constructor
    · intro other member
      rcases List.mem_append.mp member with earlier | last
      · exact shown other earlier
      · rw [List.mem_singleton.mp last, ← same]
        exact displayed
    · rw [held, HandleAnswer.total_concat]
    · show session.answers ++ [⟨call, answer⟩] = _
      rw [HandleAnswer.reports_concat, reported, handed, held]
      rfl

/-- What a session through the wrapper is, given that of the handle inside. -/
def Mirrors (debug : Bool) (wrapper : ErrorContextWrapper T)
    (flavor : Flavor) (plain : HandleSession T) :
    Option (HandleSession (ErrorContextWrapper T)) → Prop
  | none => ∃ answer ∈ plain.answers, HandleAnswer.Unshown debug wrapper answer
  | some session => wrapper.Follows debug flavor plain session

private theorem plain_grows {finish : HandleSession T}
    {calls : List HandleCall}
    (ran : run HandleSession.plainStep plain calls = some finish) :
    plain.answers ⊆ finish.answers := by
  have grown : ∀ {before after : HandleSession T} {call : HandleCall},
      plain.answers ⊆ before.answers → before.plainStep call = some after →
      plain.answers ⊆ after.answers := by
    intro before after call included stepped
    rw [HandleSession.plainStep, HandleSession.step, Option.map_some] at stepped
    cases stepped
    exact List.subset_append_of_subset_left _ included
  exact run_invariant_of_forall grown (List.Subset.refl _) ran

private theorem Follows.run (follows : wrapper.Follows debug flavor plain session)
    (calls : List HandleCall) :
    ∃ finish, run HandleSession.plainStep plain calls = some finish ∧
      wrapper.Mirrors debug flavor finish
        (run (HandleSession.step (perform debug flavor)) session calls) := by
  induction calls generalizing plain session with
  | nil => exact ⟨plain, run_nil _ _, by rw [run_nil]; exact follows⟩
  | cons call calls induction =>
      obtain ⟨answer, next, stepped, grown, outcome⟩ := follows.step call
      rcases outcome with ⟨unshown, panicked⟩ | ⟨later, reported, followed⟩
      · obtain ⟨finish, ran⟩ : ∃ finish,
            Automaton.run HandleSession.plainStep next calls = some finish := by
          have progress : ∀ {state : HandleSession T} (call : HandleCall),
              True → ∃ next, state.plainStep call = some next ∧ True :=
            fun _ _ => ⟨_, rfl, trivial⟩
          obtain ⟨finish, ran, _⟩ := run_total progress trivial calls
          exact ⟨finish, ran⟩
        refine ⟨finish, run_cons_eq_some_iff.mpr ⟨next, stepped, ran⟩, ?_⟩
        have none : Automaton.run (HandleSession.step (perform debug flavor)) session
            (call :: calls) = none := by
          simp [Automaton.run, panicked]
        rw [none]
        have member : answer ∈ next.answers := by simp [grown]
        exact ⟨answer, plain_grows ran member, unshown⟩
      · obtain ⟨finish, ran, mirrors⟩ := induction followed
        refine ⟨finish, run_cons_eq_some_iff.mpr ⟨next, stepped, ran⟩, ?_⟩
        have rest : Automaton.run (HandleSession.step (perform debug flavor)) session
            (call :: calls) =
              Automaton.run (HandleSession.step (perform debug flavor)) later
                calls := by
          simp [Automaton.run, reported]
        rw [rest]
        exact mirrors

omit [Handle T] in
theorem follows_start (debug : Bool) (flavor : Flavor)
    (untouched : wrapper.processed = 0) :
    wrapper.Follows debug flavor ⟨wrapper.inner, []⟩ ⟨wrapper, []⟩ where
  shown := by simp
  handle := by
    obtain ⟨scheme, path, inner, range, processed⟩ := wrapper
    cases untouched
    rfl
  answers := rfl

/-- The layer is transparent.  In every sequence of calls the handle inside is
called as it would be without the layer, and its answers are handed on: values
as they are, and errors with the same kind, message and status, with the
operation, and with a context that says what has been delivered by the answers
before.  The one exception is a read that fails on a range that cannot be
displayed, which panics. -/
theorem session_mirrors (debug : Bool) (scheme path : String)
    (range : BytesRange) (inner : T) (flavor : Flavor)
    (calls : List HandleCall) :
    let wrapper := (new scheme path inner).withRange range
    ∃ plain, run HandleSession.plainStep ⟨inner, []⟩ calls = some plain ∧
      wrapper.Mirrors debug flavor plain
        (run (HandleSession.step (perform debug flavor)) ⟨wrapper, []⟩ calls) := by
  intro wrapper
  exact (follows_start debug flavor (rfl : wrapper.processed = 0)).run calls

/-- What the layer opens follows what the service opens. -/
theorem opened_mirrors (scheme : String) (flavor : Flavor) (call : AccessCall)
    {inner : T} {wrapper : ErrorContextWrapper T}
    (opened : ErrorContextAccessor.opened debug scheme flavor call (.ok inner) =
      some (.ok wrapper)) (calls : List HandleCall) :
    ∃ plain, run HandleSession.plainStep ⟨inner, []⟩ calls = some plain ∧
      wrapper.Mirrors debug flavor plain
        (run (HandleSession.step (perform debug flavor)) ⟨wrapper, []⟩
          calls) := by
  have same : wrapper.inner = inner ∧ wrapper.processed = 0 := by
    cases call <;>
      · cases opened
        exact ⟨rfl, rfl⟩
  rw [← same.1]
  exact (follows_start debug flavor same.2).run calls

end ErrorContextWrapper

end OpenDal
