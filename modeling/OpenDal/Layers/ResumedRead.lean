import OpenDal.Layers.Retry

/-!
# Resumed reads

A consumer calls the retrying reader again after every error.  At each point
between two calls the range in the arguments is exactly what has not been
delivered: it is advanced together with the delivery of a buffer, and a reader
that is opened again starts there.
-/

namespace OpenDal

/-- Assumptions about a service that holds `content` under `path`: what it
opens for a range returns the bytes of that range, in any split into buffers,
and then ends.  Opening and reading may fail at any point. -/
structure FaultyReads (A : Type) {R : Type} [Read R] [ReadAccess A R]
    (path : String) (content : Bytes) where
  /-- `reads r bytes`: the reader is going to return `bytes`. -/
  reads : R → Bytes → Prop
  opened : ∀ {inner later : A} {args : OpRead} {r : R},
    args.range.Within content →
    ReadAccess.read inner path args = (.ok r, later) →
    reads r (args.range.select content)
  more : ∀ {r later : R} {buf : Buffer} {bytes : Bytes}, reads r bytes →
    Read.read r = (.ok buf, later) → buf.bytes ≠ [] →
    ∃ rest, bytes = buf.bytes ++ rest ∧ reads later rest
  last : ∀ {r later : R} {buf : Buffer} {bytes : Bytes}, reads r bytes →
    Read.read r = (.ok buf, later) → buf.bytes = [] →
    bytes = [] ∧ reads later []

variable {A R : Type} [Read R] [ReadAccess A R] {path : String}
  {content : Bytes} (service : FaultyReads A path content)

/-! ## The reader -/

namespace RetryReader

/-- `rest` is what the reader has still to deliver. -/
structure Owes (rest : Bytes) (self : RetryReader A R) : Prop where
  samePath : self.path = path
  within : self.args.range.Within content
  selected : self.args.range.select content = rest
  reads : ∀ r, self.reader = some r → service.reads r rest

/-- A buffer has been delivered, and only the end is empty. -/
def Delivered (rest : Bytes) (buf : Buffer) (self : RetryReader A R) : Prop :=
  (buf.bytes = [] → rest = []) ∧
    ∃ later, rest = buf.bytes ++ later ∧ Owes service later self

variable {service}

theorem readFrom_attempts {rest : Bytes} {self : RetryReader A R} {r : R}
    (samePath : self.path = path)
    (within : self.args.range.Within content)
    (selected : self.args.range.select content = rest)
    (reads : service.reads r rest) :
    Attempts (self.readFrom r) (Owes service rest)
      (Delivered service rest) := by
  rcases answered : Read.read r with ⟨_ | buf, later⟩
  · rename_i err
    refine .inl ⟨err, { self with reader := none }, ?_, ?_⟩
    · simp [readFrom, answered]
    · exact ⟨samePath, within, selected, by simp⟩
  · obtain ⟨tail, split, readsTail⟩ : ∃ tail, rest = buf.bytes ++ tail ∧
        service.reads later tail := by
      by_cases empty : buf.bytes = []
      · obtain ⟨none, readsNone⟩ := service.last reads answered empty
        exact ⟨[], by simp [none, empty], readsNone⟩
      · exact service.more reads answered empty
    obtain ⟨range, advanced, withinRange, selectedRange⟩ :=
      BytesRange.advance_spec within (selected.trans split)
    rw [Buffer.length_bytes] at advanced
    refine .inr ⟨buf, { self with
      reader := some later, args := self.args.withRange range }, ?_, ?_, ?_⟩
    · simp [readFrom, answered, advanced]
    · exact fun empty => (service.last reads answered empty).1
    · refine ⟨tail, split, samePath, withinRange, selectedRange, ?_⟩
      intro reader same
      cases same
      exact readsTail

theorem read_attempts {rest : Bytes} {self : RetryReader A R}
    (owes : Owes service rest self) :
    Attempts self.read (Owes service rest) (Delivered service rest) := by
  obtain ⟨samePath, within, selected, reads⟩ := owes
  cases held : self.reader with
  | none =>
      rcases answered : ReadAccess.read self.inner self.path self.args with
        ⟨_ | r, inner⟩
      · rename_i err
        refine .inl ⟨err, { self with inner }, ?_, ?_⟩
        · simp [read, held, answered]
        · exact ⟨samePath, within, selected, reads⟩
      · have opens : service.reads r rest := by
          rw [samePath] at answered
          exact selected ▸ service.opened within answered
        have same : self.read = readFrom { self with inner } r := by
          simp [read, held, answered]
        rw [same]
        exact readFrom_attempts samePath within selected opens
  | some r =>
      have same : self.read = self.readFrom r := by simp [read, held]
      rw [same]
      exact readFrom_attempts samePath within selected (reads r held)

end RetryReader

/-! ## The consumer -/

structure ResumedRead (A R B : Type) where
  wrapper : RetryWrapper (RetryReader A R) B
  /-- The bytes of all buffers that have been returned. -/
  collected : Bytes
  /-- The number of calls that returned an error. -/
  failures : Nat
  /-- An empty buffer has been returned. -/
  finished : Bool

namespace ResumedRead

variable {B : Type} [Backoff B]

def new (wrapper : RetryWrapper (RetryReader A R) B) : ResumedRead A R B :=
  { wrapper
    collected := []
    failures := 0
    finished := false }

/-- One more call of `read`; `none` is a panic. -/
def step (self : ResumedRead A R B) (_ : Unit) : Option (ResumedRead A R B) :=
  self.wrapper.read.map fun (result, wrapper) =>
    match result with
    | .error _ => { self with wrapper, failures := self.failures + 1 }
    | .ok buf =>
        { self with
          wrapper
          collected := self.collected ++ buf.bytes
          finished := self.finished || buf.isEmpty }

/-- What has been collected and what the reader owes make up `whole`. -/
structure Resumes (whole : Bytes) (self : ResumedRead A R B) : Prop where
  owes : ∃ reader rest, self.wrapper.inner = some reader ∧
    reader.Owes service rest ∧ whole = self.collected ++ rest
  ended : self.finished = true → self.collected = whole

variable {service} {whole : Bytes} {self next : ResumedRead A R B}
  {call : Unit}

/-- One call does not panic, delivers the next bytes or fails, and a call that
returns neither bytes nor an error is the end. -/
theorem step_resumes [LawfulBackoff B] (call : Unit)
    (resumes : Resumes service whole self) :
    ∃ next, self.step call = some next ∧ Resumes service whole next ∧
      (next.finished = true ∨ self.failures + self.collected.length <
        next.failures + next.collected.length) := by
  obtain ⟨⟨reader, rest, held, owes, split⟩, ended⟩ := resumes
  rcases RetryWrapper.retryWith_attempts RetryReader.read_attempts
    ⟨reader, held, owes⟩ with
    ⟨err, wrapper, failed, later, heldLater, owesLater⟩ |
    ⟨buf, wrapper, succeeded, later, heldLater, atEnd, tail, delivered,
      owesTail⟩
  · refine ⟨{ self with wrapper, failures := self.failures + 1 },
      ?_, ?_, .inr ?_⟩
    · simp [step, RetryWrapper.read, failed]
    · exact ⟨⟨later, rest, heldLater, owesLater, split⟩, ended⟩
    · simp
  · refine ⟨{ self with
      wrapper
      collected := self.collected ++ buf.bytes
      finished := self.finished || buf.isEmpty }, ?_, ⟨?_, ?_⟩, ?_⟩
    · simp [step, RetryWrapper.read, succeeded]
    · exact ⟨later, tail, heldLater, owesTail,
        by rw [split, delivered, List.append_assoc]⟩
    · intro finished
      have nothing : rest = [] := by
        rcases (Bool.or_eq_true _ _).mp finished with before | empty
        · rw [split] at ended
          simpa using ended before
        · exact atEnd ((Buffer.isEmpty_iff buf).mp empty)
      have nothingNew : buf.bytes = [] := by
        rw [nothing] at delivered
        exact (List.append_eq_nil_iff.mp delivered.symm).1
      simp [split, nothing, nothingNew]
    · by_cases empty : buf.bytes = []
      · simp [(Buffer.isEmpty_iff buf).mpr empty]
      · apply Or.inr
        have positive := List.length_pos_iff.mpr empty
        simp only [List.length_append]
        omega

theorem resumes_step [LawfulBackoff B]
    (resumes : Resumes service whole self)
    (stepped : self.step call = some next) :
    Resumes service whole next ∧
      (next.finished = true ∨ self.failures + self.collected.length <
        next.failures + next.collected.length) := by
  obtain ⟨other, steppedOther, resumesOther, grows⟩ :=
    step_resumes call resumes
  cases stepped.symm.trans steppedOther
  exact ⟨resumesOther, grows⟩

private theorem finished_step (finished : self.finished = true)
    (stepped : self.step call = some next) : next.finished = true := by
  obtain ⟨⟨result, wrapper⟩, _, same⟩ := Option.map_eq_some_iff.mp stepped
  cases result with
  | error err =>
      rw [← same]
      exact finished
  | ok buf =>
      rw [← same]
      simp [finished]

theorem retryAccessor_read_resumes [LawfulBackoff B] {inner later : A}
    {builder : B} {args : OpRead} {wrapper : RetryWrapper (RetryReader A R) B}
    (service : FaultyReads A path content)
    (within : args.range.Within content)
    (opened : RetryAccessor.read inner builder path args =
      some (.ok wrapper, later)) :
    Resumes service (args.range.select content) (new wrapper) := by
  obtain ⟨⟨result, inner'⟩, retried, same⟩ := Option.map_eq_some_iff.mp opened
  have attempts : ∀ {inner : A}, True →
      Attempts (some (ReadAccess.read inner path args)) (fun _ => True)
        (fun r _ => service.reads r (args.range.select content)) := by
    intro inner _
    rcases answered : ReadAccess.read inner path args with ⟨_ | r, later⟩
    · exact .inl ⟨_, _, rfl, trivial⟩
    · exact .inr ⟨_, _, rfl, service.opened within answered⟩
  rcases retry_attempts attempts builder trivial with
    ⟨err, last, failed, _⟩ | ⟨r, last, succeeded, reads⟩
  · cases retried.symm.trans failed
    simp at same
  · cases retried.symm.trans succeeded
    simp only [Prod.mk.injEq, Except.ok.injEq] at same
    rw [← same.1]
    refine ⟨⟨_, _, rfl, ⟨rfl, within, rfl, ?_⟩, rfl⟩, by simp [new]⟩
    intro reader held
    cases held
    exact reads

/-- The retrying reader resumes exactly where it failed.  Whatever fails, each
call returns; what it has delivered is the beginning of the range, the empty
buffer comes when all of it has been delivered, and it does come as soon as
there are more calls than failures and bytes. -/
theorem resumes_where_failed [LawfulBackoff B] {inner later : A}
    {builder : B} {args : OpRead} {wrapper : RetryWrapper (RetryReader A R) B}
    (service : FaultyReads A path content)
    (within : args.range.Within content)
    (opened : RetryAccessor.read inner builder path args =
      some (.ok wrapper, later))
    (calls : List Unit) :
    ∃ finish, Automaton.run step (new wrapper) calls = some finish ∧
      finish.collected <+: args.range.select content ∧
      (finish.finished = true →
        finish.collected = args.range.select content) ∧
      (finish.failures + (args.range.select content).length < calls.length →
        finish.finished = true) := by
  have initially := retryAccessor_read_resumes service within opened
  obtain ⟨finish, ran, resumes⟩ := Automaton.run_total
    (fun call before => by
      obtain ⟨next, stepped, after, _⟩ := step_resumes call before
      exact ⟨next, stepped, after⟩) initially calls
  obtain ⟨⟨_, rest, _, _, split⟩, ended⟩ := resumes
  refine ⟨finish, ran, ⟨rest, split.symm⟩, ended, ?_⟩
  intro enough
  rcases Automaton.run_done_or_length_le
    (fun self : ResumedRead A R B => self.failures + self.collected.length)
    (fun before stepped => (resumes_step before stepped).1)
    (fun before stepped => (resumes_step before stepped).2)
    finished_step initially ran with finished | grown
  · exact finished
  · have bounded : finish.collected.length ≤
        (args.range.select content).length := by
      rw [split, List.length_append]
      exact Nat.le_add_right _ _
    simp only [new, List.length_nil] at grown
    omega

end ResumedRead

/-! ## A service that fails -/

/-- Each plan is about opening one reader: it fails, or the reader fails after
a number of buffers.  After the last plan nothing fails. -/
structure FlakyService (content : Bytes) where
  plans : List (Option Nat)

namespace FlakyService

variable {content : Bytes}

def failure : Error :=
  (Error.new .unexpected "timeout").setTemporary

def failAfter (count : Nat) (bytes : Bytes) : ScriptedReader :=
  ⟨(ScriptedReader.bytewise bytes).replies.take count ++ [.error failure]⟩

instance : ReadAccess (FlakyService content) ScriptedReader where
  read := fun self _ args =>
    match self.plans with
    | [] => (.ok (.bytewise (args.range.select content)), self)
    | none :: plans => (.error failure, ⟨plans⟩)
    | some count :: plans =>
        (.ok (failAfter count (args.range.select content)), ⟨plans⟩)

/-- Up to the first failure these replies return `bytes`. -/
def Returns : List (Except Error Buffer) → Bytes → Prop
  | [], bytes => bytes = []
  | .error _ :: _, _ => True
  | .ok buf :: replies, bytes =>
      buf.bytes ≠ [] ∧ ∃ rest, bytes = buf.bytes ++ rest ∧ Returns replies rest

private theorem returns_bytewise (bytes : Bytes) :
    Returns (ScriptedReader.bytewise bytes).replies bytes := by
  induction bytes with
  | nil => rfl
  | cons byte bytes induction => exact ⟨by simp, bytes, by simp, induction⟩

private theorem returns_failAfter (count : Nat) (bytes : Bytes) :
    Returns (failAfter count bytes).replies bytes := by
  induction count generalizing bytes with
  | zero => trivial
  | succ count induction =>
      cases bytes with
      | nil => trivial
      | cons byte bytes => exact ⟨by simp, bytes, by simp, induction bytes⟩

def faultyReads (path : String) (content : Bytes) :
    FaultyReads (FlakyService content) path content where
  reads := fun r bytes => Returns r.replies bytes
  opened := by
    intro inner later args r _ answered
    obtain ⟨plans⟩ := inner
    match plans with
    | [] =>
        cases answered
        exact returns_bytewise _
    | none :: plans => cases answered
    | some count :: plans =>
        cases answered
        exact returns_failAfter count _
  more := by
    intro r later buf bytes returns answered nonempty
    obtain ⟨replies⟩ := r
    match replies with
    | [] =>
        cases answered
        exact absurd rfl nonempty
    | .error _ :: _ => cases answered
    | .ok _ :: _ =>
        cases answered
        exact returns.2
  last := by
    intro r later buf bytes returns answered empty
    obtain ⟨replies⟩ := r
    match replies with
    | [] =>
        cases answered
        exact ⟨returns, rfl⟩
    | .error _ :: _ => cases answered
    | .ok _ :: _ =>
        cases answered
        exact absurd empty returns.1

end FlakyService

/-- The middle of four bytes over a reader that fails after its first byte and
cannot be opened again at once; with one retry the second call fails. -/
theorem ResumedRead.resumes_where_failed_flaky :
    ∃ (wrapper : RetryWrapper (RetryReader (FlakyService [1, 2, 3, 4])
        ScriptedReader) FixedDelays) (finish : ResumedRead _ _ _),
      RetryAccessor.read ⟨[some 1, none]⟩ (⟨1⟩ : FixedDelays) "f"
        ⟨⟨1, some 2⟩, none⟩ = some (.ok wrapper, ⟨[none]⟩) ∧
      Automaton.run step (new wrapper) [(), (), (), ()] = some finish ∧
      finish.failures = 1 ∧ finish.finished = true ∧
      finish.collected = [2, 3] := by
  obtain ⟨wrapper, opened⟩ :
      ∃ wrapper : RetryWrapper (RetryReader (FlakyService [1, 2, 3, 4])
          ScriptedReader) FixedDelays,
        RetryAccessor.read ⟨[some 1, none]⟩ (⟨1⟩ : FixedDelays) "f"
          ⟨⟨1, some 2⟩, none⟩ = some (.ok wrapper, ⟨[none]⟩) := ⟨_, rfl⟩
  obtain ⟨finish, ran, _, complete, _⟩ := resumes_where_failed
    (FlakyService.faultyReads "f" [1, 2, 3, 4]) (by decide) opened
    [(), (), (), ()]
  cases opened
  cases ran
  exact ⟨_, _, rfl, rfl, rfl, rfl, complete rfl⟩

end OpenDal
