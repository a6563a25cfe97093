import OpenDal.Types.ReadGenerator
import OpenDal.Automaton

/-!
# `RetryLayer` and its reader

`RetryReader` drops the reader that fails and opens a new one at the next
call, with the range that is left.  `RetryWrapper` calls it again as long as
the error is temporary and the backoff has another delay.  The futures and the
blocking variants have the same bodies, so each of them is one definition.

Retrying itself is the work of the crate `backon`: `Backoff` is its interface,
and `LawfulBackoff` what is documented of it.

What a service returns is an answer and its next state, so a state carries the
whole pattern of its failures.
-/

namespace OpenDal

def Error.setPersistent (err : Error) : Error :=
  { err with status := .persistent }

/-! ## Retrying a call -/

/-- A builder of backoffs: what `retry(builder).when(|e| e.is_temporary())`
makes of a call with a context; `none` is a panic of the call. -/
class Backoff (B : Type) where
  retry {C T : Type} : B → (C → Option (Except Error T × C)) → C →
    Option (Except Error T × C)

/-- The outcome is that of the last attempt, and every other attempt has
failed temporarily. -/
inductive Retried {C T : Type} (call : C → Option (Except Error T × C)) :
    C → Option (Except Error T × C) → Prop where
  | last (context : C) : Retried call context (call context)
  | again {context later : C} {err : Error}
      {outcome : Option (Except Error T × C)}
      (failed : call context = some (.error err, later))
      (temporary : err.isTemporary = true)
      (retried : Retried call later outcome) : Retried call context outcome

class LawfulBackoff (B : Type) [Backoff B] : Prop where
  retried {C T : Type} : ∀ (builder : B)
    (call : C → Option (Except Error T × C)) (context : C),
    Retried call context (Backoff.retry builder call context)

/-- A call that does not panic, keeps `kept` when it fails and establishes
`returned` when it succeeds. -/
def Attempts {C T : Type} (outcome : Option (Except Error T × C))
    (kept : C → Prop) (returned : T → C → Prop) : Prop :=
  (∃ err later, outcome = some (.error err, later) ∧ kept later) ∨
    ∃ value later, outcome = some (.ok value, later) ∧ returned value later

/-- The rule for a retried call: what one attempt does, all of them do. -/
theorem retry_attempts {B C T : Type} [Backoff B] [LawfulBackoff B]
    {call : C → Option (Except Error T × C)} {kept : C → Prop}
    {returned : T → C → Prop}
    (attempts : ∀ {context}, kept context →
      Attempts (call context) kept returned)
    (builder : B) {context : C} (before : kept context) :
    Attempts (Backoff.retry builder call context) kept returned := by
  have retried := LawfulBackoff.retried builder call context
  generalize Backoff.retry builder call context = outcome at retried
  induction retried with
  | last context => exact attempts before
  | again failed temporary _ induction =>
      rcases attempts before with
        ⟨err, later, answered, after⟩ | ⟨value, later, answered, _⟩
      · cases failed.symm.trans answered
        exact induction after
      · cases failed.symm.trans answered

/-- A backoff with a fixed number of delays. -/
structure FixedDelays where
  maxTimes : Nat

namespace FixedDelays

def retryWith {C T : Type} (call : C → Option (Except Error T × C)) :
    (delays : Nat) → C → Option (Except Error T × C)
  | 0, context => call context
  | delays + 1, context =>
      match call context with
      | some (.error err, context) =>
          if err.isTemporary then
            retryWith call delays context
          else
            some (.error err, context)
      | answered => answered

instance : Backoff FixedDelays where
  retry := fun builder call => retryWith call builder.maxTimes

instance : LawfulBackoff FixedDelays where
  retried := by
    intro C T builder call context
    show Retried call context (retryWith call builder.maxTimes context)
    generalize builder.maxTimes = delays
    induction delays generalizing context with
    | zero => exact .last context
    | succ delays induction =>
        simp only [retryWith]
        split
        · rename_i err later failed
          split
          · rename_i temporary
            exact .again failed temporary (induction later)
          · rw [← failed]
            exact .last context
        · exact .last context

end FixedDelays

/-! ## Ranges -/

namespace BytesRange

/-- `advance`; `none` is the underflow of the size. -/
def advance (range : BytesRange) (count : Nat) : Option BytesRange :=
  match range.size with
  | some size =>
      (checkedSub size count).map fun rest => ⟨range.offset + count, some rest⟩
  | none => some ⟨range.offset + count, none⟩

/-- The bytes of `content` that the range is about. -/
def select (range : BytesRange) (content : Bytes) : Bytes :=
  match range.size with
  | some size => (content.drop range.offset).take size
  | none => content.drop range.offset

/-- The range lies inside `content`. -/
def Within (range : BytesRange) (content : Bytes) : Prop :=
  range.offset + range.size.getD 0 ≤ content.length

instance (range : BytesRange) (content : Bytes) :
    Decidable (range.Within content) :=
  inferInstanceAs (Decidable (range.offset + range.size.getD 0 ≤ _))

theorem advance_spec {range : BytesRange} {content left right : Bytes}
    (within : range.Within content)
    (selected : range.select content = left ++ right) :
    ∃ later, range.advance left.length = some later ∧
      later.Within content ∧ later.select content = right := by
  obtain ⟨offset, size⟩ := range
  have total := congrArg List.length selected
  have dropped := congrArg (List.drop left.length) selected
  rw [List.drop_left] at dropped
  cases size with
  | none =>
      simp only [select, Within, Option.getD_none, List.length_append,
        List.length_drop, List.drop_drop] at *
      exact ⟨_, rfl, by simp only [Option.getD_none]; omega, dropped⟩
  | some size =>
      simp only [select, Within, Option.getD_some, List.length_append,
        List.length_take, List.length_drop, List.drop_take,
        List.drop_drop] at *
      have fits : left.length ≤ size := by omega
      refine ⟨⟨offset + left.length, some (size - left.length)⟩, ?_, ?_, ?_⟩
      · simp [advance, checkedSub, fits]
      · simp only [Option.getD_some]
        omega
      · exact dropped

end BytesRange

/-! ## `RetryReader` -/

/-- `Access::read` or `Access::blocking_read` of a service with state `A`. -/
class ReadAccess (A : Type) (R : outParam Type) where
  read : A → String → OpRead → Except Error R × A

structure RetryReader (A R : Type) where
  inner : A
  reader : Option R
  path : String
  args : OpRead

namespace RetryReader

variable {A R : Type} [Read R]

def new (inner : A) (path : String) (args : OpRead) (reader : R) :
    RetryReader A R :=
  { inner
    reader := some reader
    path
    args }

/-- The branch of the loop that has taken `reader` out of the field. -/
def readFrom (self : RetryReader A R) (reader : R) :
    Option (Except Error Buffer × RetryReader A R) :=
  match Read.read reader with
  -- the reader is dropped
  | (.error err, _) => some (.error err, { self with reader := none })
  | (.ok buf, reader) =>
      (self.args.range.advance buf.len).map fun range =>
        (.ok buf,
          { self with
            reader := some reader
            args := self.args.withRange range })

variable [ReadAccess A R]

/-- `read`; `none` is a panic.  After opening a reader the loop goes round
once more and takes it. -/
def read (self : RetryReader A R) :
    Option (Except Error Buffer × RetryReader A R) :=
  match self.reader with
  | none =>
      match ReadAccess.read self.inner self.path self.args with
      | (.error err, inner) => some (.error err, { self with inner })
      | (.ok reader, inner) => readFrom { self with inner } reader
  | some reader => readFrom self reader

end RetryReader

/-! ## `RetryWrapper` -/

structure RetryWrapper (R B : Type) where
  inner : Option R
  builder : B

namespace RetryWrapper

variable {R B : Type}

def new (inner : R) (backoff : B) : RetryWrapper R B :=
  { inner := some inner
    builder := backoff }

def takeInner (self : RetryWrapper R B) :
    Except Error R × RetryWrapper R B :=
  match self.inner with
  | some inner => (.ok inner, { self with inner := none })
  | none =>
      (.error (.new .unexpected ("retry layer is in bad state, please make " ++
        "sure future not dropped before ready")), self)

variable [Backoff B]

/-- The functions of the wrapper that take the inner value out, retry `call`
with it and put it back. -/
def retryWith {T : Type} (self : RetryWrapper R B)
    (call : R → Option (Except Error T × R)) :
    Option (Except Error T × RetryWrapper R B) :=
  match self.takeInner with
  | (.error err, self) => some (.error err, self)
  | (.ok inner, self) =>
      (Backoff.retry self.builder call inner).map fun (result, inner) =>
        (result.mapError Error.setPersistent, { self with inner := some inner })

/-- A wrapper that holds its value retries like the call itself. -/
theorem retryWith_attempts [LawfulBackoff B] {T : Type}
    {call : R → Option (Except Error T × R)} {kept : R → Prop}
    {returned : T → R → Prop}
    (attempts : ∀ {inner}, kept inner → Attempts (call inner) kept returned)
    {self : RetryWrapper R B}
    (before : ∃ inner, self.inner = some inner ∧ kept inner) :
    Attempts (self.retryWith call)
      (fun self => ∃ inner, self.inner = some inner ∧ kept inner)
      (fun value self => ∃ inner, self.inner = some inner ∧
        returned value inner) := by
  obtain ⟨inner, held, keeps⟩ := before
  rcases retry_attempts attempts self.builder keeps with
    ⟨err, later, failed, after⟩ | ⟨value, later, succeeded, after⟩
  · exact .inl ⟨err.setPersistent, { self with inner := some later },
      by simp [retryWith, takeInner, held, failed, Except.mapError],
      later, rfl, after⟩
  · exact .inr ⟨value, { self with inner := some later },
      by simp [retryWith, takeInner, held, succeeded, Except.mapError],
      later, rfl, after⟩

/-- `read` of a wrapped `RetryReader`. -/
def read {A R : Type} [Read R] [ReadAccess A R]
    (self : RetryWrapper (RetryReader A R) B) :
    Option (Except Error Buffer × RetryWrapper (RetryReader A R) B) :=
  self.retryWith RetryReader.read

end RetryWrapper

/-- `RetryAccessor::read` over a service in state `inner`. -/
def RetryAccessor.read {A R B : Type} [ReadAccess A R] [Backoff B]
    (inner : A) (builder : B) (path : String) (args : OpRead) :
    Option (Except Error (RetryWrapper (RetryReader A R) B) × A) :=
  (Backoff.retry builder
    (fun inner => some (ReadAccess.read inner path args)) inner).map
    fun (result, inner) =>
      match result with
      | .error err => (.error err.setPersistent, inner)
      | .ok reader =>
          let retryReader := RetryReader.new inner path args reader
          (.ok (.new retryReader builder), inner)

end OpenDal
