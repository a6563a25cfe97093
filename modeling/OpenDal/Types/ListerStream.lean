import OpenDal.Layers.Retry
import OpenDal.Raw.ConcurrentTasks

/-!
# Listing to the end

`Lister` is a stream over a lister of a service, which it keeps or has given to
a future.  It ends with the listing or after the first error.

Whatever lists a service, all that the stream needs is that a failed call owes
what it owed before.  Retrying keeps this property, and leaves only the
failures that outlast it.
-/

namespace OpenDal

/-- A call of `next` with its fuel; `none` is a panic, or too little fuel. -/
abbrev NextCall (L E : Type) : Type :=
  Nat → L → Option (Except Error (Option E) × L)

/-- `Lister` of the operator. -/
structure ListerStream (L : Type) where
  lister : Option L
  /-- The future has the lister while it runs. -/
  fut : Option L
  errored : Bool

namespace ListerStream

variable {L E : Type}

def create (lister : L) : ListerStream L :=
  { lister := some lister
    fut := none
    errored := false }

/-- `poll_next`; the future is ready with the given fuel, or not at all. -/
def pollNext (next : NextCall L E) (ready : Option Nat)
    (self : ListerStream L) :
    Option (Progress Unit (Option (Except Error E)) × ListerStream L) :=
  if self.errored then
    some (.returned none, self)
  else
    let self :=
      match self.lister with
      | some lister => { self with lister := none, fut := some lister }
      | none => self
    match self.fut, ready with
    | none, _ => some (.returned none, self)
    | some _, none => some (.suspended (), self)
    | some lister, some fuel => do
        let (result, lister) ← next fuel lister
        let self := { self with lister := some lister, fut := none }
        match result with
        | .ok (some entry) => some (.returned (some (.ok entry)), self)
        | .ok none => some (.returned none, { self with lister := none })
        | .error err =>
            some (.returned (some (.error err)), { self with errored := true })

end ListerStream

/-! ## Listers that can be asked again -/

/-- What a call does to a lister that owes `rest`. -/
inductive OwesNext {L E : Type} (owes : L → List E → Prop)
    (rest : List E) : Except Error (Option E) → L → Prop where
  | more {later : L} {entry : E} {others : List E}
      (split : rest = entry :: others) (remains : owes later others) :
      OwesNext owes rest (.ok (some entry)) later
  | last {later : L} (nothing : rest = []) (remains : owes later []) :
      OwesNext owes rest (.ok none) later
  | failed {later : L} {err : Error} (remains : owes later rest) :
      OwesNext owes rest (.error err) later

/-- `owes` says which entries are still to come.  A call that fails has lost
none of them. -/
def Resumes {L E : Type} (next : NextCall L E) (owes : L → List E → Prop) :
    Prop :=
  ∀ {fuel lister rest result later}, owes lister rest →
    next fuel lister = some (result, later) → OwesNext owes rest result later

/-- There is enough fuel for a call, also after it has failed. -/
structure Responds {L E : Type} (next : NextCall L E)
    (owes : L → List E → Prop) (enough : Nat → L → Prop) : Prop where
  fuel : ∀ {lister rest}, owes lister rest → ∃ fuel, enough fuel lister
  returns : ∀ {fuel lister}, enough fuel lister →
    Attempts (next fuel lister) (enough fuel) fun _ _ => True

/-! ## Retrying -/

namespace RetryWrapper

variable {L E B : Type} {call : NextCall L E} {owes : L → List E → Prop}
  {builder : B}

/-- The wrapper owes what its lister does. -/
def OwesEntries (owes : L → List E → Prop) (builder : B)
    (self : RetryWrapper L B) (rest : List E) : Prop :=
  self.builder = builder ∧ ∃ inner, self.inner = some inner ∧ owes inner rest

theorem owes_new {lister : L} {rest : List E} (remains : owes lister rest) :
    OwesEntries owes builder (new lister builder) rest :=
  ⟨rfl, lister, rfl, remains⟩

variable [Backoff B]

/-- `next` of a wrapped lister. -/
def next (next : NextCall L E) : NextCall (RetryWrapper L B) E :=
  fun fuel self => self.retryWith (next fuel)

theorem resumes [LawfulBackoff B] (again : Resumes call owes) :
    Resumes (next call) (OwesEntries owes builder) := by
  rintro fuel self rest result later ⟨same, inner, held, remains⟩ answered
  simp only [next, retryWith, takeInner, held] at answered
  obtain ⟨⟨outcome, last⟩, retried, answer⟩ :=
    Option.map_eq_some_iff.mp answered
  cases answer
  have attempts := LawfulBackoff.retried self.builder (call fuel) inner
  rw [retried] at attempts
  have owed : OwesNext owes rest outcome last := by
    generalize final : some (outcome, last) = answer at attempts
    clear answered retried held
    induction attempts with
    | last inner => exact again remains final.symm
    | again failed _ _ induction =>
        cases again remains failed with
        | failed remains => exact induction remains final
  cases owed with
  | more split remains => exact .more split ⟨same, last, rfl, remains⟩
  | last nothing remains => exact .last nothing ⟨same, last, rfl, remains⟩
  | failed remains => exact .failed ⟨same, last, rfl, remains⟩

theorem responds [LawfulBackoff B] {enough : Nat → L → Prop}
    (answered : Responds call owes enough) :
    Responds (next call) (OwesEntries owes builder)
      fun fuel self =>
        ∃ inner, self.inner = some inner ∧ enough fuel inner where
  fuel := by
    rintro self rest ⟨_, inner, held, remains⟩
    obtain ⟨fuel, enough⟩ := answered.fuel remains
    exact ⟨fuel, inner, held, enough⟩
  returns := by
    intro fuel self before
    rcases retryWith_attempts answered.returns before with
      failed | ⟨value, later, succeeded, _⟩
    · exact .inl failed
    · exact .inr ⟨value, later, succeeded, trivial⟩

end RetryWrapper

/-- The call succeeds after at most so many temporary failures. -/
inductive SucceedsWithin {C T : Type} (call : C → Option (Except Error T × C)) :
    Nat → C → Prop where
  | now {delays : Nat} {context later : C} {value : T}
      (succeeded : call context = some (.ok value, later)) :
      SucceedsWithin call delays context
  | later {delays : Nat} {context later : C} {err : Error}
      (failed : call context = some (.error err, later))
      (temporary : err.isTemporary = true)
      (rest : SucceedsWithin call delays later) :
      SucceedsWithin call (delays + 1) context

theorem FixedDelays.retryWith_ok {C T : Type}
    {call : C → Option (Except Error T × C)} {delays : Nat} {context : C}
    (succeeds : SucceedsWithin call delays context) :
    ∃ value later, retryWith call delays context = some (.ok value, later) := by
  induction succeeds with
  | @now delays context later value succeeded =>
      cases delays with
      | zero => exact ⟨value, later, succeeded⟩
      | succ delays => exact ⟨value, later, by simp [retryWith, succeeded]⟩
  | later failed temporary rest induction =>
      obtain ⟨value, last, retried⟩ := induction
      exact ⟨value, last, by simp [retryWith, failed, temporary, retried]⟩

/-! ## Whole listings -/

/-- A stream and what it has returned. -/
structure ListingSession (L E : Type) where
  stream : ListerStream L
  replies : List (Option (Except Error E))

namespace ListingSession

variable {L E : Type}

def new (lister : L) : ListingSession L E :=
  { stream := .create lister
    replies := [] }

/-- A poll while the future is ready or not. -/
def step (next : NextCall L E) (session : ListingSession L E)
    (ready : Option Nat) : Option (ListingSession L E) :=
  match session.stream.pollNext next ready with
  | some (.returned reply, stream) =>
      some ⟨stream, session.replies ++ [reply]⟩
  | some (.suspended (), stream) => some { session with stream }
  | some (.panicked _, _) => none
  | none => none

/-- The lister, wherever it is. -/
def lister? (session : ListingSession L E) : Option L :=
  session.stream.lister <|> session.stream.fut

def okReplies (entries : List E) : List (Option (Except Error E)) :=
  entries.map fun entry => some (.ok entry)

/-- Entries from the front of `whole`, and then nothing yet, the end or an
error, after which there is nothing. -/
inductive Delivers (whole : List E) :
    List (Option (Except Error E)) → Prop where
  | part {front rest : List E} (split : whole = front ++ rest) :
      Delivers whole (okReplies front)
  | ended (count : Nat) :
      Delivers whole (okReplies whole ++ List.replicate (count + 1) none)
  | failed {front rest : List E} (split : whole = front ++ rest)
      (err : Error) (count : Nat) :
      Delivers whole
        (okReplies front ++ some (.error err) :: List.replicate count none)

/-- How the stream stands to what it has returned. -/
inductive Stage (owes : L → List E → Prop) (whole : List E)
    (session : ListingSession L E) : Prop where
  | listing {front rest : List E} {lister : L} (split : whole = front ++ rest)
      (healthy : session.stream.errored = false)
      (held : session.lister? = some lister) (remains : owes lister rest)
      (replied : session.replies = okReplies front)
  | ended (count : Nat) (healthy : session.stream.errored = false)
      (nothing : session.lister? = none)
      (replied : session.replies =
        okReplies whole ++ List.replicate (count + 1) none)
  | failed {front rest : List E} (err : Error) (count : Nat)
      (split : whole = front ++ rest) (errored : session.stream.errored = true)
      (replied : session.replies =
        okReplies front ++ some (.error err) :: List.replicate count none)

variable {next : NextCall L E} {owes : L → List E → Prop} {whole : List E}
  {session later : ListingSession L E} {ready : Option Nat}

theorem Stage.delivers (stage : session.Stage owes whole) :
    Delivers whole session.replies := by
  cases stage with
  | listing split _ _ _ replied => exact replied ▸ .part split
  | ended _ _ _ replied => exact replied ▸ .ended _
  | failed _ _ split _ replied => exact replied ▸ .failed split _ _

theorem pollNext_held {lister : L} (healthy : session.stream.errored = false)
    (held : session.lister? = some lister) (ready : Option Nat) :
    session.stream.pollNext next ready =
      (⟨none, some lister, false⟩ : ListerStream L).pollNext next ready := by
  obtain ⟨⟨idle, fut, errored⟩, replies⟩ := session
  cases healthy
  cases idle <;> cases held <;> rfl

theorem step_pending {lister : L} (healthy : session.stream.errored = false)
    (held : session.lister? = some lister) :
    session.step next none =
      some { session with stream := ⟨none, some lister, false⟩ } := by
  rw [step, pollNext_held healthy held]
  rfl

theorem step_ready {lister : L} (healthy : session.stream.errored = false)
    (held : session.lister? = some lister) (fuel : Nat) :
    session.step next (some fuel) =
      (next fuel lister).map fun
        | (.ok (some entry), lister) => ⟨⟨some lister, none, false⟩,
            session.replies ++ [some (.ok entry)]⟩
        | (.ok none, _) => ⟨⟨none, none, false⟩, session.replies ++ [none]⟩
        | (.error err, lister) => ⟨⟨some lister, none, true⟩,
            session.replies ++ [some (.error err)]⟩ := by
  rw [step, pollNext_held healthy held]
  cases answered : next fuel lister with
  | none => simp [ListerStream.pollNext, answered]
  | some answer =>
      obtain ⟨result, later⟩ := answer
      rcases result with err | _ | entry <;>
        simp [ListerStream.pollNext, answered]

theorem step_over
    (past : session.stream.errored = true ∨ session.lister? = none)
    (ready : Option Nat) : session.step next ready =
      some { session with replies := session.replies ++ [none] } := by
  obtain ⟨⟨idle, fut, errored⟩, replies⟩ := session
  cases errored with
  | true => simp [step, ListerStream.pollNext]
  | false =>
      obtain nothing := past.resolve_left (by simp)
      cases idle <;> cases fut <;> cases nothing
      simp [step, ListerStream.pollNext]

theorem Stage.step (again : Resumes next owes)
    (stage : session.Stage owes whole)
    (stepped : session.step next ready = some later) :
    later.Stage owes whole := by
  cases stage with
  | @listing front rest lister split healthy held remains replied =>
      cases ready with
      | none =>
          rw [step_pending healthy held] at stepped
          cases stepped
          exact .listing split rfl rfl remains replied
      | some fuel =>
          rw [step_ready healthy held] at stepped
          obtain ⟨⟨result, other⟩, answered, same⟩ :=
            Option.map_eq_some_iff.mp stepped
          cases again remains answered with
          | @more _ entry others begins remains =>
              cases same
              have longer : whole = (front ++ [entry]) ++ others := by
                rw [split, begins, List.append_assoc, List.singleton_append]
              refine .listing longer rfl rfl remains ?_
              simp [replied, okReplies]
          | last nothing _ =>
              cases same
              rw [nothing, List.append_nil] at split
              refine .ended 0 rfl rfl ?_
              simp [replied, split]
          | @failed _ err _ =>
              cases same
              refine .failed err 0 split rfl ?_
              simp [replied]
  | ended count healthy nothing replied =>
      rw [step_over (.inr nothing)] at stepped
      cases stepped
      refine .ended (count + 1) healthy nothing ?_
      rw [replied, List.append_assoc, ← List.replicate_succ']
  | failed err count split errored replied =>
      rw [step_over (.inl errored)] at stepped
      cases stepped
      refine .failed err (count + 1) split errored ?_
      rw [replied, List.append_assoc, List.cons_append,
        ← List.replicate_succ']

theorem stage_new {lister : L} (remains : owes lister whole) :
    (new lister : ListingSession L E).Stage owes whole :=
  .listing (List.nil_append whole).symm rfl rfl remains rfl

/-- A poll whose future is ready with enough fuel returns. -/
theorem Stage.returns {enough : Nat → L → Prop}
    (answered : Responds next owes enough)
    (stage : session.Stage owes whole) :
    ∃ fuel, (session.step next (some fuel)).isSome = true := by
  cases stage with
  | @listing front rest lister split healthy held remains replied =>
      obtain ⟨fuel, sufficient⟩ := answered.fuel remains
      refine ⟨fuel, ?_⟩
      rw [step_ready healthy held, Option.isSome_map]
      rcases answered.returns sufficient with
        ⟨err, other, failed, _⟩ | ⟨value, other, succeeded, _⟩
      · rw [failed]
        rfl
      · rw [succeeded]
        rfl
  | ended _ _ nothing _ => exact ⟨0, by rw [step_over (.inr nothing)]; rfl⟩
  | failed _ _ _ errored _ => exact ⟨0, by rw [step_over (.inl errored)]; rfl⟩

/-! ## Listings behind the retry layer -/

/-- The lister in the wrapper succeeds before there are no more delays. -/
def Settles {B : Type} (next : NextCall L E) (delays : Nat)
    (session : ListingSession (RetryWrapper L B) E) (ready : Option Nat) :
    Prop :=
  ∀ fuel wrapper inner, ready = some fuel → session.lister? = some wrapper →
    wrapper.inner = some inner → SucceedsWithin (next fuel) delays inner

def Errorless (session : ListingSession L E) : Prop :=
  ∀ err, some (.error err) ∉ session.replies

theorem Errorless.step {builder : FixedDelays}
    {session later : ListingSession (RetryWrapper L FixedDelays) E}
    (errorless : session.Errorless)
    (stage : session.Stage (RetryWrapper.OwesEntries owes builder) whole)
    (settles : session.Settles next builder.maxTimes ready)
    (stepped : session.step (RetryWrapper.next next) ready = some later) :
    later.Errorless := by
  have replied : later.replies = session.replies ∨
      ∃ reply, later.replies = session.replies ++ [reply] ∧
        ∀ err, reply ≠ some (.error err) := by
    cases stage with
    | @listing front rest wrapper split healthy held remains replied =>
        cases ready with
        | none =>
            rw [step_pending healthy held] at stepped
            cases stepped
            exact .inl rfl
        | some fuel =>
            obtain ⟨rfl, inner, inside, _⟩ := remains
            obtain ⟨value, other, retried⟩ := FixedDelays.retryWith_ok
              (settles fuel wrapper inner rfl held inside)
            have answered : RetryWrapper.next next fuel wrapper =
                some (.ok value, { wrapper with inner := some other }) := by
              simp [RetryWrapper.next, RetryWrapper.retryWith,
                RetryWrapper.takeInner, inside, Backoff.retry, retried,
                Except.mapError]
            rw [step_ready healthy held, answered] at stepped
            cases value <;> cases stepped <;> exact .inr ⟨_, rfl, by simp⟩
    | ended _ _ nothing _ =>
        rw [step_over (.inr nothing)] at stepped
        cases stepped
        exact .inr ⟨_, rfl, by simp⟩
    | failed _ _ _ errored _ =>
        rw [step_over (.inl errored)] at stepped
        cases stepped
        exact .inr ⟨_, rfl, by simp⟩
  intro err member
  rcases replied with same | ⟨reply, same, fine⟩
  · exact errorless err (same ▸ member)
  · rw [same, List.mem_append, List.mem_singleton] at member
    rcases member with old | new
    · exact errorless err old
    · exact fine err new.symm

/-- What a stream over the retry layer returns in every run of polls. -/
theorem lists {enough : Nat → L → Prop} (again : Resumes next owes)
    (answered : Responds next owes enough) {lister : L}
    (remains : owes lister whole) (builder : FixedDelays)
    {events : List (Option Nat)}
    {session : ListingSession (RetryWrapper L FixedDelays) E}
    (ran : Automaton.run (step (RetryWrapper.next next))
      (new (.new lister builder)) events = some session) :
    Delivers whole session.replies ∧
      (∃ fuel, (session.step (RetryWrapper.next next) (some fuel)).isSome =
        true) ∧
      (Automaton.Along (step (RetryWrapper.next next))
          (Settles next builder.maxTimes) (new (.new lister builder)) events →
        session.Errorless) := by
  let stands (state : ListingSession (RetryWrapper L FixedDelays) E) : Prop :=
    state.Stage (RetryWrapper.OwesEntries owes builder) whole
  have staged : ∀ {state event later}, stands state →
      step (RetryWrapper.next next) state event = some later →
      stands later :=
    fun stage stepped => stage.step (RetryWrapper.resumes again) stepped
  have initially : stands (new (.new lister builder)) :=
    stage_new (RetryWrapper.owes_new remains)
  have stage := Automaton.run_invariant_of_forall staged initially ran
  refine ⟨stage.delivers, stage.returns (RetryWrapper.responds answered), ?_⟩
  intro settles
  have kept : ∀ {state event later}, stands state ∧ state.Errorless →
      Settles next builder.maxTimes state event →
      step (RetryWrapper.next next) state event = some later →
      stands later ∧ later.Errorless :=
    fun holds allowed stepped => ⟨staged holds.1 stepped,
      holds.2.step holds.1 allowed stepped⟩
  have errorless : (new (.new lister builder) :
      ListingSession (RetryWrapper L FixedDelays) E).Errorless := by
    simp [Errorless, new]
  exact (Automaton.run_invariant_along kept ⟨initially, errorless⟩ settles
    ran).2

end ListingSession

end OpenDal
