import OpenDal.Layers.ConcurrentLimit
import OpenDal.Layers.LimitedRead

/-!
# A read and the layer it stands behind

A read has a `ConcurrentLimitLayer` for itself.  A poll that opens a reader
polls `Access::read` of the layer, and goes on when the layer has a permit for
it; the handle of a reader is dropped as soon as the reader is gone.

The invariant is that every reader that is alive has a handle of its own, and
that a call waits only while the read starves.  So the layer allows exactly the
steps of `ReaderRead.limitedStep`, and its runs are those of the limited read.
-/

namespace OpenDal

open Automaton

variable {R : Type} [Read R]

/-! ## The readers that a poll opens -/

omit [Read R] in
theorem ReadGenerator.nextReader_of_ended {generator : ReadGenerator R}
    (ended : generator.size = some 0) :
    generator.nextReader = (.ok none, generator) := by
  simp [nextReader, nextRange, ended]

theorem StreamingReader.pollRead_of_ended {reader : StreamingReader R}
    (between : reader.reader = none) (ended : reader.generator.size = some 0) :
    (reader.pollRead).1.reader = none := by
  simp [pollRead, between, ReadGenerator.nextReader_of_ended ended]

omit [Read R] in
/-- What a resumption does to the readers that are alive. -/
theorem ChunkedReader.readers_pollRead {reader later : ChunkedReader R}
    {future : ReadFuture R}
    {progress : Progress (ReadFuture R) (Except Error Buffer)}
    (resumed : reader.pollRead future = some (later, progress)) :
    later.tasks.tasks.length + submittedAfter progress ≤
      reader.tasks.tasks.length + future.readers +
        (BufferStream.reading (.two (reader, future))).opensReader.toNat := by
  cases future with
  | looping =>
      simp only [pollRead] at resumed
      split at resumed
      · next wants =>
          by_cases ended : reader.generator.size = some 0
          · rw [ReadGenerator.nextReader_of_ended ended] at resumed
            cases resumed
            simp [submittedAfter, ReadFuture.readers]
          · have opens : (BufferStream.reading
                (.two (reader, .looping))).opensReader = true := by
              simpa [BufferStream.opensReader, BufferStream.call, ended]
                using wants
            rw [opens]
            split at resumed <;> cases resumed <;>
              simp [submittedAfter, ReadFuture.readers]
      · cases resumed
        simp [submittedAfter, ReadFuture.readers]
  | executing future | draining future =>
      exact Nat.le_add_right_of_le (pollRead_of_begun (by simp) resumed).2

namespace BufferStream

variable {stream later : BufferStream R}

/-- A poll makes at most one more reader alive, and only if it opens one. -/
theorem readers_pollNext
    {progress : Progress Unit (Option (Except Error Buffer))}
    (polled : stream.pollNext = some (later, progress)) :
    later.readers ≤ stream.readers + stream.opensReader.toNat := by
  unfold pollNext at polled
  cases current : stream.call with
  | one reader =>
      rw [current] at polled
      have after : later.readers =
          (reader.pollRead).1.reader.isSome.toNat := by
        simp only [pollReading] at polled
        split at polled <;> rename_i answered <;> cases polled <;>
          simp [readers, call, answered]
      have few : (reader.pollRead).1.reader.isSome.toNat ≤ 1 :=
        Bool.toNat_le _
      rw [after]
      by_cases idle : reader.reader = none ∧ reader.generator.size = some 0
      · rw [StreamingReader.pollRead_of_ended idle.1 idle.2]
        exact Nat.zero_le _
      · have counted : stream.readers + stream.opensReader.toNat = 1 := by
          simp only [readers, opensReader, current]
          cases between : reader.reader with
          | none =>
              have unended : reader.generator.size ≠ some 0 :=
                fun ended => idle ⟨between, ended⟩
              simp [unended]
          | some r => simp
        omega
  | two pair =>
      obtain ⟨reader, future⟩ := pair
      rw [current] at polled
      simp only [pollReading, Option.bind_eq_bind, Option.bind_eq_some_iff]
        at polled
      obtain ⟨⟨next, reading⟩, resumed, same⟩ := polled
      have grows := ChunkedReader.readers_pollRead resumed
      have before : stream.readers =
          reader.tasks.tasks.length + future.readers := by
        simp only [readers, current]
      have opens : stream.opensReader =
          (BufferStream.reading (.two (reader, future))).opensReader := by
        unfold opensReader
        rw [current]
        rfl
      have after : later.readers =
          next.tasks.tasks.length + ChunkedReader.submittedAfter reading := by
        cases reading <;> cases same <;> rfl
      rw [before, after, opens]
      exact grows

end BufferStream

namespace ReaderRead

variable {state later : ReaderRead R} {event : ReadEvent}

omit [Read R] in
theorem stream_collect (self : ReaderRead R)
    (outcome : BufferStream R ×
      Progress Unit (Option (Except Error Buffer))) :
    (self.collect outcome).stream = outcome.1 := by
  unfold collect
  split <;> rfl

theorem readers_poll (stepped : state.step .poll = some later) :
    later.stream.readers ≤
      state.stream.readers + state.stream.opensReader.toNat := by
  obtain ⟨_, ⟨_, ⟨stream, progress⟩, polled, rfl⟩ |
    ⟨stream, rfl, ⟨place, fuel, wrong, _⟩ | ⟨fuel, wrong, _⟩⟩⟩ :=
    step_cases stepped
  · rw [stream_collect]
    exact BufferStream.readers_pollNext polled
  · cases wrong
  · cases wrong

/-- A task keeps its reader. -/
theorem readers_finish (stepped : state.step event = some later)
    (background : event ≠ .poll) :
    later.stream.readers = state.stream.readers := by
  obtain ⟨_, ⟨poll, _⟩ | ⟨stream, rfl, ⟨place, fuel, rfl, finished⟩ |
    ⟨fuel, rfl, finished⟩⟩⟩ := step_cases stepped
  · exact absurd poll background
  · obtain ⟨reader, future, next, current, ended, calling⟩ :=
      BufferStream.finish_eq_some finished
    simp only [ChunkedReader.finish, Option.bind_eq_bind,
      Option.bind_eq_some_iff] at ended
    obtain ⟨tasks, finished, same⟩ := ended
    cases same
    have length := (ConcurrentTasks.length_finish finished).1
    simp only [BufferStream.readers, current, calling, length]
  · obtain ⟨reader, future, next, current, ended, calling⟩ :=
      BufferStream.finishAwaited_eq_some finished
    cases future with
    | looping => cases ended
    | executing future =>
        simp only [ReadFuture.finish, Option.map_eq_some_iff] at ended
        obtain ⟨_, _, rfl⟩ := ended
        simp only [BufferStream.readers, current, calling, ReadFuture.readers]
    | draining future => cases ended

end ReaderRead

/-! ## A read and the layer -/

/-- A read with the `ConcurrentLimitLayer` that it stands behind. -/
structure LimitedRead (semaphore : Semaphore) (R : Type) where
  read : ReaderRead R
  limit : ConcurrentLimitAccessor semaphore Unit
  /-- The call of `Access::read` that waits for its permit. -/
  asked : Option Nat
  /-- The calls whose handles are alive, oldest first. -/
  handles : List Nat

namespace LimitedRead

variable {semaphore : Semaphore}

def new (semaphore : Semaphore) (permits : Nat) (stream : BufferStream R) :
    LimitedRead semaphore R :=
  { read := .new stream
    limit := .new semaphore permits
    asked := none
    handles := [] }

/-- The handles of the readers that are gone are dropped.  To the semaphore it
makes no difference which handles these are. -/
def dropHandles (self : LimitedRead semaphore R) :
    Option (LimitedRead semaphore R) := do
  let gone := self.handles.length - self.read.stream.readers
  let limit ← run ConcurrentLimitAccessor.step self.limit
    ((self.handles.take gone).map .drop)
  some { self with
    limit
    handles := self.handles.drop gone }

/-- The poll of a read that opens a reader: it polls `Access::read`, and goes on
when that has been answered. -/
def pollOpening (self : LimitedRead semaphore R) :
    Option (LimitedRead semaphore R) := do
  let i := self.asked.getD self.limit.calls.length
  let limit ← self.limit.step
    (if self.asked.isSome then .poll i else .call .read ())
  if limit.phase? i = some .waiting then
    some { self with
      limit
      asked := some i }
  else
    let read ← self.read.step .poll
    let opened := decide (self.read.stream.readers < read.stream.readers)
    let limit ← limit.step (.answer i opened)
    dropHandles
      { read
        limit
        asked := none
        handles := self.handles ++ if opened then [i] else [] }

def step (self : LimitedRead semaphore R) (event : ReadEvent) :
    Option (LimitedRead semaphore R) :=
  if self.read.result.isSome || self.read.panicked then
    none
  else
    match event with
    | .poll =>
        if self.read.stream.opensReader then
          self.pollOpening
        else do
          let read ← self.read.step .poll
          { self with read }.dropHandles
    | event => do
        let read ← self.read.step event
        { self with read }.dropHandles

/-- Nothing that can happen makes the read return. -/
def Hung (self : LimitedRead semaphore R) : Prop :=
  ∀ events later, run step self events = some later →
    later.read.result = none

variable {self later : LimitedRead semaphore R} {permits : Nat}
  {lawful : semaphore.Lawful} {event : ReadEvent}

/-- The handles are those of the calls that hold a permit. -/
structure Handles (lawful : semaphore.Lawful) (permits : Nat)
    (limit : ConcurrentLimitAccessor semaphore Unit) (handles : List Nat) :
    Prop where
  sound : limit.Sound lawful permits
  distinct : handles.Nodup
  opened : ∀ i ∈ handles, limit.calls[i]? = some ⟨.read, (), .opened⟩
  busy : limit.busy = handles.length

/-- What holds between two polls: every reader that is alive has a handle, and
the call that waits does so because the read starves. -/
structure Linked (lawful : semaphore.Lawful) (permits : Nat)
    (state : LimitedRead semaphore R) : Prop where
  handles : Handles lawful permits state.limit state.handles
  alive : state.handles.length = state.read.stream.readers
  waiting : state.limit.waiting = state.asked.toList
  starves : state.asked.isSome = true →
    state.read.stream.starves permits = true

/-! ### Handles that are dropped -/

section

open ConcurrentLimitAccessor

variable {limit : ConcurrentLimitAccessor semaphore Unit} {i : Nat}
  {handles rest gone : List Nat}

theorem Handles.drop_one (linked : Handles lawful permits limit (i :: rest)) :
    ∃ after, limit.step (.drop i) = some after ∧
      Handles lawful permits after rest ∧ after.waiting = limit.waiting := by
  have found := linked.opened i List.mem_cons_self
  obtain ⟨fresh, distinct⟩ := List.nodup_cons.mp linked.distinct
  have stepped : limit.step (.drop i) = some
      ((limit.enter i .finished).dropPermit ⟨.read, (), .opened⟩) := by
    simp [ConcurrentLimitAccessor.step, found]
  have calls := (dropPermit_eq (limit.enter i .finished)
    (⟨.read, (), .opened⟩ : LimitedCall Unit)).1
  have moved := busy_enter found .finished
  refine ⟨_, stepped, ?_, ?_⟩
  · constructor
    · exact linked.sound.step stepped
    · exact distinct
    · intro j member
      have other : i ≠ j := fun same => fresh (same ▸ member)
      rw [calls, getElem?_enter_ne other]
      exact linked.opened j (List.mem_cons_of_mem _ member)
    · have busy := linked.busy
      simp only [LimitedCall.holdsPermit, AccessFunction.takesPermit,
        LimitedPhase.isActive, Bool.and_true, Bool.and_false, Bool.toNat_true,
        Bool.toNat_false, Nat.add_zero] at moved
      rw [List.length_cons] at busy
      rw [busy_dropPermit]
      omega
  · rw [waiting_dropPermit]
    exact waiting_enter_of_found found (by simp) (by simp)

theorem Handles.drop_all
    (linked : Handles lawful permits limit (gone ++ rest)) :
    ∃ after, run ConcurrentLimitAccessor.step limit (gone.map .drop) =
        some after ∧
      Handles lawful permits after rest ∧ after.waiting = limit.waiting := by
  induction gone generalizing limit with
  | nil => exact ⟨limit, run_nil _ _, linked, rfl⟩
  | cons i gone induction =>
      obtain ⟨next, stepped, fewer, waits⟩ := linked.drop_one
      obtain ⟨after, ran, last, still⟩ := induction fewer
      exact ⟨after, run_cons_eq_some_iff.mpr ⟨next, stepped, ran⟩, last,
        still.trans waits⟩

end

omit [Read R] in
theorem dropHandles_spec (self : LimitedRead semaphore R)
    (linked : Handles lawful permits self.limit self.handles)
    (alive : self.read.stream.readers ≤ self.handles.length)
    (waiting : self.limit.waiting = self.asked.toList)
    (starves : self.asked.isSome = true →
      self.read.stream.starves permits = true) :
    ∃ later, self.dropHandles = some later ∧ later.Linked lawful permits ∧
      later.read = self.read := by
  obtain ⟨gone, counted⟩ : ∃ gone,
      gone = self.handles.length - self.read.stream.readers := ⟨_, rfl⟩
  have whole : Handles lawful permits self.limit
      (self.handles.take gone ++ self.handles.drop gone) := by
    rw [List.take_append_drop]
    exact linked
  obtain ⟨limit, ran, fewer, still⟩ := whole.drop_all
  refine ⟨{ self with limit, handles := self.handles.drop gone }, ?_, ?_, rfl⟩
  · rw [dropHandles, ← counted, ran]
    rfl
  · exact
      { handles := fewer
        alive := by
          rw [List.length_drop]
          simp only
          omega
        waiting := still.trans waiting
        starves }

/-! ### A reader that is opened -/

section

open ConcurrentLimitAccessor

variable {limit : ConcurrentLimitAccessor semaphore Unit} {i : Nat}
  {handles : List Nat}

theorem Handles.lt_length (linked : Handles lawful permits limit handles)
    (member : i ∈ handles) : i < limit.calls.length :=
  (List.getElem?_eq_some_iff.mp (linked.opened i member)).1

theorem Handles.answered {state : semaphore.State}
    (linked : Handles lawful permits limit handles)
    (sound : (limit.start .read () state).Sound lawful permits) (succeeded : Bool) :
    ∃ after, (limit.start .read () state).step
        (.answer limit.calls.length succeeded) = some after ∧
      Handles lawful permits after
        (handles ++ if succeeded then [limit.calls.length] else []) ∧
      after.waiting = limit.waiting := by
  have found : (limit.start .read () state).calls[limit.calls.length]? =
      some ⟨.read, (), .running⟩ := by simp [start]
  have earlier : ∀ j ∈ handles, (limit.start .read () state).calls[j]? =
      some ⟨.read, (), .opened⟩ := by
    intro j member
    rw [start, List.getElem?_append_left (linked.lt_length member)]
    exact linked.opened j member
  have different : ∀ j ∈ handles, limit.calls.length ≠ j :=
    fun j member => Nat.ne_of_gt (linked.lt_length member)
  have waits : (limit.start .read () state).waiting = limit.waiting :=
    waiting_append limit .read () .running (by simp)
  have busy : (limit.start .read () state).busy = handles.length + 1 := by
    rw [← linked.busy]
    exact busy_append limit ⟨.read, (), .running⟩
  cases succeeded with
  | true =>
      have stepped : (limit.start .read () state).step
            (.answer limit.calls.length true) =
          some ((limit.start .read () state).enter limit.calls.length .opened) := by
        simp [ConcurrentLimitAccessor.step, found, AccessFunction.keepsPermit]
      have moved := busy_enter found .opened
      refine ⟨_, stepped, ?_, ?_⟩
      · constructor
        · exact sound.step stepped
        · exact List.nodup_append.mpr ⟨linked.distinct, by simp,
            fun j member other last =>
              List.mem_singleton.mp last ▸ (different j member).symm⟩
        · intro j member
          rcases List.mem_append.mp member with old | new
          · rw [getElem?_enter_ne (different j old)]
            exact earlier j old
          · cases List.mem_singleton.mp new
            exact getElem?_enter_self found
        · rw [if_pos rfl, List.length_append, List.length_singleton, ← busy]
          exact Nat.add_right_cancel moved
      · exact (waiting_enter_of_found found (by simp) (by simp)).trans waits
  | false =>
      have stepped : (limit.start .read () state).step
            (.answer limit.calls.length false) =
          some (((limit.start .read () state).enter limit.calls.length
            .finished).dropPermit ⟨.read, (), .running⟩) := by
        simp [ConcurrentLimitAccessor.step, found]
      have calls := (dropPermit_eq
        ((limit.start .read () state).enter limit.calls.length .finished)
        (⟨.read, (), .running⟩ : LimitedCall Unit)).1
      have moved := busy_enter found .finished
      refine ⟨_, stepped, ?_, ?_⟩
      · rw [if_neg (by simp), List.append_nil]
        constructor
        · exact sound.step stepped
        · exact linked.distinct
        · intro j member
          rw [calls, getElem?_enter_ne (different j member)]
          exact earlier j member
        · simp only [LimitedCall.holdsPermit, AccessFunction.takesPermit,
            LimitedPhase.isActive, Bool.and_true, Bool.and_false,
            Bool.toNat_true, Bool.toNat_false, Nat.add_zero] at moved
          rw [busy_dropPermit]
          omega
      · rw [waiting_dropPermit]
        exact (waiting_enter_of_found found (by simp) (by simp)).trans waits

end

/-! ### What a poll does -/

section

open ConcurrentLimitAccessor

/-- The layer refuses a read that starves, and nothing else. -/
theorem pollOpening_starves (linked : self.Linked lawful permits)
    (starves : self.read.stream.starves permits = true) :
    ∃ later, self.pollOpening = some later ∧ later.Linked lawful permits ∧
      later.read = self.read := by
  have full : permits ≤ self.read.stream.readers := by
    simp only [BufferStream.starves, Bool.and_eq_true, decide_eq_true_eq]
      at starves
    exact starves.2
  have sound := linked.handles.sound
  have busy : self.limit.busy = self.read.stream.readers :=
    linked.handles.busy.trans linked.alive
  have waiting := linked.waiting
  cases asked : self.asked with
  | none =>
      rw [asked, Option.toList_none] at waiting
      have crowded : permits ≤
          self.limit.busy + self.limit.waiting.length := by
        rw [waiting, busy]
        exact full
      obtain ⟨left, _⟩ | ⟨_, state, called, _⟩ :=
        call_spec .read () sound rfl
      · exact absurd crowded (Nat.not_le_of_lt left)
      have waits : (self.limit.push .read ()).waiting =
          self.limit.waiting ++ [self.limit.calls.length] :=
        waiting_push self.limit
      rw [waiting] at waits
      refine ⟨{ self with
        limit := { self.limit.push .read () with semaphore := state }
        asked := some self.limit.calls.length }, ?_, ?_, rfl⟩
      · have phase : ({ self.limit.push .read () with semaphore := state } :
            ConcurrentLimitAccessor semaphore Unit).phase?
              self.limit.calls.length = some .waiting :=
          (phase?_push self.limit).trans (if_pos rfl)
        simp [pollOpening, asked, called, phase]
      · exact
          { handles :=
              { sound := sound.step called
                distinct := linked.handles.distinct
                opened := fun i member =>
                  (List.getElem?_append_left
                    (linked.handles.lt_length member)).trans
                    (linked.handles.opened i member)
                busy := (busy_append self.limit
                  ⟨.read, (), .waiting⟩).trans linked.handles.busy }
            alive := linked.alive
            waiting := waits
            starves := fun _ => starves }
  | some i =>
      rw [asked, Option.toList_some] at waiting
      have waits : i ∈ self.limit.waiting := by simp [waiting]
      obtain ⟨left, _⟩ | ⟨_, state, polled, _⟩ := poll_spec sound waits
      · omega
      refine ⟨{ self with
        limit := { self.limit with semaphore := state }
        asked := some i }, ?_, ?_, rfl⟩
      · have phase : ({ self.limit with semaphore := state } :
            ConcurrentLimitAccessor semaphore Unit).phase? i =
              some .waiting := mem_waiting_iff.mp waits
        simp [pollOpening, asked, polled, phase]
      · exact
          { handles :=
              { sound := sound.step polled
                distinct := linked.handles.distinct
                opened := linked.handles.opened
                busy := linked.handles.busy }
            alive := linked.alive
            waiting
            starves := fun _ => starves }

theorem pollOpening_fed (linked : self.Linked lawful permits)
    (opens : self.read.stream.opensReader = true)
    (fed : self.read.stream.starves permits = false) :
    self.pollOpening.map LimitedRead.read = self.read.step .poll ∧
      ∀ later, self.pollOpening = some later → later.Linked lawful permits := by
  have room : self.read.stream.readers < permits := by
    simp only [BufferStream.starves, opens, Bool.true_and,
      decide_eq_false_iff_not] at fed
    omega
  have sound := linked.handles.sound
  have busy : self.limit.busy = self.read.stream.readers :=
    linked.handles.busy.trans linked.alive
  have asked : self.asked = none := by
    cases asked : self.asked with
    | none => rfl
    | some i =>
        have starves := linked.starves (by rw [asked]; rfl)
        rw [fed] at starves
        cases starves
  have waiting := linked.waiting
  rw [asked, Option.toList_none] at waiting
  obtain ⟨_, state, called, _⟩ | ⟨full, _⟩ :=
    call_spec .read () sound rfl
  case inr =>
    rw [waiting, List.length_nil, busy] at full
    omega
  have phase : (self.limit.start .read () state).phase? self.limit.calls.length ≠
      some .waiting := by
    simp [start, phase?]
  cases stepped : self.read.step .poll with
  | none =>
      have stuck : self.pollOpening = none := by
        simp [pollOpening, asked, called, phase, stepped]
      rw [stuck]
      exact ⟨rfl, by simp⟩
  | some read =>
      obtain ⟨opened, decided⟩ : ∃ opened, opened =
          decide (self.read.stream.readers < read.stream.readers) := ⟨_, rfl⟩
      obtain ⟨limit, answered, more, still⟩ :=
        linked.handles.answered (sound.step called) opened
      have grows := ReaderRead.readers_poll stepped
      rw [opens, Bool.toNat_true] at grows
      have alive : read.stream.readers ≤ (self.handles ++
          if opened then [self.limit.calls.length] else []).length := by
        have length := linked.alive
        rw [List.length_append]
        cases opened with
        | true =>
            simp only [if_true, List.length_singleton]
            omega
        | false =>
            have few := of_decide_eq_false decided.symm
            omega
      obtain ⟨later, dropped, linked, same⟩ := dropHandles_spec
        { read
          limit
          asked := none
          handles := self.handles ++
            if opened then [self.limit.calls.length] else [] }
        more alive (still.trans waiting) (by simp)
      have goes : self.pollOpening = some later := by
        rw [← dropped]
        subst decided
        simp [pollOpening, asked, called, phase, stepped, answered]
      rw [goes]
      refine ⟨by rw [Option.map_some, same], ?_⟩
      intro other equal
      cases equal
      exact linked

omit [Read R] in
/-- A step of the read that opens no reader. -/
theorem dropHandles_of_read {read : ReaderRead R}
    (linked : self.Linked lawful permits)
    (fewer : read.stream.readers ≤ self.read.stream.readers)
    (starves : self.asked.isSome = true →
      read.stream.starves permits = true) :
    ∃ later, ({ self with read } : LimitedRead semaphore R).dropHandles =
        some later ∧
      later.Linked lawful permits ∧ later.read = read := by
  have alive : read.stream.readers ≤ self.handles.length := by
    rw [linked.alive]
    exact fewer
  exact dropHandles_spec { self with read } linked.handles alive
    linked.waiting starves

/-- The read is followed as long as it does not starve. -/
theorem step_fed (linked : self.Linked lawful permits)
    (fed : event = .poll → self.read.result = none →
      self.read.stream.starves permits = false) :
    (self.step event).map LimitedRead.read = self.read.step event ∧
      ∀ later, self.step event = some later → later.Linked lawful permits := by
  by_cases ended : (self.read.result.isSome || self.read.panicked) = true
  · have stuck : self.step event = none := by
      unfold step
      rw [if_pos ended]
    have still : self.read.step event = none := by
      unfold ReaderRead.step
      rw [if_pos ended]
    rw [stuck, still]
    exact ⟨rfl, by simp⟩
  · have running : self.read.result = none := by
      cases result : self.read.result with
      | none => rfl
      | some result => simp [result] at ended
    suffices passes : ¬ (event = .poll ∧
          self.read.stream.opensReader = true) →
        self.step event = (self.read.step event).bind fun read =>
          ({ self with read } : LimitedRead semaphore R).dropHandles by
      by_cases opening : event = .poll ∧ self.read.stream.opensReader = true
      · obtain ⟨rfl, opens⟩ := opening
        have goes : self.step .poll = self.pollOpening := by
          simp only [step, if_neg ended, opens, if_true]
        rw [goes]
        exact pollOpening_fed linked opens (fed rfl running)
      · rw [passes opening]
        cases stepped : self.read.step event with
        | none => exact ⟨rfl, by simp⟩
        | some read =>
            have fewer : read.stream.readers ≤ self.read.stream.readers := by
              by_cases polls : event = .poll
              · subst polls
                have grows := ReaderRead.readers_poll stepped
                have shut : self.read.stream.opensReader = false := by
                  simpa using opening
                simpa [shut] using grows
              · exact Nat.le_of_eq (ReaderRead.readers_finish stepped polls)
            have starves : self.asked.isSome = true →
                read.stream.starves permits = true := by
              intro asked
              have waits := linked.starves asked
              obtain ⟨_, ⟨rfl, _⟩ | ⟨stream, rfl, ⟨place, fuel, rfl,
                finished⟩ | ⟨fuel, rfl, finished⟩⟩⟩ :=
                ReaderRead.step_cases stepped
              · rw [fed rfl running] at waits
                cases waits
              · exact (BufferStream.starves_finish finished).trans waits
              · rw [BufferStream.starves_finishAwaited finished] at waits
                cases waits
            obtain ⟨later, dropped, kept, same⟩ :=
              dropHandles_of_read linked fewer starves
            rw [Option.bind_some, dropped]
            refine ⟨by rw [Option.map_some, same], ?_⟩
            intro other equal
            cases equal
            exact kept
    intro opening
    cases event with
    | poll =>
        have shut : self.read.stream.opensReader = false := by
          simpa using opening
        simp only [step, if_neg ended, shut, Bool.false_eq_true, if_false]
        rfl
    | finish place fuel =>
        simp only [step, if_neg ended]
        rfl
    | finishAwaited fuel =>
        simp only [step, if_neg ended]
        rfl

/-- Every step of the read is one that the limit allows, or the poll of a read
that starves; and every step that the limit allows can be made. -/
theorem step_spec (linked : self.Linked lawful permits) (event : ReadEvent) :
    (∀ later, self.step event = some later →
      later.Linked lawful permits ∧
        (self.read.limitedStep permits event = some later.read ∨
          later.read = self.read)) ∧
      ∀ read, self.read.limitedStep permits event = some read →
        ∃ later, self.step event = some later ∧ later.read = read := by
  by_cases starving :
      event = .poll ∧ self.read.stream.starves permits = true
  · obtain ⟨rfl, starves⟩ := starving
    have opens : self.read.stream.opensReader = true := by
      simp only [BufferStream.starves, Bool.and_eq_true] at starves
      exact starves.1
    refine ⟨?_, ?_⟩
    · intro later stepped
      obtain ⟨waits, polled, kept, same⟩ := pollOpening_starves linked starves
      unfold step at stepped
      split at stepped
      · cases stepped
      · have polls : self.pollOpening = some later := by
          simpa [opens] using stepped
        cases polled.symm.trans polls
        exact ⟨kept, .inr same⟩
    · intro read refused
      simp [ReaderRead.limitedStep, starves] at refused
  · have fed : event = .poll →
        self.read.stream.starves permits = false := by
      intro polls
      simpa [polls] using starving
    obtain ⟨followed, kept⟩ := step_fed linked fun polls _ => fed polls
    have limited : self.read.limitedStep permits event =
        self.read.step event := by
      cases event with
      | poll => exact ReaderRead.limitedStep_of_fed (fed rfl)
      | finish place fuel => rfl
      | finishAwaited fuel => rfl
    rw [limited, ← followed]
    refine ⟨?_, ?_⟩
    · intro later stepped
      rw [stepped]
      exact ⟨kept later stepped, .inl rfl⟩
    · intro read stepped
      obtain ⟨later, steps, same⟩ := Option.map_eq_some_iff.mp stepped
      exact ⟨later, steps, same⟩

end

/-! ## When a read hangs -/

omit [Read R] in
theorem linked_new (lawful : semaphore.Lawful) (permits : Nat)
    (ctx : ReadContext R) (start size : Nat) :
    (new semaphore permits
      (BufferStream.new ctx start (some size))).Linked lawful permits where
  handles :=
    { sound := ConcurrentLimitAccessor.sound_new lawful permits
      distinct := .nil
      opened := by simp [new]
      busy := rfl }
  alive := by
    simp only [new, ReaderRead.new, BufferStream.new]
    split <;> rfl
  waiting := rfl
  starves := by simp [new]

theorem linked_step (linked : self.Linked lawful permits)
    (stepped : self.step event = some later) : later.Linked lawful permits :=
  ((step_spec linked event).1 later stepped).1

theorem lifts {read : ReaderRead R} (linked : self.Linked lawful permits)
    (moved : self.read.limitedStep permits event = some read) :
    ∃ next, self.step event = some next ∧ next.read = read ∧
      next.Linked lawful permits := by
  obtain ⟨next, stepped, same⟩ := (step_spec linked event).2 read moved
  exact ⟨next, stepped, same, linked_step linked stepped⟩

/-- The layer makes a read hang where the limited steps do. -/
theorem hung_iff (linked : self.Linked lawful permits) :
    self.Hung ↔ self.read.Hung permits := by
  constructor
  · intro hung events read ran
    obtain ⟨later, followed, rfl, _⟩ := run_lifts lifts linked ran
    exact hung events later followed
  · intro hung events later ran
    obtain ⟨others, followed⟩ := run_stutters linked_step
      (fun linked stepped => ((step_spec linked _).1 _ stepped).2) linked ran
    exact hung others later.read followed

variable {ctx : ReadContext R} {start size : Nat} {content : Bytes}

/-- When a `ConcurrentLimitLayer` makes a read hang that has the layer for
itself.  A read of `size` bytes reaches a state in which nothing makes it return
exactly when it may have more tasks than there are permits and its range is more
than one chunk for each permit; without chunks, when there is no permit.  In all
other cases the layer changes no run of the read. -/
theorem hangs_iff (lawful : semaphore.Lawful) (permits : Nat)
    (serves : ctx.Serves Read.Yields content)
    (inside : start + size ≤ content.length) :
    ((∃ events state,
        run step (new semaphore permits
          (BufferStream.new ctx start (some size))) events = some state ∧
        state.Hung) ↔ ctx.Hangs permits size) ∧
      (¬ ctx.Hangs permits size → ∀ events,
        (run step (new semaphore permits
            (BufferStream.new ctx start (some size))) events).map
            LimitedRead.read =
          run ReaderRead.step
            (.new (BufferStream.new ctx start (some size))) events) := by
  have linked := linked_new lawful permits ctx start size
  have limited := ReaderRead.hung_iff_hangs permits serves inside
  refine ⟨⟨?_, ?_⟩, ?_⟩
  · rintro ⟨events, state, ran, hung⟩
    have reached : state.Linked lawful permits :=
      run_invariant_of_forall linked_step linked ran
    obtain ⟨others, followed⟩ := run_stutters linked_step
      (fun linked stepped => ((step_spec linked _).1 _ stepped).2) linked ran
    exact limited.1.mp ⟨others, state.read, followed,
      (hung_iff reached).mp hung⟩
  · intro hangs
    obtain ⟨events, read, ran, hung⟩ := limited.1.mpr hangs
    obtain ⟨state, followed, rfl, reached⟩ := run_lifts lifts linked ran
    exact ⟨events, state, followed, (hung_iff reached).mpr hung⟩
  · intro safe events
    have feeds : ReaderRead.Feeds content ctx start size
        (.new (BufferStream.new ctx start (some size))) :=
      ⟨ReaderRead.sound_new _ _ ctx start size,
        BufferStream.spread_new ctx start size⟩
    have respects : ∀ {state : LimitedRead semaphore R} (event : ReadEvent),
        state.Linked lawful permits ∧
          ReaderRead.Feeds content ctx start size state.read →
        (state.step event).map LimitedRead.read = state.read.step event ∧
          ∀ next, state.step event = some next →
            next.Linked lawful permits := by
      intro state event ⟨linked, feeds⟩
      apply step_fed linked
      intro _ running
      by_contra starves
      exact safe (ReaderRead.hangs_of_starves feeds.1 feeds.2 running
        (by simpa using starves))
    have preserved : ∀ {state : LimitedRead semaphore R} {event next},
        state.Linked lawful permits ∧
          ReaderRead.Feeds content ctx start size state.read →
        state.step event = some next →
        next.Linked lawful permits ∧
          ReaderRead.Feeds content ctx start size next.read := by
      intro state event next both stepped
      obtain ⟨followed, kept⟩ := respects event both
      rw [stepped, Option.map_some] at followed
      exact ⟨kept next stepped,
        ReaderRead.feeds_step serves inside both.2 followed.symm⟩
    exact run_map_of_invariant (fun event both => (respects event both).1)
      preserved ⟨linked, feeds⟩ events

/-- Four bytes in chunks of two, with two tasks: behind one permit the read can
hang, and behind two it makes the runs of one without a layer. -/
theorem hangs_chunks :
    let ctx := bytewiseContext ((OpReader.new.withChunk 2).withConcurrent 2)
    (∃ events state,
      run step (new Semaphore.fair 1 (BufferStream.new ctx 1 (some 4)))
        events = some state ∧ state.Hung) ∧
      ∀ events,
        (run step (new Semaphore.fair 2 (BufferStream.new ctx 1 (some 4)))
            events).map LimitedRead.read =
          run ReaderRead.step (.new (BufferStream.new ctx 1 (some 4)))
            events := by
  intro ctx
  have serves : ctx.Serves Read.Yields [1, 2, 3, 4, 5] :=
    fun _ _ _ => ⟨_, rfl, Read.yields_bytewise _⟩
  have inside : 1 + 4 ≤ ([1, 2, 3, 4, 5] : Bytes).length := by decide
  have hangs : ctx.Hangs 1 4 := ⟨by decide, by decide⟩
  have safe : ¬ ctx.Hangs 2 4 := fun given => absurd given.1 (by decide)
  exact ⟨(hangs_iff Semaphore.lawfulFair 1 serves inside).1.mpr hangs,
    (hangs_iff Semaphore.lawfulFair 2 serves inside).2 safe⟩

end LimitedRead

end OpenDal
