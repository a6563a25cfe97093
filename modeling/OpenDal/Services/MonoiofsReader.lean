import OpenDal.Automaton
import OpenDal.Mailbox
import OpenDal.Types.Buffer
import OpenDal.Types.Error

/-!
# Readers of monoiofs

A read is one request to the task that has the file, with the position of the
reader in it, and the position moves on with the answer.  A read that fails or
is dropped has not moved it, and the answer to a request that nobody waits for
goes nowhere.  What the reader returns therefore never skips or repeats a
byte.

Before a request is sent there is made room for all of the range that is left,
and where there is none the read panics.
-/

namespace OpenDal

open Automaton

/-- `ReaderRequest::Read`; `size` is the capacity of the buffer. -/
structure MonoiofsReader.ReaderRequest where
  pos : Nat
  size : Nat

/-- What happens to a request.  A read that succeeds may be short. -/
inductive MonoiofsReader.ReaderOutcome where
  | done (n : Nat)
  | failed (err : Error)
  | crashed

structure MonoiofsReader where
  pos : Nat
  endPos : Option Nat

namespace MonoiofsReader

def bufferSize : Nat := 2 * 1024 * 1024

/-- `read_at`, which reads nothing only behind the end of the file or into an
empty buffer. -/
def readAt (content : Bytes) (request : ReaderRequest) (n : Nat) : Bytes :=
  (content.drop request.pos).take (min (max n 1) request.size)

/-- One round of `worker_entrypoint`. -/
def serve (content : Bytes) (request : ReaderRequest) :
    ReaderOutcome → Bytes × Mailbox.Served (Except Error Bytes)
  | .done n => (content, .answers (.ok (readAt content request n)))
  | .failed err => (content, .answers (.error err))
  | .crashed => (content, .crashes)

abbrev ReadChannel : Type := Mailbox Bytes ReaderRequest (Except Error Bytes)

/-- `range.offset() + size` of the constructor; `none` is the panic of a debug
build. -/
def endPosition (debug : Bool) (offset size : Nat) : Option Nat :=
  if offset + size < 2 ^ 64 then some (offset + size)
  else if debug then none
  else some ((offset + size) % 2 ^ 64)

/-- `none` where the end of the range has been reached. -/
def nextRequest (self : MonoiofsReader) : Option ReaderRequest :=
  match self.endPos with
  | none => some ⟨self.pos, bufferSize⟩
  | some endPos =>
      if endPos ≤ self.pos then
        none
      else
        some ⟨self.pos, endPos - self.pos⟩

end MonoiofsReader

open MonoiofsReader in
/-- `reading` is whether a read waits for its answer. -/
structure MonoiofsReading where
  reader : MonoiofsReader
  channel : ReadChannel
  reading : Bool
  replies : List (Except Error Bytes)
  panicked : Bool

inductive MonoiofsReadEvent where
  /-- A read, for which `buf.reserve` finds `room` bytes at most. -/
  | read (room : Nat)
  | poll
  | drop
  | serve (outcome : MonoiofsReader.ReaderOutcome)
  | crash

namespace MonoiofsReading

open MonoiofsReader

def ofReader (content : Bytes) (reader : MonoiofsReader) : MonoiofsReading :=
  { reader
    channel := .new content
    reading := false
    replies := []
    panicked := false }

/-- `MonoiofsReader::new`, where the file could be opened; `none` is its
panic. -/
def new (debug : Bool) (content : Bytes) (offset : Nat) :
    Option Nat → Option MonoiofsReading
  | none => some (ofReader content ⟨offset, none⟩)
  | some size => (endPosition debug offset size).map fun endPos =>
      ofReader content ⟨offset, some endPos⟩

def step (session : MonoiofsReading) :
    MonoiofsReadEvent → Option MonoiofsReading
  | .read room =>
      if session.panicked || session.reading then
        none
      else
        match session.reader.nextRequest with
        | none => some { session with
            replies := session.replies ++ [.ok []] }
        | some request =>
            -- capacity overflow in `buf.reserve(size)`
            if room < request.size then
              some { session with panicked := true }
            else
              match session.channel.send request with
              | none => some { session with panicked := true }
              | some channel => some
                  { session with
                    channel
                    reading := true }
  | .poll =>
      if session.reading then
        match session.channel.receive with
        | (.pending, _) => some session
        | (.canceled, channel) => some
            { session with
              channel
              reading := false
              panicked := true }
        | (.answered (.error err), channel) => some
            { session with
              channel
              reading := false
              replies := session.replies ++ [.error err] }
        | (.answered (.ok bytes), channel) => some
            { session with
              reader :=
                { session.reader with
                  pos := session.reader.pos + bytes.length }
              channel
              reading := false
              replies := session.replies ++ [.ok bytes] }
      else
        none
  | .drop =>
      if session.reading then
        some { session with
          channel := session.channel.leave
          reading := false }
      else
        none
  | .serve outcome =>
      (session.channel.serve MonoiofsReader.serve outcome).map fun channel =>
        { session with channel }
  | .crash =>
      if session.channel.alive then
        some { session with channel := session.channel.crash }
      else
        none

/-! ## What has been returned -/

def returned (replies : List (Except Error Bytes)) : Bytes :=
  replies.flatMap fun reply => reply.toOption.getD []

/-- The bytes of the range that the file has. -/
def window (content : Bytes) (offset : Nat) (size : Option Nat) : Bytes :=
  match size with
  | none => content.drop offset
  | some size => (content.drop offset).take size

@[simp] theorem returned_append (replies : List (Except Error Bytes))
    (reply : Except Error Bytes) :
    returned (replies ++ [reply]) =
      returned replies ++ reply.toOption.getD [] := by
  simp [returned]

variable {content : Bytes} {offset : Nat} {size : Option Nat}

/-- The reader stands behind what it has returned. -/
structure Stands (content : Bytes) (offset : Nat) (size : Option Nat)
    (session : MonoiofsReading) : Prop where
  inFront : returned session.replies <+: window content offset size
  pos : session.reader.pos = offset + (returned session.replies).length
  range : session.reader.endPos = size.map (offset + ·)
  ends : ∀ before after, session.replies = before ++ .ok [] :: after →
    returned before = window content offset size

theorem readAt_spec {reader : MonoiofsReader} {front : Bytes}
    {request : ReaderRequest} {n : Nat}
    (inFront : front <+: window content offset size)
    (pos : reader.pos = offset + front.length)
    (range : reader.endPos = size.map (offset + ·))
    (asks : reader.nextRequest = some request) :
    front ++ readAt content request n <+: window content offset size ∧
      (readAt content request n = [] → front = window content offset size) := by
  obtain ⟨behind, split⟩ := inFront
  have rest : (window content offset size).drop front.length = behind := by
    rw [← split, List.drop_left]
  cases size with
  | none =>
      rw [Option.map_none] at range
      simp only [nextRequest, range] at asks
      cases asks
      have same : content.drop reader.pos = behind := by
        rw [← rest, window, List.drop_drop, pos]
      rw [readAt, same, ← split]
      refine ⟨?_, fun empty => ?_⟩
      · exact (List.prefix_append_right_inj front).mpr (List.take_prefix _ _)
      · have positive : min (max n 1) bufferSize ≠ 0 := by
          have large : 0 < bufferSize := by decide
          omega
        have nothing := (List.take_eq_nil_iff.mp empty).resolve_left positive
        rw [nothing, List.append_nil]
  | some size =>
      rw [Option.map_some] at range
      simp only [nextRequest, range] at asks
      split at asks
      · cases asks
      rename_i inside
      cases asks
      have left : offset + size - reader.pos = size - front.length := by omega
      have same : (content.drop reader.pos).take (size - front.length) =
          behind := by
        rw [← rest, window, List.drop_take, List.drop_drop, pos]
      have part : readAt content ⟨reader.pos, offset + size - reader.pos⟩ n =
          behind.take (max n 1) := by
        rw [readAt, ← same, left, List.take_take]
      rw [part, ← split]
      refine ⟨?_, fun empty => ?_⟩
      · exact (List.prefix_append_right_inj front).mpr (List.take_prefix _ _)
      · have nothing := (List.take_eq_nil_iff.mp empty).resolve_left (by omega)
        rw [nothing, List.append_nil]

theorem eq_window {reader : MonoiofsReader} {front : Bytes}
    (inFront : front <+: window content offset size)
    (pos : reader.pos = offset + front.length)
    (range : reader.endPos = size.map (offset + ·))
    (nothing : reader.nextRequest = none) :
    front = window content offset size := by
  cases size with
  | none =>
      rw [Option.map_none] at range
      simp [nextRequest, range] at nothing
  | some size =>
      rw [Option.map_some] at range
      simp only [nextRequest, range] at nothing
      split at nothing
      · rename_i reached
        apply inFront.eq_of_length_le
        have short : (window content offset (some size)).length ≤ size := by
          rw [window, List.length_take]
          exact Nat.min_le_left _ _
        omega
      · cases nothing

/-! ## Sessions -/

/-- The file stays what it is. -/
def unchanged (content : Bytes) : Mailbox.Contract Bytes ReaderRequest where
  holds file := file = content
  admits _ := True

theorem unchanged_kept : (unchanged content).Kept MonoiofsReader.serve := by
  rintro file request outcome rfl _
  cases outcome <;> rfl

inductive Stage (content : Bytes) (session : MonoiofsReading) : Prop where
  | idle (free : session.reading = false)
      (respects : session.channel.Respects (unchanged content)
        MonoiofsReader.serve none)
  | reading (busy : session.reading = true) (request : ReaderRequest)
      (asks : session.reader.nextRequest = some request)
      (respects : session.channel.Respects (unchanged content)
        MonoiofsReader.serve (some request))
      (calm : session.panicked = false)

structure Consistent (content : Bytes) (offset : Nat) (size : Option Nat)
    (session : MonoiofsReading) : Prop where
  stands : session.Stands content offset size
  stage : session.Stage content

variable {session later : MonoiofsReading}

theorem consistent_ofReader {reader : MonoiofsReader}
    (pos : reader.pos = offset)
    (range : reader.endPos = size.map (offset + ·)) :
    (ofReader content reader).Consistent content offset size where
  stands :=
    { inFront := List.nil_prefix
      pos := pos
      range := range
      ends := by simp [ofReader] }
  stage := .idle rfl (Mailbox.respects_new rfl)

theorem consistent_new {debug : Bool} {start : MonoiofsReading}
    (opened : new debug content offset size = some start)
    (fits : ∀ n, size = some n → offset + n < 2 ^ 64) :
    start.Consistent content offset size ∧ start.panicked = false := by
  cases size with
  | none =>
      cases opened
      exact ⟨consistent_ofReader rfl rfl, rfl⟩
  | some size =>
      rw [new, endPosition, if_pos (fits size rfl)] at opened
      cases opened
      exact ⟨consistent_ofReader rfl rfl, rfl⟩

theorem ends_concat {replies before after : List (Except Error Bytes)}
    {reply : Except Error Bytes}
    (same : replies ++ [reply] = before ++ .ok [] :: after) :
    before = replies ∧ reply = .ok [] ∨
      ∃ rest, replies = before ++ .ok [] :: rest := by
  rcases List.eq_nil_or_concat after with none | ⟨rest, last, concat⟩
  · subst none
    obtain ⟨front, empty⟩ := List.append_inj' same rfl
    exact .inl ⟨front.symm, List.singleton_inj.mp empty⟩
  · subst concat
    have split : replies ++ [reply] =
        (before ++ .ok [] :: rest) ++ [last] := by
      rw [same, List.concat_eq_append]
      simp
    exact .inr ⟨rest, (List.append_inj' split rfl).1⟩

theorem Stands.reply (stands : session.Stands content offset size)
    {bytes : Bytes}
    (fits : returned session.replies ++ bytes <+: window content offset size)
    (last : bytes = [] →
      returned session.replies = window content offset size)
    (replied : later.replies = session.replies ++ [.ok bytes])
    (moved : later.reader =
      { session.reader with pos := session.reader.pos + bytes.length }) :
    later.Stands content offset size where
  inFront := by
    rw [replied, returned_append]
    exact fits
  pos := by
    rw [replied, returned_append, moved, List.length_append, ← Nat.add_assoc,
      ← stands.pos]
    rfl
  range := by
    rw [moved]
    exact stands.range
  ends := by
    intro before after same
    rw [replied] at same
    rcases ends_concat same with ⟨rfl, empty⟩ | ⟨rest, earlier⟩
    · exact last (Except.ok.inj empty)
    · exact stands.ends before rest earlier

theorem Stands.fail (stands : session.Stands content offset size) {err : Error}
    (replied : later.replies = session.replies ++ [.error err])
    (still : later.reader = session.reader) :
    later.Stands content offset size where
  inFront := by
    rw [replied, returned_append]
    simpa [Except.toOption] using stands.inFront
  pos := by
    rw [replied, returned_append, still, stands.pos]
    simp [Except.toOption]
  range := by
    rw [still]
    exact stands.range
  ends := by
    intro before after same
    rw [replied] at same
    rcases ends_concat same with ⟨_, empty⟩ | ⟨rest, earlier⟩
    · cases empty
    · exact stands.ends before rest earlier

theorem Stands.same (stands : session.Stands content offset size)
    (replies : later.replies = session.replies)
    (still : later.reader = session.reader) :
    later.Stands content offset size where
  inFront := by rw [replies]; exact stands.inFront
  pos := by rw [replies, still]; exact stands.pos
  range := by rw [still]; exact stands.range
  ends := by rw [replies]; exact stands.ends

theorem Consistent.read (consistent : session.Consistent content offset size)
    {room : Nat} (stepped : session.step (.read room) = some later) :
    later.Consistent content offset size := by
  obtain ⟨stands, stage⟩ := consistent
  rw [step] at stepped
  split at stepped
  · cases stepped
  rename_i ready
  cases stage with
  | reading busy => simp [busy] at ready
  | idle free respects =>
      split at stepped
      · rename_i nothing
        cases stepped
        have all := eq_window stands.inFront stands.pos stands.range nothing
        refine ⟨stands.reply ?_ (fun _ => all) rfl rfl, .idle free respects⟩
        rw [List.append_nil]
        exact stands.inFront
      · rename_i request asks
        split at stepped
        · cases stepped
          exact ⟨stands.same rfl rfl, .idle free respects⟩
        split at stepped
        · cases stepped
          exact ⟨stands.same rfl rfl, .idle free respects⟩
        · rename_i channel sent
          cases stepped
          refine ⟨stands.same rfl rfl, .reading rfl request asks
            (respects.send trivial sent) ?_⟩
          simp only [Bool.or_eq_true, not_or, Bool.not_eq_true] at ready
          exact ready.1

theorem Consistent.poll (consistent : session.Consistent content offset size)
    (stepped : session.step .poll = some later) :
    later.Consistent content offset size := by
  obtain ⟨stands, stage⟩ := consistent
  cases stage with
  | idle free => simp [step, free] at stepped
  | reading busy request asks respects calm =>
      simp only [step, busy, if_true] at stepped
      rcases respects.receive with ⟨received, _, _⟩ |
        ⟨channel, received, stopped, left⟩ |
        ⟨result, channel, before, outcome, received, held, same, replied, _,
          nothing, left⟩
      · rw [received] at stepped
        cases stepped
        exact ⟨stands, .reading busy request asks respects calm⟩
      · rw [received] at stepped
        cases stepped
        exact ⟨stands.same rfl rfl, .idle rfl left⟩
      · rw [received] at stepped
        cases outcome with
        | crashed => cases replied
        | failed err =>
            obtain rfl : result = .error err := (Option.some.inj replied).symm
            cases stepped
            exact ⟨stands.fail rfl rfl, .idle rfl left⟩
        | done n =>
            obtain rfl : result = .ok (readAt before request n) :=
              (Option.some.inj replied).symm
            cases stepped
            cases held
            obtain ⟨fits, last⟩ := readAt_spec stands.inFront stands.pos
              stands.range asks
            exact ⟨stands.reply fits last rfl rfl, .idle rfl left⟩

theorem Consistent.step (consistent : session.Consistent content offset size)
    {event : MonoiofsReadEvent} (stepped : session.step event = some later) :
    later.Consistent content offset size := by
  cases event with
  | read room => exact consistent.read stepped
  | poll => exact consistent.poll stepped
  | drop =>
      obtain ⟨stands, stage⟩ := consistent
      simp only [MonoiofsReading.step] at stepped
      split at stepped
      · rename_i busy
        cases stepped
        refine ⟨stands.same rfl rfl, ?_⟩
        cases stage with
        | idle free => simp [free] at busy
        | reading _ request asks respects calm =>
            exact .idle rfl respects.leave
      · cases stepped
  | serve outcome =>
      obtain ⟨stands, stage⟩ := consistent
      obtain ⟨channel, served, same⟩ := Option.map_eq_some_iff.mp stepped
      cases same
      refine ⟨stands.same rfl rfl, ?_⟩
      cases stage with
      | idle free respects =>
          exact .idle free (respects.serve unchanged_kept served)
      | reading busy request asks respects calm =>
          exact .reading busy request asks
            (respects.serve unchanged_kept served) calm
  | crash =>
      obtain ⟨stands, stage⟩ := consistent
      simp only [MonoiofsReading.step] at stepped
      split at stepped
      · cases stepped
        refine ⟨stands.same rfl rfl, ?_⟩
        cases stage with
        | idle free respects => exact .idle free respects.crash
        | reading busy request asks respects calm =>
            exact .reading busy request asks respects.crash calm
      · cases stepped

/-! ## Panics -/

/-- There is room for what is left of the range. -/
def Roomy (session : MonoiofsReading) : MonoiofsReadEvent → Prop
  | .read room => ∀ request, session.reader.nextRequest = some request →
      request.size ≤ room
  | _ => True

/-- A panic is that of the worker. -/
def Stopped (session : MonoiofsReading) : Prop :=
  session.panicked = true → session.channel.alive = false

theorem Stopped.step (stopped : session.Stopped)
    (consistent : session.Consistent content offset size)
    {event : MonoiofsReadEvent} (roomy : session.Roomy event)
    (stepped : session.step event = some later) : later.Stopped := by
  cases event with
  | read room =>
      simp only [MonoiofsReading.step] at stepped
      split at stepped
      · cases stepped
      split at stepped
      · cases stepped
        exact stopped
      · rename_i request asks
        rw [if_neg (Nat.not_lt.mpr (roomy request asks))] at stepped
        split at stepped
        · rename_i unsent
          cases stepped
          exact fun _ => Mailbox.dead_of_send unsent
        · rename_i ready _ _ _ _
          cases stepped
          intro panics
          simp [show session.panicked = true from panics] at ready
  | poll =>
      cases consistent.stage with
      | idle free => simp [MonoiofsReading.step, free] at stepped
      | reading busy request asks respects calm =>
          simp only [MonoiofsReading.step, busy, if_true] at stepped
          have quiet : session.panicked ≠ true := by simp [calm]
          rcases respects.receive with ⟨received, _, _⟩ |
            ⟨channel, received, dead, _⟩ |
            ⟨result, channel, _, _, received, _⟩
          · rw [received] at stepped
            cases stepped
            exact stopped
          · rw [received] at stepped
            cases stepped
            exact fun _ => dead
          · rw [received] at stepped
            cases result with
            | error err =>
                cases stepped
                exact fun panics => absurd panics quiet
            | ok bytes =>
                cases stepped
                exact fun panics => absurd panics quiet
  | drop =>
      simp only [MonoiofsReading.step] at stepped
      split at stepped
      · cases stepped
        exact stopped
      · cases stepped
  | serve outcome =>
      obtain ⟨channel, served, same⟩ := Option.map_eq_some_iff.mp stepped
      cases same
      intro panics
      -- the channel of a worker that is gone is empty
      obtain ⟨_, _, _, queued, _⟩ := Mailbox.serve_cases served
      cases consistent.stage with
      | idle free respects =>
          rw [respects.stopped (stopped panics)] at queued
          cases queued
      | reading busy request asks respects calm =>
          rw [respects.stopped (stopped panics)] at queued
          cases queued
  | crash =>
      simp only [MonoiofsReading.step] at stepped
      split at stepped
      · cases stepped
        exact fun _ => rfl
      · cases stepped

end MonoiofsReading

open MonoiofsReading in
/-- In every run of a reader of monoiofs, whatever reads fail or are dropped
and however short the others are, what it has returned is the beginning of its
range of the file, without a gap and without a repetition.  It returns nothing
only when it has returned all of that, and if there is always room for what is
left of the range it panics only when the worker is gone. -/
theorem MonoiofsReader.reads_in_place {debug : Bool} {content : Bytes}
    {offset : Nat} {size : Option Nat}
    (fits : ∀ n, size = some n → offset + n < 2 ^ 64)
    {start session : MonoiofsReading}
    (opened : new debug content offset size = some start)
    {events : List MonoiofsReadEvent}
    (ran : Automaton.run step start events = some session) :
    returned session.replies <+: window content offset size ∧
    (∀ before after, session.replies = before ++ .ok [] :: after →
      returned before = window content offset size) ∧
    (Automaton.Along step Roomy start events →
      session.panicked = true → session.channel.alive = false) := by
  obtain ⟨begins, calm⟩ := consistent_new opened fits
  have consistent : session.Consistent content offset size :=
    Automaton.run_invariant_of_forall
      (fun consistent => consistent.step) begins ran
  refine ⟨consistent.stands.inFront, consistent.stands.ends, ?_⟩
  intro roomy
  have quiet : start.Stopped := fun panics => by
    rw [calm] at panics
    cases panics
  have all := Automaton.run_invariant_along
    (fun {state event next}
        (holds : state.Consistent content offset size ∧ state.Stopped)
        (roomy : state.Roomy event) stepped =>
      (⟨holds.1.step stepped, holds.2.step holds.1 roomy stepped⟩ :
        next.Consistent content offset size ∧ next.Stopped))
    ⟨begins, quiet⟩ roomy ran
  exact all.2

namespace MonoiofsReading

/-- A read is dropped, the next one is short, and the last one is at the end of
the file. -/
def droppedRead : List MonoiofsReadEvent :=
  [.read 9, .drop, .read 9, .serve (.done 2), .serve (.done 1), .poll, .read 9,
    .serve (.done 9), .poll, .read 9, .serve (.done 1), .poll]

end MonoiofsReading

open MonoiofsReading in
theorem MonoiofsReader.reads_in_place_dropped :
    ∃ start session, new true [1, 2, 3, 4] 1 (some 9) = some start ∧
      Automaton.run step start droppedRead = some session ∧
        session.replies = [.ok [2], .ok [3, 4], .ok []] ∧
        returned [.ok [2], .ok [3, 4]] = window [1, 2, 3, 4] 1 (some 9) := by
  obtain ⟨session, ran, replies⟩ : ∃ session,
      Automaton.run step (ofReader [1, 2, 3, 4] ⟨1, some 10⟩) droppedRead =
        some session ∧ session.replies = [.ok [2], .ok [3, 4], .ok []] :=
    ⟨_, rfl, rfl⟩
  have fits : ∀ n, some 9 = some n → 1 + n < 2 ^ 64 := by
    intro n same
    cases same
    decide
  have opened : new true [1, 2, 3, 4] 1 (some 9) =
      some (ofReader [1, 2, 3, 4] ⟨1, some 10⟩) := rfl
  have ends := (reads_in_place fits opened ran).2.1
  exact ⟨_, session, opened, ran, replies,
    ends [.ok [2], .ok [3, 4]] [] replies⟩

open MonoiofsReading in
-- there is no room for the range
example : ((new false [] 0 (some (2 ^ 64 - 1))).bind fun start =>
    Automaton.run step start [.read (2 ^ 63 - 1)]).map panicked =
    some true := rfl

end OpenDal
