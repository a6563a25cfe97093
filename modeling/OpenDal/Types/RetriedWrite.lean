import OpenDal.Automaton
import OpenDal.Types.WriteGenerator

/-!
# Retried writes

By the contract of `oio::Write` an error means that no byte was written, so a
caller may issue a failed call again.  `WriteGenerator` takes its queue out
before it calls the writer of the service and does not put it back when that
call fails: what was queued was accepted earlier and is lost.

The asynchronous and the blocking generator have the same bodies and are one
definition here.
-/

namespace OpenDal

namespace OioWriter

/-- What one call adds to the bytes of the service. -/
def gained (answers : Nat → Except Error Unit) (call : WriterCall × Nat) :
    Bytes :=
  match call.1, answers call.2 with
  | .write bs, .ok () => bs.bytes
  | _, _ => []

/-- The bytes of the writes that were answered by `Ok`. -/
def received (w : OioWriter) : Bytes :=
  w.calls.zipIdx.flatMap (gained w.answers)

/-- The answer to the next call. -/
def nextAnswer (w : OioWriter) : Except Error Unit :=
  w.answers w.calls.length

theorem received_call (w : OioWriter) (request : WriterCall) :
    (w.call request).2.received =
      w.received ++ gained w.answers (request, w.calls.length) := by
  simp [received, call, List.zipIdx_append]

theorem received_write_ok {w : OioWriter} (bs : Buffer)
    (succeeded : w.nextAnswer = .ok ()) :
    (w.call (.write bs)).2.received = w.received ++ bs.bytes := by
  unfold nextAnswer at succeeded
  rw [received_call]
  simp [gained, succeeded]

theorem received_write_error {w : OioWriter} (bs : Buffer) {err : Error}
    (failed : w.nextAnswer = .error err) :
    (w.call (.write bs)).2.received = w.received := by
  unfold nextAnswer at failed
  rw [received_call]
  simp [gained, failed]

theorem received_close (w : OioWriter) :
    (w.call .close).2.received = w.received := by
  rw [received_call]
  simp [gained]

end OioWriter

/-! ## The effect of one call -/

namespace WriteGenerator

/-- What the service has and what is queued for it. -/
def held (generator : WriteGenerator) : Bytes :=
  generator.w.received ++ generator.buffer.bytes

/-- The last call of the writer of the service was a write. -/
def WroteLast (generator : WriteGenerator) : Prop :=
  ∃ bs, generator.w.calls.getLast? = some (.write bs)

theorem writeQueued_ok (generator : WriteGenerator)
    (succeeded : generator.w.nextAnswer = .ok ()) :
    ∃ later, generator.writeQueued = (.ok (), later) ∧
      later.chunkSize = generator.chunkSize ∧
      later.w.received = generator.held ∧ later.buffer = QueueBuf.new := by
  refine ⟨{ generator with
    w := (generator.w.call (.write generator.buffer.collect)).2
    buffer := QueueBuf.new }, ?_, rfl, ?_, rfl⟩
  · exact Prod.ext succeeded rfl
  · rw [OioWriter.received_write_ok _ succeeded, QueueBuf.bytes_collect]
    rfl

theorem writeQueued_error (generator : WriteGenerator) {err : Error}
    (failed : generator.w.nextAnswer = .error err) :
    ∃ later, generator.writeQueued = (.error err, later) ∧
      later.chunkSize = generator.chunkSize ∧
      later.w.received = generator.w.received ∧
      later.buffer = QueueBuf.new ∧ later.WroteLast := by
  refine ⟨{ generator with
    w := (generator.w.call (.write generator.buffer.collect)).2
    buffer := QueueBuf.new }, ?_, rfl, ?_, rfl, ?_⟩
  · exact Prod.ext failed rfl
  · exact OioWriter.received_write_error _ failed
  · exact ⟨generator.buffer.collect, by simp [OioWriter.call]⟩

/-- A write of these bytes hands the queue to the writer of the service. -/
def submits (generator : WriteGenerator) (bs : Buffer) : Bool :=
  match generator.chunkSize with
  | none => true
  | some chunkSize =>
      decide (chunkSize ≤ generator.buffer.len + bs.len) &&
        (!generator.exact || decide (chunkSize ≤ generator.buffer.len))

theorem submits_some {w : OioWriter} {chunkSize : Nat} {isExact : Bool}
    {buffer : QueueBuf} {bs : Buffer}
    (submits : submits ⟨w, some chunkSize, isExact, buffer⟩ bs = true) :
    ¬ buffer.len + bs.len < chunkSize ∧
      (isExact = true → chunkSize ≤ buffer.len) := by
  simp only [WriteGenerator.submits, Bool.and_eq_true, decide_eq_true_eq,
    Bool.or_eq_true, Bool.not_eq_true'] at submits
  obtain ⟨reached, whole⟩ := submits
  refine ⟨Nat.not_lt.mpr reached, ?_⟩
  intro same
  subst same
  simpa using whole

/-- A write that accepted `n` bytes of `bs`. -/
structure Accepts (generator : WriteGenerator) (bs : Buffer) (n : Nat)
    (later : WriteGenerator) : Prop where
  settings : later.chunkSize = generator.chunkSize
  held : later.held = generator.held ++ bs.bytes.take n

private theorem take_len_bytes (bs : Buffer) :
    bs.bytes.take bs.len = bs.bytes :=
  List.take_of_length_le (by simp)

theorem accepts_push (generator : WriteGenerator) (bs : Buffer) :
    generator.Accepts bs bs.len
      { generator with buffer := generator.buffer.push bs } := by
  constructor
  · rfl
  · rw [take_len_bytes]
    simp [held]

theorem accepts_truncate (generator : WriteGenerator) (bs : Buffer)
    (room : Nat) :
    generator.Accepts bs (bs.truncate room).len
      { generator with buffer := generator.buffer.push (bs.truncate room) } := by
  constructor
  · rfl
  · have cut : bs.bytes.take (bs.truncate room).len =
        (bs.truncate room).bytes := by
      rw [Buffer.len_truncate, Buffer.bytes_truncate, ← Buffer.length_bytes,
        ← List.take_eq_take_min]
    simp [held, cut]

theorem write_quiet {generator : WriteGenerator} {bs : Buffer}
    (quiet : generator.submits bs = false) :
    ∃ n later, generator.write bs = (.ok n, later) ∧
      generator.Accepts bs n later := by
  obtain ⟨w, chunkSize, isExact, buffer⟩ := generator
  cases chunkSize with
  | none => cases quiet
  | some chunkSize =>
      by_cases small : buffer.len + bs.len < chunkSize
      · refine ⟨_, _, ?_, accepts_push _ bs⟩
        simp only [write, small, if_true]
      · have reached : chunkSize ≤ buffer.len + bs.len := by omega
        simp only [submits, reached, decide_true, Bool.true_and,
          Bool.or_eq_false_iff, Bool.not_eq_false', decide_eq_false_iff_not]
          at quiet
        obtain ⟨rfl, room⟩ := quiet
        refine ⟨_, _, ?_, accepts_truncate _ bs (chunkSize - buffer.len)⟩
        simp only [write, small, if_false, Bool.not_true, Bool.false_eq_true,
          room]

theorem write_submits_ok {generator : WriteGenerator} {bs : Buffer}
    (unbuffered : generator.chunkSize = none → generator.buffer.bytes = [])
    (submits : generator.submits bs = true)
    (succeeded : generator.w.nextAnswer = .ok ()) :
    ∃ n later, generator.write bs = (.ok n, later) ∧
      generator.Accepts bs n later ∧
      (later.chunkSize = none → later.buffer.bytes = []) := by
  obtain ⟨w, chunkSize, isExact, buffer⟩ := generator
  cases chunkSize with
  | none =>
      have empty : buffer.bytes = [] := unbuffered rfl
      refine ⟨bs.len, ⟨(w.call (.write bs)).2, none, isExact, buffer⟩,
        ?_, ⟨rfl, ?_⟩, unbuffered⟩
      · simp only [write]
        exact Prod.ext (by
          show (w.nextAnswer.map fun _ => bs.len) = _
          rw [succeeded]
          rfl) rfl
      · rw [take_len_bytes]
        simp [held, empty, OioWriter.received_write_ok bs succeeded]
  | some chunkSize =>
      obtain ⟨small, whole⟩ := submits_some submits
      cases isExact with
      | false =>
          obtain ⟨later, handed, same, received, empty⟩ :=
            writeQueued_ok ⟨w, some chunkSize, false, buffer.push bs⟩
              succeeded
          refine ⟨bs.len, later, ?_, ⟨same, ?_⟩, ?_⟩
          · simp only [write, small, if_false, Bool.not_false, if_true, handed]
            rfl
          · rw [take_len_bytes]
            simp [held, received, empty]
          · intro none
            rw [empty]
            rfl
      | true =>
          have full : chunkSize ≤ buffer.len := whole rfl
          obtain ⟨later, handed, same, received, empty⟩ :=
            writeQueued_ok ⟨w, some chunkSize, true, buffer⟩ succeeded
          have accepts :=
            accepts_truncate later bs (chunkSize - later.buffer.len)
          refine ⟨(bs.truncate (chunkSize - later.buffer.len)).len, _, ?_,
            ⟨accepts.settings.trans same, ?_⟩, ?_⟩
          · simp only [write, small, if_false, Bool.not_true,
              Bool.false_eq_true, full, if_true, handed]
          · rw [accepts.held]
            simp [held, received, empty]
          · intro none
            cases (accepts.settings.trans same).symm.trans none

/-- A write whose call of the writer fails.  Only without a chunk size does
the queue survive. -/
theorem write_submits_error {generator : WriteGenerator} {bs : Buffer}
    {err : Error} (submits : generator.submits bs = true)
    (failed : generator.w.nextAnswer = .error err) :
    ∃ later, generator.write bs = (.error err, later) ∧
      later.chunkSize = generator.chunkSize ∧
      later.w.received = generator.w.received ∧
      later.buffer = if generator.chunkSize = none then generator.buffer
        else QueueBuf.new := by
  obtain ⟨w, chunkSize, isExact, buffer⟩ := generator
  cases chunkSize with
  | none =>
      refine ⟨⟨(w.call (.write bs)).2, none, isExact, buffer⟩, ?_, rfl,
        OioWriter.received_write_error bs failed, rfl⟩
      simp only [write]
      exact Prod.ext (by
        show (w.nextAnswer.map fun _ => bs.len) = _
        rw [failed]
        rfl) rfl
  | some chunkSize =>
      obtain ⟨small, whole⟩ := submits_some submits
      cases isExact with
      | false =>
          obtain ⟨later, handed, same, received, empty, _⟩ :=
            writeQueued_error ⟨w, some chunkSize, false, buffer.push bs⟩
              failed
          refine ⟨later, ?_, same, received, empty⟩
          simp only [write, small, if_false, Bool.not_false, if_true, handed]
          rfl
      | true =>
          have full : chunkSize ≤ buffer.len := whole rfl
          obtain ⟨later, handed, same, received, empty, _⟩ :=
            writeQueued_error ⟨w, some chunkSize, true, buffer⟩ failed
          refine ⟨later, ?_, same, received, empty⟩
          simp only [write, small, if_false, Bool.not_true,
            Bool.false_eq_true, full, if_true, handed]

/-- The queue has been handed over, and the writer was closed whatever it
answered. -/
structure Drains (generator later : WriteGenerator) : Prop where
  settings : later.chunkSize = generator.chunkSize
  received : later.w.received = generator.held
  emptied : later.buffer.bytes = []
  closedLast : ¬ later.WroteLast

theorem close_empty (generator : WriteGenerator)
    (empty : generator.buffer.bytes = []) (fuel : Nat) :
    ∃ later, generator.close (fuel + 1) =
        some (generator.w.nextAnswer, later) ∧ generator.Drains later := by
  have drained := (QueueBuf.isEmpty_iff generator.buffer).mpr empty
  refine ⟨{ generator with w := (generator.w.call .close).2 }, ?_, ?_⟩
  · simp only [close, drained, if_true]
    rfl
  · constructor
    · rfl
    · simp [held, empty, OioWriter.received_close]
    · exact empty
    · intro given
      obtain ⟨bs, last⟩ := given
      simp [OioWriter.call] at last

/-- Two iterations are enough for `close`.  It fails at the queue when the
queue holds bytes and the writer does not take them. -/
theorem close_cases (generator : WriteGenerator) (fuel : Nat) :
    (∃ answer later, generator.close (fuel + 2) = some (answer, later) ∧
      generator.Drains later ∧
      (generator.buffer.bytes = [] ∨ generator.w.nextAnswer = .ok ())) ∨
    (∃ err later, generator.close (fuel + 2) = some (.error err, later) ∧
      generator.buffer.bytes ≠ [] ∧
      generator.w.nextAnswer = .error err ∧
      later.chunkSize = generator.chunkSize ∧
      later.w.received = generator.w.received ∧
      later.buffer = QueueBuf.new ∧ later.WroteLast) := by
  by_cases empty : generator.buffer.bytes = []
  · obtain ⟨later, closed, drains⟩ := generator.close_empty empty (fuel + 1)
    exact .inl ⟨_, later, closed, drains, .inl empty⟩
  · have filled : ¬ generator.buffer.isEmpty = true :=
      fun none => empty ((QueueBuf.isEmpty_iff _).mp none)
    cases answer : generator.w.nextAnswer with
    | ok _ =>
        obtain ⟨between, handed, same, received, emptied⟩ :=
          generator.writeQueued_ok answer
        obtain ⟨later, closed, drains⟩ :=
          between.close_empty (by rw [emptied]; rfl) fuel
        have whole : between.held = generator.held := by
          simp [held, received, emptied]
        refine .inl ⟨between.w.nextAnswer, later, ?_, ⟨drains.settings.trans same,
          drains.received.trans whole, drains.emptied, drains.closedLast⟩,
          .inr rfl⟩
        simp only [close, filled, handed]
        exact closed
    | error err =>
        obtain ⟨later, handed, same, received, emptied, last⟩ :=
          generator.writeQueued_error answer
        refine .inr ⟨err, later, ?_, empty, rfl, same, received, emptied, last⟩
        simp only [close, filled, handed]
        rfl

theorem close_succ {generator : WriteGenerator} {fuel : Nat}
    {result : Except Error Unit × WriteGenerator}
    (closed : generator.close fuel = some result) :
    generator.close (fuel + 1) = some result := by
  induction fuel generalizing generator with
  | zero => cases closed
  | succ fuel induction =>
      rw [close] at closed ⊢
      split at closed
      · rw [if_pos (by assumption)]
        exact closed
      · rw [if_neg (by assumption)]
        split at closed
        · exact closed
        · exact induction closed

theorem write_error_cases {generator later : WriteGenerator} {bs : Buffer}
    {err : Error} (failed : generator.write bs = (.error err, later)) :
    generator.submits bs = true ∧ generator.w.nextAnswer = .error err := by
  by_cases submits : generator.submits bs = true
  · refine ⟨submits, ?_⟩
    cases answer : generator.w.nextAnswer with
    | error other =>
        obtain ⟨_, wrote, _⟩ := write_submits_error submits answer
        cases wrote.symm.trans failed
        rfl
    | ok _ =>
        cases chunk : generator.chunkSize with
        | none =>
            have succeeded := congrArg Prod.fst failed
            simp only [write, chunk, OioWriter.call] at succeeded
            rw [show generator.w.answers _ = _ from answer] at succeeded
            cases succeeded
        | some chunkSize =>
            obtain ⟨_, _, wrote, _⟩ :=
              write_submits_ok (by simp [chunk]) submits answer
            cases wrote.symm.trans failed
  · obtain ⟨_, _, wrote, _⟩ := write_quiet (Bool.not_eq_true _ ▸ submits)
    cases wrote.symm.trans failed

/-- A failed write keeps the queue only if there is none to keep. -/
theorem write_keeps_iff {generator later : WriteGenerator} {bs : Buffer}
    {err : Error} (failed : generator.write bs = (.error err, later)) :
    later.buffer.bytes = generator.buffer.bytes ↔
      generator.chunkSize = none ∨ generator.buffer.bytes = [] := by
  obtain ⟨submits, answer⟩ := write_error_cases failed
  obtain ⟨other, wrote, _, _, emptied⟩ := write_submits_error submits answer
  cases wrote.symm.trans failed
  rw [emptied]
  split
  · rename_i none
    simp [none]
  · rename_i chunked
    rw [or_iff_right chunked]
    exact eq_comm

theorem close_keeps_iff {generator later : WriteGenerator} {fuel : Nat}
    {err : Error} (failed : generator.close fuel = some (.error err, later))
    (wroteLast : later.WroteLast) :
    later.buffer.bytes = generator.buffer.bytes ↔
      generator.buffer.bytes = [] := by
  have again := close_succ (close_succ failed)
  rcases generator.close_cases fuel with
    ⟨answer, other, closed, drains, _⟩ |
    ⟨_, other, closed, filled, _, _, _, emptied, _⟩
  · cases closed.symm.trans again
    exact absurd wroteLast drains.closedLast
  · cases closed.symm.trans again
    rw [emptied]
    exact eq_comm

end WriteGenerator

/-! ## A caller that issues failed calls again -/

inductive GeneratorCall where
  | write (bs : Buffer)
  | close
deriving DecidableEq

/-- A generator, the bytes its calls have accepted, and the call that has to
be issued again. -/
structure RetriedWrite where
  generator : WriteGenerator
  accepted : Bytes
  failed : Option GeneratorCall
  closed : Bool

namespace RetriedWrite

def new (answers : Nat → Except Error Unit) (chunkSize : Option Nat)
    (exact : Bool) : RetriedWrite :=
  { generator := .new ⟨answers, []⟩ chunkSize exact
    accepted := []
    failed := none
    closed := false }

def perform (session : RetriedWrite) : GeneratorCall → Option RetriedWrite
  | .write bs =>
      match session.generator.write bs with
      | (.ok n, generator) =>
          some { session with
            generator
            accepted := session.accepted ++ bs.bytes.take n
            failed := none }
      | (.error _, generator) =>
          some { session with generator, failed := some (.write bs) }
  | .close =>
      match session.generator.close 2 with
      | none => none
      | some (.ok (), generator) =>
          some { session with generator, failed := none, closed := true }
      | some (.error _, generator) =>
          some { session with generator, failed := some .close }

/-- A failed call comes again before any other, and nothing follows a close
that has succeeded. -/
def step (session : RetriedWrite) (call : GeneratorCall) :
    Option RetriedWrite :=
  if session.closed = false ∧
      (session.failed = none ∨ session.failed = some call) then
    session.perform call
  else
    none

/-- The call hands a queue that is not empty to the writer of the service, and
the writer fails. -/
def Loses (session : RetriedWrite) (call : GeneratorCall) : Prop :=
  session.generator.buffer.bytes ≠ [] ∧
    (∃ err, session.generator.w.nextAnswer = .error err) ∧
    match call with
    | .write bs => session.generator.submits bs = true
    | .close => True

/-- Nothing is queued without a chunk size or after the close. -/
structure Sound (session : RetriedWrite) : Prop where
  unbuffered : session.generator.chunkSize = none →
    session.generator.buffer.bytes = []
  drained : session.closed = true → session.generator.buffer.bytes = []

/-- What the call accepted is held behind what was held before. -/
def Grows (session next : RetriedWrite) : Prop :=
  ∃ gained, next.accepted = session.accepted ++ gained ∧
    next.generator.held = session.generator.held ++ gained

/-- The call accepted nothing and dropped some of what was held. -/
def Drops (session next : RetriedWrite) : Prop :=
  next.accepted = session.accepted ∧
    next.generator.held.length < session.generator.held.length

/-- The effect of a call on the session. -/
structure Effect (session : RetriedWrite) (call : GeneratorCall)
    (next : RetriedWrite) : Prop where
  sound : next.Sound
  grows : ¬ session.Loses call → session.Grows next
  drops : session.Loses call → session.Drops next

/-- A failed call after which the queue is empty. -/
theorem effect_emptied {session next : RetriedWrite} {call : GeneratorCall}
    (accepted : next.accepted = session.accepted)
    (received : next.generator.w.received = session.generator.w.received)
    (emptied : next.generator.buffer.bytes = [])
    (loses : session.Loses call ↔ session.generator.buffer.bytes ≠ []) :
    session.Effect call next := by
  constructor
  · exact ⟨fun _ => emptied, fun _ => emptied⟩
  · intro kept
    have empty : session.generator.buffer.bytes = [] := by
      rw [loses] at kept
      exact not_not.mp kept
    exact ⟨[], by simp [accepted],
      by simp [WriteGenerator.held, received, emptied, empty]⟩
  · intro lost
    refine ⟨accepted, ?_⟩
    have filled := List.length_pos_iff.mpr (loses.mp lost)
    simp only [WriteGenerator.held, received, emptied, List.append_nil,
      List.length_append]
    omega

theorem effect_write {session next : RetriedWrite} {bs : Buffer}
    (sound : session.Sound) (opened : session.closed = false)
    (performed : session.perform (.write bs) = some next) :
    session.Effect (.write bs) next := by
  by_cases submits : session.generator.submits bs = true
  · cases answer : session.generator.w.nextAnswer with
    | ok _ =>
        obtain ⟨n, later, wrote, accepts, unbuffered⟩ :=
          WriteGenerator.write_submits_ok sound.unbuffered submits answer
        simp only [perform, wrote] at performed
        cases performed
        constructor
        · exact ⟨unbuffered, by simp [opened]⟩
        · intro _
          exact ⟨_, rfl, accepts.held⟩
        · intro given
          obtain ⟨_, ⟨err, failed⟩, _⟩ := given
          cases answer.symm.trans failed
    | error err =>
        obtain ⟨later, wrote, _, received, emptied⟩ :=
          WriteGenerator.write_submits_error submits answer
        simp only [perform, wrote] at performed
        cases performed
        refine effect_emptied rfl received ?_ ?_
        · rw [emptied]
          split
          · rename_i none
            exact sound.unbuffered none
          · rfl
        · simp [Loses, answer, submits]
  · obtain ⟨n, later, wrote, accepts⟩ :=
      WriteGenerator.write_quiet (Bool.not_eq_true _ ▸ submits)
    simp only [perform, wrote] at performed
    cases performed
    constructor
    · refine ⟨?_, by simp [opened]⟩
      intro none
      -- Without a chunk size every write is submitted.
      have quiet : session.generator.chunkSize = Option.none :=
        accepts.settings.symm.trans none
      simp [WriteGenerator.submits, quiet] at submits
    · intro _
      exact ⟨_, rfl, accepts.held⟩
    · intro given
      obtain ⟨_, _, submitted⟩ := given
      exact absurd submitted submits

theorem effect_close {session next : RetriedWrite}
    (performed : session.perform .close = some next) :
    session.Effect .close next := by
  rcases session.generator.close_cases 0 with
    ⟨answer, later, closed, drains, harmless⟩ |
    ⟨err, later, closed, filled, answer, _, received, emptied, _⟩
  · have effect : ∀ next : RetriedWrite, next.generator = later →
        next.accepted = session.accepted → session.Effect .close next := by
      intro next equal same
      subst equal
      constructor
      · exact ⟨fun _ => drains.emptied, fun _ => drains.emptied⟩
      · intro _
        refine ⟨[], by simp [same], ?_⟩
        rw [WriteGenerator.held, drains.received, drains.emptied]
      · intro given
        obtain ⟨filled, ⟨err, failed⟩, _⟩ := given
        rcases harmless with empty | succeeded
        · exact absurd empty filled
        · cases succeeded.symm.trans failed
    cases answer with
    | ok _ =>
        simp only [perform, closed] at performed
        cases performed
        exact effect _ rfl rfl
    | error err =>
        simp only [perform, closed] at performed
        cases performed
        exact effect _ rfl rfl
  · simp only [perform, closed] at performed
    cases performed
    refine effect_emptied rfl received ?_ ?_
    · rw [emptied]
      rfl
    · simp [Loses, answer, filled]

theorem effect_of_step {session next : RetriedWrite} {call : GeneratorCall}
    (sound : session.Sound) (stepped : session.step call = some next) :
    session.Effect call next := by
  unfold step at stepped
  split at stepped
  · rename_i admissible
    cases call with
    | write bs => exact effect_write sound admissible.1 stepped
    | close => exact effect_close stepped
  · cases stepped

/-- Everything accepted is at the service or in the queue. -/
structure Level (session : RetriedWrite) : Prop where
  sound : session.Sound
  held : session.generator.held = session.accepted

/-- Fewer bytes are at the service or in the queue than were accepted. -/
structure Gap (session : RetriedWrite) : Prop where
  sound : session.Sound
  missing : session.generator.held.length < session.accepted.length

theorem level_new (answers : Nat → Except Error Unit)
    (chunkSize : Option Nat) (exact : Bool) :
    (new answers chunkSize exact).Level :=
  ⟨⟨fun _ => rfl, fun _ => rfl⟩, rfl⟩

theorem Level.grows {session next : RetriedWrite} {call : GeneratorCall}
    (level : session.Level) (kept : ¬ session.Loses call)
    (stepped : session.step call = some next) : next.Level := by
  have effect := effect_of_step level.sound stepped
  obtain ⟨gained, accepted, held⟩ := effect.grows kept
  exact ⟨effect.sound, by rw [held, accepted, level.held]⟩

theorem Level.drops {session next : RetriedWrite} {call : GeneratorCall}
    (level : session.Level) (loses : session.Loses call)
    (stepped : session.step call = some next) : next.Gap := by
  have effect := effect_of_step level.sound stepped
  obtain ⟨accepted, fewer⟩ := effect.drops loses
  exact ⟨effect.sound, by rwa [accepted, ← level.held]⟩

theorem Gap.step {session next : RetriedWrite} {call : GeneratorCall}
    (gap : session.Gap) (stepped : session.step call = some next) :
    next.Gap := by
  have effect := effect_of_step gap.sound stepped
  refine ⟨effect.sound, ?_⟩
  have missing := gap.missing
  by_cases loses : session.Loses call
  · obtain ⟨accepted, fewer⟩ := effect.drops loses
    rw [accepted]
    omega
  · obtain ⟨gained, accepted, held⟩ := effect.grows loses
    simp only [accepted, held, List.length_append]
    omega

/-- A failed call keeps what is queued exactly when nothing is, or when the
buffer goes to the service directly.  A caller that issues failed calls again
has delivered all that was accepted exactly when no call has failed with a
queue in its hands. -/
theorem retry_lossless_iff (generator : WriteGenerator)
    (answers : Nat → Except Error Unit) (chunkSize : Option Nat)
    (exact : Bool) :
    (∀ (later : WriteGenerator) (bs : Buffer) (err : Error),
      generator.write bs = (.error err, later) →
      (later.buffer.bytes = generator.buffer.bytes ↔
        generator.chunkSize = none ∨ generator.buffer.bytes = [])) ∧
    (∀ (later : WriteGenerator) (fuel : Nat) (err : Error),
      generator.close fuel = some (.error err, later) → later.WroteLast →
      (later.buffer.bytes = generator.buffer.bytes ↔
        generator.buffer.bytes = [])) ∧
    (∀ (calls : List GeneratorCall) (session : RetriedWrite),
      Automaton.run step (new answers chunkSize exact) calls = some session →
      session.closed = true →
      (session.generator.w.received = session.accepted ↔
        Automaton.Along step (fun session call => ¬ session.Loses call)
          (new answers chunkSize exact) calls)) := by
  refine ⟨?_, ?_, ?_⟩
  · intro later bs err failed
    exact WriteGenerator.write_keeps_iff failed
  · intro later fuel err failed wroteLast
    exact WriteGenerator.close_keeps_iff failed wroteLast
  · intro calls session ran closed
    obtain ⟨whenKept, whenLost⟩ :=
      Automaton.run_level_or_gap
        (fun level kept stepped => level.grows kept stepped)
        (fun level lost stepped => level.drops (not_not.mp lost) stepped)
        (fun gap stepped => gap.step stepped)
        (level_new answers chunkSize exact) ran
    constructor
    · intro delivered
      by_contra offending
      have gap := whenLost offending
      have missing := gap.missing
      simp [WriteGenerator.held, delivered] at missing
    · intro along
      have level := whenKept along
      rw [← level.held, WriteGenerator.held, level.sound.drained closed,
        List.append_nil]

/-- The service fails once, at the call with the given number. -/
def failsOnce (number : Nat) (call : Nat) : Except Error Unit :=
  if call = number then .error (Error.new .unexpected "temporary") else .ok ()

/-- A failed write of a whole chunk that finds the queue empty. -/
theorem retry_lossless_iff_wholeChunk :
    ∃ session, Automaton.run step (new (failsOnce 0) (some 2) false)
        [.write (.fromBytes [1, 2]), .write (.fromBytes [1, 2]), .close] =
          some session ∧
      session.accepted = [1, 2] ∧
      session.generator.w.received = session.accepted := by
  refine ⟨_, rfl, rfl, ?_⟩
  obtain ⟨_, _, runs⟩ := retry_lossless_iff
    (new (failsOnce 0) (some 2) false).generator (failsOnce 0) (some 2) false
  have delivered := runs
    [.write (.fromBytes [1, 2]), .write (.fromBytes [1, 2]), .close] _ rfl rfl
  apply delivered.mpr
  refine ⟨?_, ?_, ?_, trivial⟩
  · intro assumed
    obtain ⟨filled, _⟩ := assumed
    exact filled rfl
  · intro assumed
    obtain ⟨filled, _⟩ := assumed
    exact filled rfl
  · intro assumed
    obtain ⟨filled, _⟩ := assumed
    exact filled rfl

/-- Two bytes are queued, and the write that completes the chunk fails once. -/
theorem retry_lossless_fails_queued :
    ∃ session, Automaton.run step (new (failsOnce 0) (some 4) false)
        [.write (.fromBytes [1, 2]), .write (.fromBytes [3, 4]),
          .write (.fromBytes [3, 4]), .close] = some session ∧
      session.closed = true ∧
      session.accepted = [1, 2, 3, 4] ∧
      session.generator.w.received = [3, 4] :=
  ⟨_, rfl, rfl, rfl, rfl⟩

end RetriedWrite

end OpenDal
