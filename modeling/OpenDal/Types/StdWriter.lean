import OpenDal.Automaton
import OpenDal.Raw.FlexBuf
import OpenDal.Types.WriteGenerator

/-!
# `StdWriter`

`std::io::Write` over the generator.  Small writes are collected in a
`FlexBuf`; a frozen buffer is handed to the generator, which may accept only
the front part of it when chunks are exact.  `write` advances by what was
accepted, `flush` takes it that everything was.
-/

namespace OpenDal

structure StdWriter where
  w : WriteHandle
  buf : FlexBuf

namespace StdWriter

def capacity : Nat := 256 * 1024

theorem capacity_positive : 0 < capacity := by decide

def new (w : WriteGenerator) : StdWriter :=
  { w := .opened w
    buf := .new capacity capacity_positive }

def closedError : IoError :=
  ⟨.other, .inl "writer has been closed"⟩

/-- The loop of `write`: hand over frozen bytes until something can be put.
`none` is a panic or a bound that is too small. -/
def write : Nat → StdWriter → Bytes → Option (Except IoError Nat × StdWriter)
  | 0, _, _ => none
  | fuel + 1, writer, bs =>
      match writer.w with
      | .closed _ => some (.error closedError, writer)
      | .opened w =>
          match writer.buf.put bs with
          | (n + 1, buf) => some (.ok (n + 1), { writer with buf })
          | (0, buf) => do
              let frozen ← buf.get
              match w.write (.fromBytes frozen) with
              | (.error err, w) => some (.error (.other err), ⟨.opened w, buf⟩)
              | (.ok n, w) =>
                  let buf ← buf.advance n
                  write fuel ⟨.opened w, buf⟩ bs

/-- The loop of `flush`.  The number of bytes that the generator has accepted
is not looked at. -/
def flush : Nat → StdWriter → Option (Except IoError Unit × StdWriter)
  | 0, _ => none
  | fuel + 1, writer =>
      match writer.w with
      | .closed _ => some (.error closedError, writer)
      | .opened w =>
          let buf := writer.buf.freeze
          match buf.get with
          | none => some (.ok (), { writer with buf })
          | some frozen =>
              match w.write (.fromBytes frozen) with
              | (.error err, w) => some (.error (.other err), ⟨.opened w, buf⟩)
              | (.ok _, w) => flush fuel ⟨.opened w, buf.clean⟩

def close (fuel : Nat) (writer : StdWriter) :
    Option (Except IoError Unit × StdWriter) := do
  match ← writer.flush fuel with
  | (.error err, writer) => some (.error err, writer)
  | (.ok (), writer) =>
      match writer.w with
      | .closed _ => some (.error closedError, writer)
      | .opened w =>
          match ← w.close fuel with
          | (.error err, w) =>
              some (.error (.other err), { writer with w := .opened w })
          | (.ok (), w) =>
              some (.ok (), { writer with w := .closed w.w.calls })

end StdWriter

/-! ## How much the generator takes -/

namespace WriteGenerator

/-- The bytes that the generator accepts of one buffer at most; `none` is no
bound.  A queue that holds a whole chunk is handed over first. -/
def room (generator : WriteGenerator) : Option Nat :=
  match generator.chunkSize with
  | none => none
  | some chunkSize =>
      if generator.exact then
        if chunkSize ≤ generator.buffer.len then some chunkSize
        else some (chunkSize - generator.buffer.len)
      else
        none

/-- A buffer of this size is accepted whole. -/
def Takes (generator : WriteGenerator) (size : Nat) : Prop :=
  ∀ room, generator.room = some room → size ≤ room

private theorem eq_of_map_ok {answer : Except Error Unit} {size n : Nat}
    (mapped : answer.map (fun _ => size) = .ok n) : n = size := by
  cases answer with
  | error err => cases mapped
  | ok _ =>
      cases mapped
      rfl

/-- What is accepted of a buffer is all of it exactly when there is room. -/
theorem write_takes_iff {generator later : WriteGenerator} {bs : Buffer}
    {n : Nat} (wrote : generator.write bs = (.ok n, later)) :
    n = bs.len ↔ generator.Takes bs.len := by
  obtain ⟨w, chunkSize, isExact, buffer⟩ := generator
  cases chunkSize with
  | none =>
      have accepted : n = bs.len := eq_of_map_ok (congrArg Prod.fst wrote)
      simp [Takes, room, accepted]
  | some chunkSize =>
      by_cases small : buffer.len + bs.len < chunkSize
      · simp only [write, small, if_true, Prod.mk.injEq, Except.ok.injEq]
          at wrote
        simp only [← wrote.1, Takes, room, true_iff]
        intro size limit
        split at limit
        · split at limit
          · cases limit
            omega
          · cases limit
            omega
        · cases limit
      · cases isExact with
        | false =>
            simp only [write, small, if_false, Bool.not_false, if_true] at wrote
            have accepted : n = bs.len := eq_of_map_ok (congrArg Prod.fst wrote)
            simp [Takes, room, accepted]
        | true =>
            by_cases full : chunkSize ≤ buffer.len
            · simp only [write, small, if_false, Bool.not_true,
                Bool.false_eq_true, full, if_true, writeQueued,
                QueueBuf.take] at wrote
              split at wrote
              · cases wrote
              · simp only [Prod.mk.injEq, Except.ok.injEq] at wrote
                rw [← wrote.1, Buffer.len_truncate]
                simp only [Takes, room, if_true, full, Option.some.injEq,
                  forall_eq', QueueBuf.len_new]
                omega
            · simp only [write, small, if_false, Bool.not_true,
                Bool.false_eq_true, full, Prod.mk.injEq, Except.ok.injEq]
                at wrote
              rw [← wrote.1, Buffer.len_truncate]
              simp only [Takes, room, if_true, full, if_false,
                Option.some.injEq, forall_eq']
              omega

end WriteGenerator

/-! ## Sessions -/

namespace StdSession

/-- A slice that is not empty. -/
structure Slice where
  bytes : Bytes
  nonempty : bytes ≠ []

inductive Call where
  | write (slice : Slice)
  | flush

end StdSession

/-- A writer and the bytes that its `write` calls have accepted. -/
structure StdSession where
  writer : StdWriter
  accepted : Bytes

namespace StdSession

def new (generator : WriteGenerator) : StdSession :=
  ⟨.new generator, []⟩

def step (fuel : Nat) (session : StdSession) : Call → Option StdSession
  | .write slice =>
      match session.writer.write fuel slice.bytes with
      | some (.ok n, writer) =>
          some ⟨writer, session.accepted ++ slice.bytes.take n⟩
      | _ => none
  | .flush =>
      match session.writer.flush fuel with
      | some (.ok (), writer) => some { session with writer }
      | _ => none

end StdSession

/-! ## What the writer carries -/

namespace StdWriter

/-- The frozen bytes would be accepted whole. -/
def Fits (writer : StdWriter) : Prop :=
  match writer.w with
  | .opened generator => generator.Takes writer.buf.bytes.length
  | .closed _ => True

/-- `delivered` is what the generator has accepted. -/
def Carries (chunkSize : Option Nat) (exact : Bool) (delivered : Bytes)
    (writer : StdWriter) : Prop :=
  ∃ generator writes, writer.w = .opened generator ∧
    generator.Consistent chunkSize exact delivered writes ∧
    writer.buf.cap = capacity

variable {chunkSize : Option Nat} {exact : Bool} {delivered : Bytes}
  {writer : StdWriter}

/-- What one iteration of the loops hands over: the generator accepts a front
part of the frozen bytes, and nothing only in chunks of no bytes. -/
theorem Carries.hands {frozen : Bytes}
    (carries : Carries chunkSize exact delivered writer)
    (current : writer.buf.freeze.get = some frozen) :
    ∃ generator passed n, writer.w = .opened generator ∧
      generator.write (.fromBytes frozen) = (.ok n, passed) ∧
      n ≤ frozen.length ∧
      (0 < n ↔ ¬ WriteGenerator.Stuck chunkSize exact) ∧
      (n = frozen.length ↔ writer.Fits) ∧
      ∀ rest : FlexBuf, rest.cap = writer.buf.cap →
        Carries chunkSize exact (delivered ++ frozen.take n)
          ⟨.opened passed, rest⟩ := by
  obtain ⟨w, buf⟩ := writer
  obtain ⟨generator, writes, rfl, consistent, capped⟩ := carries
  obtain ⟨whole, filled, _⟩ := FlexBuf.get_eq_some current
  rw [FlexBuf.bytes_freeze] at whole
  obtain ⟨n, passed, written, accepted, bound, progress, _, kept⟩ :=
    consistent.accepts (.fromBytes frozen)
  have takes := WriteGenerator.write_takes_iff accepted
  rw [Buffer.len_fromBytes] at bound progress takes
  rw [Buffer.bytes_fromBytes] at kept
  refine ⟨generator, passed, n, rfl, accepted, bound, progress filled, ?_, ?_⟩
  · simp only [Fits, whole]
    exact takes
  · intro rest sameCap
    exact ⟨passed, written, rfl, kept, sameCap.trans capped⟩

/-- A write that returns has taken a front part of the slice, and the loop
has lost nothing. -/
theorem Carries.wrote {fuel : Nat} {bs : Bytes}
    {result : Except IoError Nat} {later : StdWriter}
    (carries : Carries chunkSize exact delivered writer)
    (wrote : writer.write fuel bs = some (result, later)) :
    ∃ n more, result = .ok n ∧ 0 < n ∧ n ≤ bs.length ∧
      Carries chunkSize exact (delivered ++ more) later ∧
      more ++ later.buf.bytes = writer.buf.bytes ++ bs.take n := by
  induction fuel generalizing writer delivered with
  | zero => cases wrote
  | succ fuel induction =>
      cases current : writer.buf.get with
      | none =>
          obtain ⟨generator, writes, opened, consistent, capped⟩ := carries
          by_cases nonempty : bs = []
          · -- Nothing is put, and nothing is frozen.
            simp [StdWriter.write, opened, nonempty, FlexBuf.put_nil,
              current] at wrote
          · obtain ⟨n, buf, put, progress, bound, bytes, sameCap⟩ :=
              FlexBuf.put_filling current nonempty
            obtain ⟨n, rfl⟩ := Nat.exists_eq_succ_of_ne_zero (by omega : n ≠ 0)
            simp only [StdWriter.write, opened, put, Option.some.injEq,
              Prod.mk.injEq] at wrote
            obtain ⟨rfl, rfl⟩ := wrote
            refine ⟨n + 1, [], rfl, progress, bound, ?_, by simpa using bytes⟩
            rw [List.append_nil]
            exact ⟨generator, writes, rfl, consistent, sameCap.trans capped⟩
      | some frozen =>
          obtain ⟨whole, filled, _⟩ := FlexBuf.get_eq_some current
          obtain ⟨generator, passed, n, opened, accepted, bound, _, _,
            carried⟩ := carries.hands (FlexBuf.get_freeze_frozen current)
          obtain ⟨rest, advanced, sameCap, restBytes, _⟩ :=
            FlexBuf.advance_frozen current bound
          simp only [StdWriter.write, opened, FlexBuf.put_frozen current,
            current, Option.bind_eq_bind, Option.bind_some, accepted,
            advanced] at wrote
          obtain ⟨m, more, same, progress, within, carries, bytes⟩ :=
            induction (carried rest sameCap) wrote
          refine ⟨m, frozen.take n ++ more, same, progress, within, ?_, ?_⟩
          · rw [← List.append_assoc]
            exact carries
          · rw [List.append_assoc, bytes, restBytes, ← List.append_assoc,
              List.take_append_drop, whole]

/-- Where the generator can move on, every iteration of `write` that does not
return hands over at least one byte. -/
theorem Carries.write_returns
    (free : ¬ WriteGenerator.Stuck chunkSize exact)
    (carries : Carries chunkSize exact delivered writer)
    {bs : Bytes} (nonempty : bs ≠ []) {fuel : Nat}
    (enough : writer.buf.bytes.length < fuel) :
    ∃ n later, writer.write fuel bs = some (.ok n, later) := by
  induction fuel generalizing writer delivered with
  | zero => omega
  | succ fuel induction =>
      cases current : writer.buf.get with
      | none =>
          obtain ⟨generator, _, opened, _⟩ := carries
          obtain ⟨n, buf, put, progress, _⟩ :=
            FlexBuf.put_filling current nonempty
          obtain ⟨n, rfl⟩ := Nat.exists_eq_succ_of_ne_zero (by omega : n ≠ 0)
          exact ⟨n + 1, { writer with buf },
            by simp only [StdWriter.write, opened, put]⟩
      | some frozen =>
          obtain ⟨whole, filled, _⟩ := FlexBuf.get_eq_some current
          obtain ⟨generator, passed, n, opened, accepted, bound, progress, _,
            carried⟩ := carries.hands (FlexBuf.get_freeze_frozen current)
          obtain ⟨rest, advanced, sameCap, restBytes, _⟩ :=
            FlexBuf.advance_frozen current bound
          have shorter : rest.bytes.length < fuel := by
            have moved := progress.mpr free
            rw [whole] at enough
            rw [restBytes, List.length_drop]
            omega
          obtain ⟨m, later, finished⟩ :=
            induction (carried rest sameCap) shorter
          refine ⟨m, later, ?_⟩
          simp only [StdWriter.write, opened, FlexBuf.put_frozen current,
            current, Option.bind_eq_bind, Option.bind_some, accepted,
            advanced]
          exact finished

/-- After `flush` the buffer is empty.  The generator has what it accepted of
it, which is everything exactly when there was room. -/
theorem Carries.flush (carries : Carries chunkSize exact delivered writer)
    (fuel : Nat) :
    ∃ n later, writer.flush (fuel + 2) = some (.ok (), later) ∧
      Carries chunkSize exact (delivered ++ writer.buf.bytes.take n) later ∧
      later.buf.bytes = [] ∧
      (n = writer.buf.bytes.length ∧ writer.Fits ∨
        n < writer.buf.bytes.length ∧ ¬ writer.Fits) := by
  cases current : writer.buf.freeze.get with
  | none =>
      obtain ⟨generator, writes, opened, consistent, capped⟩ := carries
      have empty : writer.buf.bytes = [] :=
        FlexBuf.get_freeze_eq_none_iff.mp current
      refine ⟨0, { writer with buf := writer.buf.freeze }, ?_, ?_, ?_, ?_⟩
      · simp only [StdWriter.flush, opened, current]
      · rw [List.take_zero, List.append_nil]
        exact ⟨generator, writes, opened, consistent, by simpa using capped⟩
      · simpa using empty
      · simp [empty, Fits, opened, WriteGenerator.Takes]
  | some frozen =>
      obtain ⟨whole, filled, _⟩ := FlexBuf.get_eq_some current
      rw [FlexBuf.bytes_freeze] at whole
      obtain ⟨generator, passed, n, opened, accepted, bound, _, fits,
        carried⟩ := carries.hands current
      obtain ⟨emptied, _⟩ := FlexBuf.clean_frozen current
      refine ⟨n, ⟨.opened passed, writer.buf.freeze.clean.freeze⟩, ?_, ?_, ?_,
        ?_⟩
      · have cleaned : writer.buf.freeze.clean.freeze.get = none :=
          FlexBuf.get_freeze_eq_none_iff.mpr emptied
        simp only [StdWriter.flush, opened, current, accepted, cleaned]
      · rw [whole]
        exact carried _ (by simp)
      · simpa using emptied
      · rw [whole, ← fits]
        omega

theorem flush_succ {fuel : Nat} {result : Except IoError Unit × StdWriter}
    (flushed : writer.flush fuel = some result) :
    writer.flush (fuel + 1) = some result := by
  induction fuel generalizing writer with
  | zero => cases flushed
  | succ fuel induction =>
      rw [StdWriter.flush] at flushed ⊢
      split at flushed
      · exact flushed
      · dsimp only at flushed ⊢
        split at flushed
        · exact flushed
        · split at flushed
          · exact flushed
          · exact induction flushed

theorem Carries.close (carries : Carries chunkSize exact delivered writer)
    (fuel : Nat) :
    ∃ n later, writer.close (fuel + 2) = some (.ok (), later) ∧
      later.w.calls.flatMap WriterCall.bytes =
        delivered ++ writer.buf.bytes.take n ∧
      (n = writer.buf.bytes.length ∧ writer.Fits ∨
        n < writer.buf.bytes.length ∧ ¬ writer.Fits) := by
  obtain ⟨n, ⟨w, buf⟩, flushed, ⟨generator, writes, opened, consistent, _⟩, _,
    fits⟩ := carries.flush fuel
  obtain rfl : w = .opened generator := opened
  obtain ⟨closed, written, finished, calls, bytes, _⟩ := consistent.close fuel
  refine ⟨n, ⟨.closed closed.w.calls, buf⟩, ?_, ?_, fits⟩
  · simp only [StdWriter.close, flushed, finished, Option.bind_eq_bind,
      Option.bind_some]
  · simp only [WriteHandle.calls, calls, List.flatMap_append,
      flatMap_bytes_write, bytes]
    simp [WriterCall.bytes]

end StdWriter

/-! ## Runs -/

namespace StdSession

variable {chunkSize : Option Nat} {exact : Bool}

/-- The generator and the buffer hold together what was accepted. -/
def Level (chunkSize : Option Nat) (exact : Bool)
    (session : StdSession) : Prop :=
  ∃ delivered, session.writer.Carries chunkSize exact delivered ∧
    delivered ++ session.writer.buf.bytes = session.accepted

/-- They hold less. -/
def Gap (chunkSize : Option Nat) (exact : Bool)
    (session : StdSession) : Prop :=
  ∃ delivered, session.writer.Carries chunkSize exact delivered ∧
    (delivered ++ session.writer.buf.bytes).length < session.accepted.length

/-- A flush does not cut what is buffered. -/
def Keeps (session : StdSession) : Call → Prop
  | .write _ => True
  | .flush => session.writer.Fits

theorem level_new (chunkSize : Option Nat) (exact : Bool) :
    (new (.new .infallible chunkSize exact)).Level chunkSize exact :=
  ⟨[], ⟨_, [], rfl, WriteGenerator.consistent_new chunkSize exact, rfl⟩, rfl⟩

/-- What a call may do to the bytes that are held and to those accepted: it
keeps all of them, or its flush cuts. -/
def Effect (chunkSize : Option Nat) (exact : Bool) (delivered : Bytes)
    (session : StdSession) (keeps : Prop) (next : StdSession) : Prop :=
  ∃ held, next.writer.Carries chunkSize exact held ∧
    ((∃ gained, keeps ∧ next.accepted = session.accepted ++ gained ∧
        held ++ next.writer.buf.bytes =
          delivered ++ session.writer.buf.bytes ++ gained) ∨
      (¬ keeps ∧ next.accepted = session.accepted ∧
        (held ++ next.writer.buf.bytes).length <
          (delivered ++ session.writer.buf.bytes).length))

variable {session next : StdSession} {delivered : Bytes}

theorem wrote_effect {fuel n : Nat} {bs : Bytes} {later : StdWriter}
    (carries : session.writer.Carries chunkSize exact delivered)
    (wrote : session.writer.write fuel bs = some (.ok n, later)) :
    Effect chunkSize exact delivered session True
      ⟨later, session.accepted ++ bs.take n⟩ := by
  obtain ⟨m, more, same, _, _, carried, bytes⟩ := carries.wrote wrote
  cases same
  refine ⟨delivered ++ more, carried, .inl ⟨bs.take n, trivial, rfl, ?_⟩⟩
  rw [List.append_assoc, bytes, ← List.append_assoc]

theorem flushed_effect {fuel : Nat} {later : StdWriter}
    (carries : session.writer.Carries chunkSize exact delivered)
    (flushed : session.writer.flush fuel = some (.ok (), later)) :
    Effect chunkSize exact delivered session session.writer.Fits
      { session with writer := later } := by
  obtain ⟨n, other, returned, carried, empty, fits⟩ := carries.flush fuel
  cases returned.symm.trans
    (StdWriter.flush_succ (StdWriter.flush_succ flushed))
  refine ⟨_, carried, ?_⟩
  rcases fits with ⟨rfl, fits⟩ | ⟨short, cut⟩
  · exact .inl ⟨[], fits, by simp, by simp [empty]⟩
  · refine .inr ⟨cut, rfl, ?_⟩
    simp only [empty, List.append_nil, List.length_append, List.length_take]
    omega

theorem step_effect {fuel : Nat} {call : Call}
    (carries : session.writer.Carries chunkSize exact delivered)
    (stepped : session.step fuel call = some next) :
    Effect chunkSize exact delivered session (session.Keeps call) next := by
  cases call with
  | write slice =>
      simp only [step] at stepped
      split at stepped
      · rename_i wrote
        cases stepped
        exact wrote_effect carries wrote
      · cases stepped
  | flush =>
      simp only [step] at stepped
      split at stepped
      · rename_i flushed
        cases stepped
        exact flushed_effect carries flushed
      · cases stepped

theorem step_returns (free : ¬ WriteGenerator.Stuck chunkSize exact)
    (carries : session.writer.Carries chunkSize exact delivered)
    (call : Call) :
    ∃ next, session.step (StdWriter.capacity + 2) call = some next := by
  cases call with
  | write slice =>
      have bounded : session.writer.buf.bytes.length <
          StdWriter.capacity + 2 := by
        obtain ⟨_, _, _, _, capped⟩ := carries
        have bound := session.writer.buf.length_bytes_le
        omega
      obtain ⟨n, later, wrote⟩ :=
        carries.write_returns free slice.nonempty bounded
      exact ⟨⟨later, session.accepted ++ slice.bytes.take n⟩,
        by simp only [step, wrote]⟩
  | flush =>
      obtain ⟨n, later, flushed, _⟩ := carries.flush StdWriter.capacity
      exact ⟨{ session with writer := later }, by simp only [step, flushed]⟩

theorem Level.keeps {keeps : Prop} (kept : keeps)
    (whole : delivered ++ session.writer.buf.bytes = session.accepted)
    (effect : Effect chunkSize exact delivered session keeps next) :
    next.Level chunkSize exact := by
  obtain ⟨held, carried, ⟨gained, _, accepted, grown⟩ | ⟨cut, _⟩⟩ := effect
  · exact ⟨held, carried, by rw [grown, whole, accepted]⟩
  · exact absurd kept cut

theorem Level.breaks {keeps : Prop} (cut : ¬ keeps)
    (whole : delivered ++ session.writer.buf.bytes = session.accepted)
    (effect : Effect chunkSize exact delivered session keeps next) :
    next.Gap chunkSize exact := by
  obtain ⟨held, carried, ⟨_, kept, _⟩ | ⟨_, accepted, shorter⟩⟩ := effect
  · exact absurd kept cut
  · exact ⟨held, carried, by rwa [accepted, ← whole]⟩

theorem Gap.stays {keeps : Prop}
    (missing : (delivered ++ session.writer.buf.bytes).length <
      session.accepted.length)
    (effect : Effect chunkSize exact delivered session keeps next) :
    next.Gap chunkSize exact := by
  obtain ⟨held, carried, effect⟩ := effect
  refine ⟨held, carried, ?_⟩
  rcases effect with ⟨gained, _, accepted, grown⟩ | ⟨_, accepted, shorter⟩
  · simp only [grown, accepted, List.length_append] at missing ⊢
    omega
  · rw [accepted]
    omega

/-- A run that returns ends level when none of its flushes cut, and with a gap
otherwise. -/
theorem level_or_gap {ε : Type} {step : StdSession → ε → Option StdSession}
    {keeps : StdSession → ε → Prop}
    (effect : ∀ {session next delivered call},
      session.writer.Carries chunkSize exact delivered →
      step session call = some next →
      Effect chunkSize exact delivered session (keeps session call) next)
    {calls : List ε}
    (ran : Automaton.run step (new (.new .infallible chunkSize exact)) calls =
      some session) :
    (Automaton.Along step keeps (new (.new .infallible chunkSize exact))
        calls → session.Level chunkSize exact) ∧
      (¬ Automaton.Along step keeps (new (.new .infallible chunkSize exact))
        calls → session.Gap chunkSize exact) := by
  apply Automaton.run_level_or_gap ?_ ?_ ?_ (level_new chunkSize exact) ran
  · intro session call next level kept stepped
    obtain ⟨delivered, carries, whole⟩ := level
    exact Level.keeps kept whole (effect carries stepped)
  · intro session call next level cut stepped
    obtain ⟨delivered, carries, whole⟩ := level
    exact Level.breaks cut whole (effect carries stepped)
  · intro session call next gap stepped
    obtain ⟨delivered, carries, missing⟩ := gap
    exact Gap.stays missing (effect carries stepped)

/-- Closing delivers the level, unless its own flush cuts. -/
theorem close_level (level : session.Level chunkSize exact) :
    ∃ closed,
      session.writer.close (StdWriter.capacity + 2) = some (.ok (), closed) ∧
      (closed.w.calls.flatMap WriterCall.bytes = session.accepted ↔
        session.writer.Fits) := by
  obtain ⟨delivered, carries, whole⟩ := level
  obtain ⟨n, closed, finished, received, fits⟩ :=
    carries.close StdWriter.capacity
  refine ⟨closed, finished, ?_⟩
  rw [received, ← whole]
  rcases fits with ⟨rfl, fits⟩ | ⟨short, cut⟩
  · simp [fits]
  · refine iff_of_false ?_ cut
    intro same
    have lengths := congrArg List.length same
    simp only [List.length_append, List.length_take] at lengths
    omega

theorem close_gap (gap : session.Gap chunkSize exact) :
    ∃ closed,
      session.writer.close (StdWriter.capacity + 2) = some (.ok (), closed) ∧
      closed.w.calls.flatMap WriterCall.bytes ≠ session.accepted := by
  obtain ⟨delivered, carries, missing⟩ := gap
  obtain ⟨n, closed, finished, received, _⟩ :=
    carries.close StdWriter.capacity
  refine ⟨closed, finished, ?_⟩
  rw [received]
  intro same
  have lengths := congrArg List.length same
  simp only [List.length_append, List.length_take] at lengths missing
  omega

/-- Every sequence of writes and flushes ended by `close` returns, and the
service has received what was accepted exactly when no flush, that of `close`
included, found more in the buffer than the generator takes at once. -/
theorem receives_accepted_iff (chunkSize : Option Nat) (exact : Bool)
    (positive : ∀ size, chunkSize = some size → 1 ≤ size)
    (calls : List Call) :
    ∃ session closed,
      Automaton.run (step (StdWriter.capacity + 2))
        (new (.new .infallible chunkSize exact)) calls = some session ∧
      session.writer.close (StdWriter.capacity + 2) =
        some (.ok (), closed) ∧
      (closed.w.calls.flatMap WriterCall.bytes = session.accepted ↔
        Automaton.Along (step (StdWriter.capacity + 2)) Keeps
          (new (.new .infallible chunkSize exact)) calls ∧
        session.writer.Fits) := by
  have progress : ∀ {session : StdSession} (call : Call),
      (∃ delivered, session.writer.Carries chunkSize exact delivered) →
      ∃ next, session.step (StdWriter.capacity + 2) call = some next ∧
        ∃ delivered, next.writer.Carries chunkSize exact delivered := by
    intro session call given
    obtain ⟨delivered, carries⟩ := given
    obtain ⟨next, stepped⟩ :=
      step_returns (WriteGenerator.not_stuck positive) carries call
    obtain ⟨held, carried, _⟩ := step_effect carries stepped
    exact ⟨next, stepped, held, carried⟩
  have initially := level_new chunkSize exact
  obtain ⟨session, ran, _⟩ :=
    Automaton.run_total progress (initially.imp fun _ => And.left) calls
  obtain ⟨whenKept, whenCut⟩ := level_or_gap step_effect ran
  by_cases along : Automaton.Along (step (StdWriter.capacity + 2)) Keeps
      (new (.new .infallible chunkSize exact)) calls
  · obtain ⟨closed, finished, received⟩ :=
      close_level (whenKept along)
    exact ⟨session, closed, ran, finished,
      by simpa [along] using received⟩
  · obtain ⟨closed, finished, received⟩ := close_gap (whenCut along)
    exact ⟨session, closed, ran, finished,
      by simpa [along] using received⟩

/-- Three bytes in exact chunks of four. -/
theorem receives_accepted_iff_within :
    ∃ session closed,
      Automaton.run (step (StdWriter.capacity + 2))
        (new (.new .infallible (some 4) true))
        [.write ⟨[1, 2], by simp⟩, .flush, .write ⟨[3], by simp⟩] =
          some session ∧
      session.writer.close (StdWriter.capacity + 2) =
        some (.ok (), closed) ∧
      session.accepted = [1, 2, 3] ∧
      closed.w.calls.flatMap WriterCall.bytes = session.accepted := by
  obtain ⟨session, closed, ran, finished, received⟩ :=
    receives_accepted_iff (some 4) true (by simp)
      [.write ⟨[1, 2], by simp⟩, .flush, .write ⟨[3], by simp⟩]
  cases ran
  refine ⟨_, closed, rfl, finished, rfl, received.mpr ⟨?_, ?_⟩⟩
  · refine ⟨trivial, ?_, trivial, trivial⟩
    intro room known
    cases known
    decide
  · intro room known
    cases known
    decide

/-- Three bytes in exact chunks of two: the flush of `close` hands over all
three and drops the one that was not accepted. -/
theorem receives_accepted_fails_exact :
    ∃ session closed,
      Automaton.run (step 3) (new (.new .infallible (some 2) true))
        [.write ⟨[1, 2, 3], by simp⟩] = some session ∧
      session.writer.close 3 = some (.ok (), closed) ∧
      session.accepted = [1, 2, 3] ∧
      closed.w.calls.flatMap WriterCall.bytes = [1, 2] :=
  ⟨_, _, rfl, rfl, rfl, rfl⟩

end StdSession

end OpenDal
