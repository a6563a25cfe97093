import Mathlib.Tactic.TFAE
import OpenDal.Types.SeekingReader

/-!
# Requests that are refused

A generator moves on before it sends the request for a range.  When the
service refuses the request, the range is lost: the generator goes on behind
it, or has nothing left at all, and so does every reader on top of it.  A
reader that is read again reports the bytes behind a hole, or the end.
-/

namespace OpenDal

variable {R : Type}

namespace ReadGenerator

/-- The service refuses the request that the generator sends next. -/
def Refused (generator : ReadGenerator R) : Prop :=
  ∃ range err, generator.nextRange.1 = some range ∧
    generator.openRange range = .error err

/-- The two generators ask for the same ranges. -/
def SameRange (generator other : ReadGenerator R) : Prop :=
  other.offset = generator.offset ∧ other.size = generator.size

theorem nextRange_ctx (generator : ReadGenerator R) :
    generator.nextRange.2.ctx = generator.ctx := by
  unfold nextRange
  split
  · rfl
  · split <;> rfl

theorem not_sameRange_nextRange {generator : ReadGenerator R}
    {range : BytesRange} (next : generator.nextRange.1 = some range) :
    ¬ generator.SameRange generator.nextRange.2 := by
  intro same
  obtain ⟨offset, size⟩ := same
  unfold nextRange at next offset size
  split at next
  · cases next
  · rename_i unfinished
    rw [if_neg unfinished] at offset size
    cases known : generator.size with
    | none =>
        rw [known] at size
        cases size
    | some remaining =>
        have positive : 0 < remaining := by
          apply Nat.pos_of_ne_zero
          intro zero
          exact unfinished (by rw [known, zero])
        have moved := (generator.readSize_spec positive).1
        rw [known] at offset
        simp only at offset
        omega

theorem Refused.nextReader {generator : ReadGenerator R}
    (refused : generator.Refused) :
    ∃ err, generator.nextReader = (.error err, generator.nextRange.2) ∧
      ¬ generator.SameRange generator.nextRange.2 := by
  obtain ⟨range, err, next, denied⟩ := refused
  refine ⟨err, ?_, not_sameRange_nextRange next⟩
  have ctx := generator.nextRange_ctx
  unfold ReadGenerator.nextReader
  generalize generator.nextRange = pair at next ctx
  obtain ⟨found, moved⟩ := pair
  simp only at next ctx
  subst next
  simp only [ReadGenerator.openRange, ctx] at denied ⊢
  rw [denied]
  rfl

theorem refused_of_nextReader {generator later : ReadGenerator R} {err : Error}
    (failed : generator.nextReader = (.error err, later)) :
    generator.Refused := by
  have ctx := generator.nextRange_ctx
  unfold ReadGenerator.nextReader at failed
  unfold Refused
  generalize generator.nextRange = pair at failed ctx
  obtain ⟨found, moved⟩ := pair
  cases found with
  | none => cases failed
  | some range =>
      simp only at failed ctx
      have denied : moved.openRange range = .error err := by
        cases opened : moved.openRange range with
        | error other =>
            rw [opened] at failed
            cases failed
            rfl
        | ok r =>
            rw [opened] at failed
            cases failed
      refine ⟨range, err, rfl, ?_⟩
      simpa only [ReadGenerator.openRange, ctx] using denied

end ReadGenerator

namespace ReadGenerator

/-! ## The range is lost -/

/-- The ranges that the next `count` calls ask for. -/
def ranges : Nat → ReadGenerator R → List BytesRange
  | 0, _ => []
  | count + 1, generator =>
      match generator.nextRange with
      | (none, _) => []
      | (some range, later) => range :: ranges count later

/-- A generator starts at its offset and moves forward, or is at its end. -/
theorem nextRange_offset {generator later : ReadGenerator R}
    {range : BytesRange}
    (next : generator.nextRange = (some range, later)) :
    range.offset = generator.offset ∧
      (later.size = some 0 ∨ generator.offset < later.offset) := by
  unfold nextRange at next
  split at next
  · cases next
  · rename_i unfinished
    cases known : generator.size with
    | none =>
        rw [known] at next
        cases next
        exact ⟨rfl, .inl rfl⟩
    | some remaining =>
        have positive : 0 < remaining := by
          apply Nat.pos_of_ne_zero
          intro zero
          exact unfinished (by rw [known, zero])
        have moved := (generator.readSize_spec positive).1
        rw [known] at next
        cases next
        exact ⟨rfl, .inr (by simp only; omega)⟩

theorem offset_le_of_mem_ranges {generator : ReadGenerator R} {count : Nat}
    {range : BytesRange} (member : range ∈ generator.ranges count) :
    generator.offset ≤ range.offset := by
  induction count generalizing generator with
  | zero => cases member
  | succ count induction =>
      unfold ranges at member
      split at member
      · cases member
      · rename_i first later next
        obtain ⟨starts, moved⟩ := nextRange_offset next
        rcases List.mem_cons.mp member with rfl | rest
        · omega
        · rcases moved with ended | behind
          · have none : later.ranges count = [] := by
              cases count with
              | zero => rfl
              | succ count => simp [ranges, nextRange, ended]
            rw [none] at rest
            cases rest
          · have further := induction rest
            omega

/-- However often the generator is asked after a range was handed out, it does
not ask for anything at or before the start of that range again. -/
theorem lost_of_nextRange {generator later : ReadGenerator R}
    {lost range : BytesRange} {count : Nat}
    (next : generator.nextRange = (some lost, later))
    (member : range ∈ later.ranges count) : lost.offset < range.offset := by
  obtain ⟨starts, ended | behind⟩ := nextRange_offset next
  · cases count with
    | zero => cases member
    | succ count =>
        simp [ranges, nextRange, ended] at member
  · have further := offset_le_of_mem_ranges member
    omega

end ReadGenerator

/-! ## The readers on top -/

variable [Read R]

theorem StreamingReader.pollRead_refused {generator : ReadGenerator R}
    {err : Error}
    (failed : generator.nextReader = (.error err, generator.nextRange.2)) :
    pollRead ⟨generator, none⟩ =
      (⟨generator.nextRange.2, none⟩, .returned (.error err)) := by
  simp [pollRead, failed]

theorem IteratingReader.readRound_refused {generator : ReadGenerator R}
    {err : Error}
    (failed : generator.nextReader = (.error err, generator.nextRange.2)) :
    readRound ⟨generator, none⟩ =
      (⟨generator.nextRange.2, none⟩, .returned (.error err)) := by
  simp [readRound, ReadGenerator.nextBlockingReader, failed]

omit [Read R] in
theorem ChunkedReader.pollRead_refused {generator : ReadGenerator R}
    {tasks : ConcurrentTasks R Buffer} {err : Error}
    (room : tasks.hasRemaining = true)
    (failed : generator.nextReader = (.error err, generator.nextRange.2)) :
    pollRead ⟨generator, tasks, false⟩ .looping =
      some (⟨generator.nextRange.2, tasks, false⟩,
        .returned (.error err)) := by
  simp [pollRead, room, failed]

/-- A failed open loses its range, in every state of a generator: neither
`next_reader` nor `next_blocking_reader` nor any of the readers keeps the
range of a request that the service refuses, and the range is never asked for
again.  So each of them does what it should exactly when the service does not
refuse. -/
theorem ReadGenerator.keepsRange_tfae (generator : ReadGenerator R) :
    [¬ generator.Refused,
      ∀ err later, generator.nextReader = (.error err, later) →
        generator.SameRange later,
      ∀ err later, generator.nextBlockingReader = (.error err, later) →
        generator.SameRange later,
      generator.Refused → ∀ later progress,
        StreamingReader.pollRead ⟨generator, none⟩ = (later, progress) →
          generator.SameRange later.generator,
      generator.Refused → ∀ later progress,
        IteratingReader.readRound ⟨generator, none⟩ = (later, progress) →
          generator.SameRange later.generator,
      generator.Refused → ∀ tasks later progress,
        tasks.hasRemaining = true →
        ChunkedReader.pollRead ⟨generator, tasks, false⟩ .looping =
            some (later, progress) →
          generator.SameRange later.generator,
      generator.Refused → ∀ lost, generator.nextRange.1 = some lost →
        ∃ count, lost ∈ generator.nextRange.2.ranges count].TFAE := by
  tfae_have 1 → 2 := by
    intro accepted err later failed
    exact absurd (refused_of_nextReader failed) accepted
  tfae_have 2 → 3 := by
    intro keeps
    exact keeps
  tfae_have 3 → 4 := by
    intro keeps refused
    obtain ⟨err, failed, moved⟩ := refused.nextReader
    exact absurd (keeps err _ failed) moved
  tfae_have 4 → 5 := by
    intro keeps refused
    obtain ⟨err, failed, moved⟩ := refused.nextReader
    exact absurd
      (keeps refused _ _ (StreamingReader.pollRead_refused failed)) moved
  tfae_have 5 → 6 := by
    intro keeps refused
    obtain ⟨err, failed, moved⟩ := refused.nextReader
    exact absurd
      (keeps refused _ _ (IteratingReader.readRound_refused failed)) moved
  tfae_have 6 → 7 := by
    intro keeps refused
    obtain ⟨err, failed, moved⟩ := refused.nextReader
    have room : (ConcurrentTasks.new 1 : ConcurrentTasks R Buffer).hasRemaining =
        true := rfl
    exact absurd
      (keeps refused _ _ _ room (ChunkedReader.pollRead_refused room failed))
      moved
  tfae_have 7 → 1 := by
    intro asked refused
    have ⟨lost, _, next, _⟩ := refused
    obtain ⟨count, member⟩ := asked refused lost next
    exact Nat.lt_irrefl _ (lost_of_nextRange (Prod.ext next rfl) member)
  tfae_finish

/-- A service that refuses every request. -/
def refusingContext : ReadContext ScriptedReader :=
  .new
    { read := fun _ _ => .error (Error.new .unexpected "refused").setTemporary
      stat := fun _ _ => .ok 1 }
    "file" ⟨⟨0, none⟩, none⟩ OpReader.new

/-- The request for everything is refused; the second `read` reports the end
without sending it again. -/
theorem ReadGenerator.keepsRange_fails_refused :
    ¬ (∀ err later,
        (ReadGenerator.new refusingContext 0 none).nextReader =
          (.error err, later) →
        (ReadGenerator.new refusingContext 0 none).SameRange later) ∧
      ∃ first second : StreamingReader ScriptedReader, ∃ err,
        (StreamingReader.new refusingContext ⟨0, none⟩).pollRead =
          (first, .returned (.error err)) ∧
        first.pollRead = (second, .returned (.ok Buffer.new)) := by
  constructor
  · intro keeps
    have kept := keeps _ _ rfl
    cases kept.2
  · exact ⟨_, _, _, rfl, rfl⟩

end OpenDal
