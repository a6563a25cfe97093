import OpenDal.Types.BufferDrain

/-!
# Copying the front of a buffer

`Buf::copy_to_slice` fills a destination with the loop that `to_vec` uses, up
to the length of the destination.  It is the loop over the buffer that is cut
off there, so it gets past exactly the parts that the copied bytes reach into,
and never ends on an empty one among them.
-/

namespace OpenDal.Buffer

namespace Inner

open Segments

/-- The loop of `Buf::copy_to_slice` for `count` bytes that are still missing;
`none` when `fuel` iterations are not enough. -/
def copyLoop : Nat → Inner → Nat → Option (Bytes × Inner)
  | 0, _, _ => none
  | fuel + 1, buffer, count =>
      if count = 0 then
        some ([], buffer)
      else do
        let src ← buffer.chunk
        let cnt := min src.length count
        let advanced ← buffer.advance cnt
        let (rest, last) ← copyLoop fuel advanced (count - cnt)
        some (src.take cnt ++ rest, last)

/-- `Buf::copy_to_slice`; the destination must not be longer than what
remains. -/
def copyToSlice (fuel : Nat) (buffer : Inner) (count : Nat) :
    Option (Bytes × Inner) :=
  if count ≤ buffer.remaining then copyLoop fuel buffer count else none

/-- The parts that the first `count` bytes reach into. -/
def frontParts (buffer : Inner) (count : Nat) : List Bytes :=
  (buffer.truncate count).coveredParts

theorem remaining_truncate (buffer : Inner) (count : Nat) :
    (buffer.truncate count).remaining = min buffer.remaining count := by
  cases buffer with
  | contiguous bytes => simp [truncate, remaining, len, Nat.min_comm]
  | nonContiguous parts size idx offset => rfl

theorem chunk_truncate {buffer : Inner} {src : Bytes} {count : Nat}
    (wellFormed : buffer.WellFormed) (remains : buffer.remaining ≠ 0)
    (positive : count ≠ 0) (chunked : buffer.chunk = some src) :
    (buffer.truncate count).chunk = some (src.take count) := by
  cases buffer with
  | contiguous bytes =>
      cases chunked
      rfl
  | nonContiguous parts size idx offset =>
      have nonzero : size ≠ 0 := remains
      obtain ⟨part, found, le, sliced⟩ := exists_currentPart wellFormed nonzero
      have shorter : min size count ≠ 0 := by omega
      simp only [chunk, nonzero, if_false, found, checkedSub_eq_some le,
        Option.bind_eq_bind, Option.bind_some, sliced,
        Option.some.injEq] at chunked
      subst chunked
      have inside : offset + min (part.length - offset) (min size count) ≤
          part.length := by omega
      simp only [truncate, chunk, shorter, if_false, found,
        checkedSub_eq_some le, Option.bind_eq_bind, Option.bind_some,
        slice_inside inside, List.take_take, Option.some.injEq]
      congr 1
      omega

theorem advance_truncate {buffer advanced : Inner} {cnt count : Nat}
    (within : cnt ≤ count) (success : buffer.advance cnt = some advanced) :
    (buffer.truncate count).advance cnt =
      some (advanced.truncate (count - cnt)) := by
  cases buffer with
  | contiguous bytes =>
      simp only [advance, Option.ite_none_right_eq_some,
        Option.some.injEq] at success
      obtain ⟨enough, rfl⟩ := success
      have fits : cnt ≤ min count (List.length bytes) := by omega
      simp [truncate, advance, fits, List.drop_take]
  | nonContiguous parts size idx offset =>
      simp only [advance, Option.ite_none_right_eq_some, Option.bind_eq_bind,
        Option.bind_eq_some_iff, Option.some.injEq] at success
      obtain ⟨enough, ⟨newIdx, newOffset⟩, moved, rfl⟩ := success
      have fits : cnt ≤ min size count := by omega
      have shorter : min size count - cnt = min (size - cnt) (count - cnt) := by
        omega
      simp [truncate, advance, fits, moved, shorter]

theorem copyLoop_step {buffer advanced : Inner} {src : Bytes} {count : Nat}
    (wellFormed : buffer.WellFormed) (within : count ≤ buffer.remaining)
    (remains : buffer.remaining ≠ 0) (chunked : buffer.chunk = some src)
    (success : buffer.advance (min src.length count) = some advanced) :
    advanced.WellFormed ∧
      src.take (min src.length count) =
        buffer.content.take (min src.length count) ∧
      advanced.content = buffer.content.drop (min src.length count) ∧
      count - min src.length count ≤ advanced.remaining := by
  have enough : min src.length count ≤ buffer.len := by
    unfold remaining at within
    omega
  obtain ⟨other, otherSuccess, kept, dropped⟩ := advance_spec wellFormed enough
  cases success.symm.trans otherSuccess
  refine ⟨kept, ?_, dropped, ?_⟩
  · have front := chunk_eq_take wellFormed remains chunked
    have shorter : min (min src.length count) src.length =
        min src.length count := by omega
    calc
      src.take (min src.length count) =
          (buffer.content.take src.length).take (min src.length count) := by
        rw [← front]
      _ = buffer.content.take (min src.length count) := by
        rw [List.take_take, shorter]
  · unfold remaining at within ⊢
    rw [len_eq_length_content kept, dropped, List.length_drop,
      ← len_eq_length_content wellFormed]
    omega

theorem copyLoop_sound {buffer last : Inner} {fuel count : Nat}
    {output : Bytes} (wellFormed : buffer.WellFormed)
    (within : count ≤ buffer.remaining)
    (ended : copyLoop fuel buffer count = some (output, last)) :
    last.WellFormed ∧ output = buffer.content.take count ∧
      last.content = buffer.content.drop count := by
  induction fuel generalizing buffer count output last with
  | zero => cases ended
  | succ fuel induction =>
      by_cases done : count = 0
      · simp only [copyLoop, done, if_true, Option.some.injEq,
          Prod.mk.injEq] at ended
        obtain ⟨rfl, rfl⟩ := ended
        exact ⟨wellFormed, by simp [done], by simp [done]⟩
      · simp only [copyLoop, done, if_false, Option.bind_eq_bind,
          Option.bind_eq_some_iff] at ended
        obtain ⟨src, chunked, advanced, success, ⟨rest, final⟩, looped, same⟩ :=
          ended
        cases same
        obtain ⟨kept, front, dropped, shorter⟩ :=
          copyLoop_step wellFormed within (by omega) chunked success
        obtain ⟨lastKept, restEq, lastEq⟩ := induction kept shorter looped
        have total : min src.length count +
            (count - min src.length count) = count := by omega
        refine ⟨lastKept, ?_, ?_⟩
        · rw [front, restEq, dropped, ← List.take_add, total]
        · rw [lastEq, dropped, List.drop_drop, total]

/-- The copy is stuck on the first part if it is empty; otherwise the parts
that are in the way stay the same. -/
theorem frontParts_step {buffer advanced : Inner} {src : Bytes}
    {count : Nat} (wellFormed : buffer.WellFormed)
    (within : count ≤ buffer.remaining) (missing : count ≠ 0)
    (chunked : buffer.chunk = some src)
    (success : buffer.advance (min src.length count) = some advanced) :
    src = [] ∧ advanced = buffer ∧ [] ∈ buffer.frontParts count ∨
      src ≠ [] ∧ ([] ∈ buffer.frontParts count ↔
        [] ∈ advanced.frontParts (count - min src.length count)) := by
  have remains : buffer.remaining ≠ 0 := by omega
  have cutRemains : (buffer.truncate count).remaining ≠ 0 := by
    rw [remaining_truncate]
    omega
  have cutChunk := chunk_truncate wellFormed remains missing chunked
  have cut := advance_truncate (Nat.min_le_right src.length count) success
  obtain ⟨front, cutAdvanced, cutChunked, cutSuccess, progress⟩ :=
    drain_step (wellFormed_truncate wellFormed count) cutRemains
  cases cutChunk.symm.trans cutChunked
  rw [List.length_take, Nat.min_comm] at cutSuccess
  cases cut.symm.trans cutSuccess
  rcases progress with ⟨empty, _, member⟩ | ⟨nonempty, same⟩
  · have none : src = [] := by simpa [missing] using empty
    subst none
    have stays : buffer.advance 0 = some buffer := by
      cases buffer <;> simp [advance, advanceLoop]
    have advancedNone : buffer.advance 0 = some advanced := by
      simpa using success
    cases stays.symm.trans advancedNone
    exact .inl ⟨rfl, rfl, member⟩
  · refine .inr ⟨?_, same⟩
    intro none
    simp [none] at nonempty

/-- Without an empty part in the way, one iteration per byte is enough. -/
theorem copyLoop_ends {buffer : Inner} {fuel count : Nat}
    (wellFormed : buffer.WellFormed) (within : count ≤ buffer.remaining)
    (noEmpty : [] ∉ buffer.frontParts count) (enough : count < fuel) :
    ∃ output last, copyLoop fuel buffer count = some (output, last) := by
  induction fuel generalizing buffer count with
  | zero => omega
  | succ fuel induction =>
      by_cases done : count = 0
      · exact ⟨[], buffer, by simp [copyLoop, done]⟩
      · have remains : buffer.remaining ≠ 0 := by omega
        obtain ⟨src, _, chunked, _⟩ := drain_step wellFormed remains
        have bounded : min src.length count ≤ buffer.len := by
          unfold remaining at within
          omega
        obtain ⟨advanced, success, _⟩ := advance_spec wellFormed bounded
        obtain ⟨kept, _, _, shorter⟩ :=
          copyLoop_step wellFormed within remains chunked success
        rcases frontParts_step wellFormed within done chunked success with
          ⟨_, _, member⟩ | ⟨nonempty, same⟩
        · exact absurd member noEmpty
        · have positive := List.length_pos_iff.mpr nonempty
          obtain ⟨rest, last, looped⟩ := induction kept shorter
            (fun member => noEmpty (same.mpr member)) (by omega)
          exact ⟨src.take (min src.length count) ++ rest, last, by
            simp only [copyLoop, done, if_false, chunked, success, looped,
              Option.bind_eq_bind, Option.bind_some]⟩

theorem notMem_frontParts_of_copyLoop {buffer last : Inner}
    {fuel count : Nat} {output : Bytes} (wellFormed : buffer.WellFormed)
    (within : count ≤ buffer.remaining)
    (ended : copyLoop fuel buffer count = some (output, last)) :
    [] ∉ buffer.frontParts count := by
  induction fuel generalizing buffer count output last with
  | zero => cases ended
  | succ fuel induction =>
      by_cases done : count = 0
      · have drained : put 1 (buffer.truncate count) = some [] := by
          simp [put, remaining_truncate, done]
        exact notMem_coveredParts_of_put
          (wellFormed_truncate wellFormed count) drained
      · simp only [copyLoop, done, if_false, Option.bind_eq_bind,
          Option.bind_eq_some_iff] at ended
        obtain ⟨src, chunked, advanced, success, ⟨rest, final⟩, looped, _⟩ :=
          ended
        obtain ⟨kept, _, _, shorter⟩ :=
          copyLoop_step wellFormed within (by omega) chunked success
        have later := induction kept shorter looped
        rcases frontParts_step wellFormed within done chunked success with
          ⟨none, stuck, member⟩ | ⟨_, same⟩
        · subst none stuck
          exact absurd member (by simpa using later)
        · exact fun member => later (same.mp member)

end Inner

/-- `Buf::copy_to_slice`. -/
def copyToSlice (fuel : Nat) (buffer : Buffer) (count : Nat) :
    Option (Bytes × Buffer) :=
  match success : buffer.inner.copyToSlice fuel count with
  | none => none
  | some (output, last) => some (output, ⟨last, by
      simp only [Inner.copyToSlice, Option.ite_none_right_eq_some] at success
      exact (Inner.copyLoop_sound buffer.wellFormed success.1 success.2).1⟩)

/-- None of the parts that the first `count` bytes reach into is empty. -/
def Dense (buffer : Buffer) (count : Nat) : Prop :=
  [] ∉ buffer.inner.frontParts count

instance (buffer : Buffer) (count : Nat) : Decidable (buffer.Dense count) :=
  inferInstanceAs (Decidable (_ ∉ _))

theorem copyToSlice_eq_some {buffer last : Buffer} {fuel count : Nat}
    {output : Bytes}
    (ended : buffer.copyToSlice fuel count = some (output, last)) :
    buffer.Dense count ∧ output = buffer.bytes.take count ∧
      last.bytes = buffer.bytes.drop count := by
  unfold copyToSlice at ended
  split at ended
  · cases ended
  · rename_i copied final success
    cases ended
    simp only [Inner.copyToSlice, Option.ite_none_right_eq_some] at success
    obtain ⟨within, looped⟩ := success
    obtain ⟨_, copied, left⟩ :=
      Inner.copyLoop_sound buffer.wellFormed within looped
    exact ⟨Inner.notMem_frontParts_of_copyLoop buffer.wellFormed within looped,
      copied, left⟩

theorem chunk_prefix {buffer : Buffer} {front : Bytes}
    (chunked : buffer.inner.chunk = some front) : front <+: buffer.bytes := by
  by_cases drained : buffer.inner.remaining = 0
  · obtain ⟨inner, wellFormed⟩ := buffer
    have none : front = [] := by
      cases inner with
      | contiguous bytes =>
          cases chunked
          exact List.length_eq_zero_iff.mp drained
      | nonContiguous parts size idx offset =>
          have zero : size = 0 := drained
          simpa [Inner.chunk, zero] using chunked.symm
    rw [none]
    exact List.nil_prefix
  · rw [Inner.chunk_eq_take buffer.wellFormed drained chunked]
    exact List.take_prefix _ _

theorem advance_eq_some {buffer advanced : Buffer} {cnt : Nat}
    (success : buffer.advance cnt = some advanced) :
    cnt ≤ buffer.len ∧ advanced.bytes = buffer.bytes.drop cnt := by
  by_cases enough : cnt ≤ buffer.len
  · obtain ⟨other, equation, dropped⟩ := advance_spec enough
    cases success.symm.trans equation
    exact ⟨enough, dropped⟩
  · unfold Buffer.advance at success
    split at success
    · cases success
    · rename_i inner moved
      obtain ⟨raw, wellFormed⟩ := buffer
      cases raw with
      | contiguous bytes =>
          exact absurd (Option.ite_none_right_eq_some.mp moved).1 enough
      | nonContiguous parts size idx offset =>
          exact absurd (Option.ite_none_right_eq_some.mp moved).1 enough

theorem Dense.chunk {buffer : Buffer} (dense : buffer.Dense 1)
    (remains : 0 < buffer.len) :
    ∃ front, buffer.inner.chunk = some front ∧ front ≠ [] ∧
      front <+: buffer.bytes := by
  have some : buffer.inner.remaining ≠ 0 := Nat.ne_of_gt remains
  obtain ⟨front, _, chunked, _⟩ := Inner.drain_step buffer.wellFormed some
  have bounded : min front.length 1 ≤ buffer.inner.len := by
    have positive : 0 < buffer.inner.len := remains
    omega
  obtain ⟨advanced, success, _⟩ :=
    Inner.advance_spec buffer.wellFormed bounded
  refine ⟨front, chunked, ?_, chunk_prefix chunked⟩
  rcases Inner.frontParts_step buffer.wellFormed remains (by decide) chunked
    success with ⟨_, _, member⟩ | ⟨nonempty, _⟩
  · exact absurd member dense
  · exact nonempty

theorem copyToSlice_isSome {buffer : Buffer} {fuel count : Nat}
    (within : count ≤ buffer.len) (dense : buffer.Dense count)
    (enough : count < fuel) :
    (buffer.copyToSlice fuel count).isSome = true := by
  obtain ⟨output, last, looped⟩ :=
    Inner.copyLoop_ends buffer.wellFormed within dense enough
  have copied : buffer.inner.copyToSlice fuel count = some (output, last) := by
    rw [Inner.copyToSlice, if_pos (show count ≤ buffer.inner.remaining from
      within), looped]
  unfold copyToSlice
  split
  · rename_i failure
    cases failure.symm.trans copied
  · rfl

end OpenDal.Buffer
