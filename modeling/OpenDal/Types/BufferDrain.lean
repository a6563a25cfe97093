import OpenDal.Types.BufferSequence

/-!
# Draining a buffer through the `Buf` interface

`to_vec` and `to_bytes` copy a buffer with the loop of the `bytes` crate:
while bytes remain, take `chunk` and `advance` by its length.  The loop makes
progress only as long as `chunk` is not empty, which the `Buf` contract
promises whenever bytes remain.

`chunk` reads the part under the cursor and nothing moves the cursor off an
empty part, so the contract fails exactly on a buffer with an empty part in
front of some of its remaining bytes.  There the loop never ends.
-/

namespace OpenDal.Buffer.Inner

open Segments

/-- `BufMut::put` of the `bytes` crate; `none` when `fuel` iterations are not
enough. -/
def put : Nat → Inner → Option Bytes
  | 0, _ => none
  | fuel + 1, buffer =>
      if buffer.remaining = 0 then
        some []
      else do
        let front ← buffer.chunk
        let advanced ← buffer.advance front.length
        let rest ← put fuel advanced
        some (front ++ rest)

def toVec (fuel : Nat) (buffer : Inner) : Option Bytes :=
  put fuel buffer

def toBytes (fuel : Nat) (buffer : Inner) : Option Bytes :=
  match buffer with
  | .contiguous bytes => some bytes
  | .nonContiguous parts size _ offset =>
      if parts.length = 1 then do
        let part ← parts[0]?
        Bytes.slice part offset (offset + size)
      else
        put fuel buffer

/-- The leading parts that the first `count` bytes reach into, counting every
part that starts before the last of these bytes. -/
def partsWithin : List Bytes → Nat → List Bytes
  | [], _ => []
  | part :: rest, count =>
      if count = 0 then [] else part :: partsWithin rest (count - part.length)

@[simp] theorem partsWithin_zero (parts : List Bytes) :
    partsWithin parts 0 = [] := by
  cases parts <;> simp [partsWithin]

/-- The parts from the cursor up to the last remaining byte. -/
def coveredParts : Inner → List Bytes
  | .contiguous _ => []
  | .nonContiguous parts size idx offset =>
      partsWithin (parts.drop idx) (offset + size)

private theorem advance_chunk {parts : List Bytes} {size idx offset : Nat}
    {part : Bytes} (found : parts[idx]? = some part)
    (inside : offset < part.length) (remains : size ≠ 0) :
    (nonContiguous parts size idx offset).advance
        (min (part.length - offset) size) =
      some (if size < part.length - offset then
        nonContiguous parts 0 idx (offset + size)
      else
        nonContiguous parts (size - (part.length - offset)) (idx + 1) 0) := by
  have located := drop_eq_cons_of_getElem? found
  have le : offset ≤ part.length := Nat.le_of_lt inside
  by_cases short : size < part.length - offset
  · obtain ⟨count, rfl⟩ := Nat.exists_eq_succ_of_ne_zero remains
    simp [advance, located, Nat.min_eq_right (Nat.le_of_lt short),
      advanceLoop, le, short]
  · obtain ⟨count, whole⟩ :=
      Nat.exists_eq_succ_of_ne_zero (Nat.sub_ne_zero_of_lt inside)
    have minimum : min (part.length - offset) size = count + 1 := by omega
    have bound : count + 1 ≤ size := by omega
    simp only [advance, minimum, bound, if_true, located, advanceLoop,
      checkedSub_eq_some le, short, if_false]
    simp [whole, advanceLoop]

/-- One iteration of the drain loop: either it is stuck on an empty part, or
it takes bytes off the front and leaves the same parts to get past. -/
theorem drain_step {buffer : Inner} (wellFormed : buffer.WellFormed)
    (remains : buffer.remaining ≠ 0) :
    ∃ front advanced, buffer.chunk = some front ∧
      buffer.advance front.length = some advanced ∧
      (front = [] ∧ advanced = buffer ∧ [] ∈ buffer.coveredParts ∨
        front ≠ [] ∧
          ([] ∈ buffer.coveredParts ↔ [] ∈ advanced.coveredParts)) := by
  cases buffer with
  | contiguous bytes =>
      have nonempty : bytes ≠ [] := by
        intro empty
        exact remains (by simp [remaining, len, empty])
      refine ⟨bytes, .contiguous [], rfl, by simp [advance], .inr ?_⟩
      exact ⟨nonempty, by simp [coveredParts]⟩
  | nonContiguous parts size idx offset =>
      have positive : size ≠ 0 := remains
      obtain ⟨part, found, le, sliced⟩ :=
        exists_currentPart wellFormed positive
      have located := drop_eq_cons_of_getElem? found
      have chunked : (nonContiguous parts size idx offset).chunk =
          some ((part.drop offset).take (min (part.length - offset) size)) := by
        simp [chunk, positive, found, le, sliced]
      have length : ((part.drop offset).take
          (min (part.length - offset) size)).length =
            min (part.length - offset) size := by
        simp only [List.length_take, List.length_drop]
        omega
      have covered : (nonContiguous parts size idx offset).coveredParts =
          part :: partsWithin (parts.drop (idx + 1))
            (offset + size - part.length) := by
        simp [coveredParts, located, partsWithin, positive]
      rcases Nat.lt_or_eq_of_le le with inside | exhausted
      · refine ⟨_, _, chunked, by rw [length, advance_chunk found inside positive],
          .inr ⟨List.ne_nil_of_length_pos (by omega), ?_⟩⟩
        have nonempty : part ≠ [] := List.ne_nil_of_length_pos (by omega)
        rw [covered]
        split
        · simp [coveredParts, located, partsWithin, positive]
        · have same : offset + size - part.length =
              0 + (size - (part.length - offset)) := by omega
          simp [coveredParts, same, nonempty.symm]
      · -- A cursor at the end of its part is at the start of an empty one.
        have empty : part = [] := by
          rcases wellFormed.1.2 with atStart | ⟨other, otherFound, inside⟩
          · exact List.length_eq_zero_iff.mp (by omega)
          · rw [found, Option.some.injEq] at otherFound
            subst otherFound
            omega
        have start : offset = 0 := by simpa [empty] using exhausted
        subst empty start
        refine ⟨_, nonContiguous parts size idx 0, chunked,
          by simp [advance, advanceLoop], .inl ?_⟩
        exact ⟨by simp, rfl, by simp [covered]⟩

theorem chunk_eq_take {buffer : Inner} {front : Bytes}
    (wellFormed : buffer.WellFormed) (remains : buffer.remaining ≠ 0)
    (chunked : buffer.chunk = some front) :
    front = buffer.content.take front.length := by
  cases buffer with
  | contiguous bytes =>
      cases chunked
      exact (List.take_length).symm
  | nonContiguous parts size idx offset =>
      have positive : size ≠ 0 := remains
      obtain ⟨part, found, le, sliced⟩ :=
        exists_currentPart wellFormed positive
      simp only [chunk, positive, if_false, found, checkedSub_eq_some le,
        Option.bind_eq_bind, Option.bind_some, sliced,
        Option.some.injEq] at chunked
      subst chunked
      have within : min (part.length - offset) size ≤
          (part.drop offset).length := by
        rw [List.length_drop]
        omega
      rw [content, suffix_eq_append found le, List.length_take,
        Nat.min_eq_left within, List.take_take,
        Nat.min_eq_left (Nat.min_le_right _ _),
        List.take_append_of_le_length within]

theorem content_eq_chunk_append {buffer advanced : Inner} {front : Bytes}
    (wellFormed : buffer.WellFormed) (remains : buffer.remaining ≠ 0)
    (chunked : buffer.chunk = some front)
    (success : buffer.advance front.length = some advanced) :
    buffer.content = front ++ advanced.content := by
  have front_eq := chunk_eq_take wellFormed remains chunked
  have enough : front.length ≤ buffer.len := by
    rw [len_eq_length_content wellFormed, front_eq]
    exact List.length_take_le' _ _
  obtain ⟨result, equation, _, dropped⟩ := advance_spec wellFormed enough
  cases equation.symm.trans success
  calc
    buffer.content =
        buffer.content.take front.length ++
          buffer.content.drop front.length :=
      (List.take_append_drop _ _).symm
    _ = front ++ advanced.content := by rw [← front_eq, dropped]

/-! ## When the loop ends -/

theorem notMem_coveredParts_of_put {buffer : Inner} {fuel : Nat}
    {output : Bytes} (wellFormed : buffer.WellFormed)
    (ended : put fuel buffer = some output) :
    [] ∉ buffer.coveredParts := by
  induction fuel generalizing buffer output with
  | zero => cases ended
  | succ fuel induction =>
      by_cases drained : buffer.remaining = 0
      · cases buffer with
        | contiguous bytes => simp [coveredParts]
        | nonContiguous parts size idx offset =>
            have none : size = 0 := drained
            subst none
            rcases wellFormed.1.2 with atStart | ⟨part, found, inside⟩
            · simp [coveredParts, atStart]
            · -- The part under the cursor has bytes before the cursor.
              have located := drop_eq_cons_of_getElem? found
              have nonempty : part ≠ [] :=
                List.ne_nil_of_length_pos (by omega)
              have passed : offset - part.length = 0 := by omega
              have moved : offset ≠ 0 ∨ offset = 0 := by omega
              rcases moved with moved | atStart
              · simp [coveredParts, located, partsWithin, passed, moved,
                  nonempty.symm]
              · simp [coveredParts, atStart]
      · obtain ⟨front, advanced, chunked, success, progress⟩ :=
          drain_step wellFormed drained
        simp only [put, drained, if_false, chunked, success,
          Option.bind_eq_bind, Option.bind_some,
          Option.bind_eq_some_iff] at ended
        obtain ⟨rest, restEnded, _⟩ := ended
        have later : [] ∉ advanced.coveredParts :=
          induction (wellFormed_of_advance wellFormed success) restEnded
        rcases progress with ⟨_, stuck, member⟩ | ⟨_, same⟩
        · exact absurd (stuck ▸ member) later
        · exact fun member => later (same.mp member)

/-- Without an empty part in the way, one iteration per remaining byte is
enough. -/
theorem put_eq_content {buffer : Inner} {fuel : Nat}
    (wellFormed : buffer.WellFormed)
    (noEmpty : [] ∉ buffer.coveredParts)
    (enough : buffer.len < fuel) :
    put fuel buffer = some buffer.content := by
  induction fuel generalizing buffer with
  | zero => omega
  | succ fuel induction =>
      by_cases drained : buffer.remaining = 0
      · have empty : buffer.content = [] := by
          rw [← List.length_eq_zero_iff, ← len_eq_length_content wellFormed]
          exact drained
        simp [put, drained, empty]
      · obtain ⟨front, advanced, chunked, success, progress⟩ :=
          drain_step wellFormed drained
        have kept := wellFormed_of_advance wellFormed success
        have split :=
          content_eq_chunk_append wellFormed drained chunked success
        rcases progress with ⟨_, _, member⟩ | ⟨nonempty, same⟩
        · exact absurd member noEmpty
        · have shorter : advanced.len < fuel := by
            have total := len_eq_length_content wellFormed
            rw [split, List.length_append,
              ← len_eq_length_content kept] at total
            have positive := List.length_pos_iff.mpr nonempty
            omega
          have rest := induction kept (fun member => noEmpty (same.mpr member))
            shorter
          simp [put, drained, chunked, success, rest, split]

/-- What the `Buf` contract and the two copying functions promise about one
buffer. -/
def DrainsCorrectly (buffer : Inner) : Prop :=
  (0 < buffer.remaining → ∃ front, buffer.chunk = some front ∧ front ≠ []) ∧
    (∃ fuel, put fuel buffer = some buffer.content) ∧
    (∃ fuel, toVec fuel buffer = some buffer.content) ∧
    (∃ fuel, toBytes fuel buffer = some buffer.content)

/-- `to_bytes` does not look at the cursor when there is a single part, and
does not have to. -/
theorem toBytes_eq_content {buffer : Inner} (wellFormed : buffer.WellFormed)
    (noEmpty : [] ∉ buffer.coveredParts) :
    toBytes (buffer.len + 1) buffer = some buffer.content := by
  cases buffer with
  | contiguous bytes => rfl
  | nonContiguous parts size idx offset =>
      by_cases single : parts.length = 1
      · obtain ⟨part, rfl⟩ := List.length_eq_one_iff.mp single
        obtain ⟨⟨idxBound, cursor⟩, covered⟩ := wellFormed
        cases idx with
        | zero =>
            simp only [suffix, List.drop_zero, List.flatten_singleton]
              at covered
            rw [List.length_drop] at covered
            have inside : offset + size ≤ part.length := by
              rcases cursor with atStart | ⟨other, found, offsetInside⟩
              · omega
              · simp only [List.getElem?_cons_zero, Option.some.injEq] at found
                subst found
                omega
            simp [toBytes, slice_inside inside, content, suffix]
        | succ idx =>
            have last : idx = 0 := by simpa using idxBound
            subst last
            have atStart : offset = 0 := by simpa using cursor
            have drained : size = 0 := by simpa [suffix] using covered
            simp [toBytes, atStart, drained, Bytes.slice, content]
      · simp only [toBytes, single, if_false]
        exact put_eq_content wellFormed noEmpty (Nat.lt_succ_self _)

/-- The contract holds of a reachable buffer exactly when none of the parts
from its cursor up to its last remaining byte is empty. -/
theorem drainsCorrectly_iff {buffer : Inner} (reachable : Reachable buffer) :
    DrainsCorrectly buffer ↔ [] ∉ buffer.coveredParts := by
  have wellFormed := reachable.wellFormed
  constructor
  · intro given
    obtain ⟨_, ⟨fuel, ended⟩, _⟩ := given
    exact notMem_coveredParts_of_put wellFormed ended
  · intro noEmpty
    have ended := put_eq_content wellFormed noEmpty (Nat.lt_succ_self _)
    refine ⟨?_, ⟨_, ended⟩, ⟨_, ended⟩,
      ⟨_, toBytes_eq_content wellFormed noEmpty⟩⟩
    intro remains
    obtain ⟨front, advanced, chunked, _, progress⟩ :=
      drain_step wellFormed (Nat.ne_of_gt remains)
    rcases progress with ⟨_, _, member⟩ | ⟨nonempty, _⟩
    · exact absurd member noEmpty
    · exact ⟨front, chunked, nonempty⟩

theorem drainsCorrectly_twoParts :
    DrainsCorrectly (fromVecBytes [[104, 105], [33], []]) :=
  (drainsCorrectly_iff (.fromVecBytes [[104, 105], [33], []])).mpr (by decide)

/-- One empty part before a byte: `chunk` is empty, `advance(0)` stays on the
empty part, and neither `to_vec` nor `to_bytes` ever returns. -/
theorem drainsCorrectly_fails_emptyPart :
    ¬ ∀ buffer, Reachable buffer → DrainsCorrectly buffer := by
  intro holds
  obtain ⟨_, ⟨fuel, ended⟩, _⟩ :=
    holds _ (.fromVecBytes [[], [104]])
  exact notMem_coveredParts_of_put (wellFormed_fromParts _) ended (by decide)

end OpenDal.Buffer.Inner
