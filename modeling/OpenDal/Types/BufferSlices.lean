import OpenDal.Types.BufferSequence

/-!
# The vectored views of a buffer

`to_io_slice` and `chunks_vectored` walk the parts behind the cursor.  They
honour `idx` and `offset`, but neither looks at `size`: both show every byte of
the remaining parts, also those behind the logical end of the buffer.  So the
views show exactly the buffer's bytes if and only if its parts end where the
buffer does, which a `truncate` or a `slice` that cuts bytes off the end
breaks.  `chunk`, which cuts at `size`, stays inside the buffer.
-/

namespace OpenDal.Buffer.Inner

open Segments

/-- The loop of `to_io_slice`: the first part from `newOffset` on, and every
following one whole. -/
def ioSlices : List Bytes → Nat → Option (List Bytes)
  | [], _ => some []
  | part :: rest, newOffset => do
      let slice ← Bytes.slice part newOffset part.length
      let slices ← ioSlices rest 0
      some (slice :: slices)

def toIoSlice : Inner → Option (List Bytes)
  | .contiguous bytes => some [bytes]
  | .nonContiguous parts _ idx offset => do
      let _capacity ← checkedSub parts.length idx
      ioSlices (parts.drop idx) offset

/-- The parts zipped with the slots of `dst`: `dst` afterwards and the number
of slots that were written. -/
def fillSlices : List Bytes → List Bytes → Nat → Option (List Bytes × Nat)
  | part :: rest, _ :: dst, newOffset => do
      let slice ← Bytes.slice part newOffset part.length
      let (filled, count) ← fillSlices rest dst 0
      some (slice :: filled, count + 1)
  | _, dst, _ => some (dst, 0)

/-- `Buf::chunks_vectored`. -/
def chunksVectored (buffer : Inner) (dst : List Bytes) :
    Option (List Bytes × Nat) :=
  match buffer, dst with
  | .contiguous _, [] => some ([], 0)
  | .contiguous bytes, _ :: dst => some (bytes :: dst, 1)
  | .nonContiguous _ _ _ _, [] => some ([], 0)
  | .nonContiguous parts _ idx offset, slot :: dst =>
      fillSlices (parts.drop idx) (slot :: dst) offset

/-! ## What the loops write -/

/-- All slices of the parts `rest`, the first one from `offset` on. -/
def slicesFrom : List Bytes → Nat → List Bytes
  | [], _ => []
  | part :: rest, offset => part.drop offset :: rest

@[simp] theorem slicesFrom_zero (parts : List Bytes) :
    slicesFrom parts 0 = parts := by
  cases parts <;> rfl

theorem slice_to_end {part : Bytes} {offset : Nat}
    (inside : offset ≤ part.length) :
    Bytes.slice part offset part.length = some (part.drop offset) := by
  have fits : offset + (part.length - offset) ≤ part.length := by omega
  have cut := slice_inside fits
  rw [Nat.add_sub_cancel' inside] at cut
  rw [cut, List.take_of_length_le (by simp)]

theorem ioSlices_eq {parts : List Bytes} {offset : Nat}
    (inside : ∀ part ∈ parts.head?, offset ≤ part.length) :
    ioSlices parts offset = some (slicesFrom parts offset) := by
  induction parts generalizing offset with
  | nil => rfl
  | cons part rest induction =>
      have first : offset ≤ part.length := inside part rfl
      have others : ioSlices rest 0 = some (slicesFrom rest 0) := by
        apply induction
        intro other _
        exact Nat.zero_le _
      rw [ioSlices, slice_to_end first, others, slicesFrom_zero]
      rfl

theorem fillSlices_eq {parts dst : List Bytes} {offset : Nat}
    (inside : ∀ part ∈ parts.head?, offset ≤ part.length) :
    ∃ filled count, fillSlices parts dst offset = some (filled, count) ∧
      count = min parts.length dst.length ∧
      filled.take count = (slicesFrom parts offset).take dst.length := by
  induction parts generalizing dst offset with
  | nil =>
      exact ⟨dst, 0, by simp [fillSlices], by simp, by simp [slicesFrom]⟩
  | cons part rest induction =>
      cases dst with
      | nil => exact ⟨[], 0, rfl, by simp, by simp⟩
      | cons slot dst =>
          have first : offset ≤ part.length := inside part rfl
          obtain ⟨filled, count, others, counted, written⟩ :=
            @induction dst 0 fun other _ => Nat.zero_le _
          refine ⟨part.drop offset :: filled, count + 1, ?_, ?_, ?_⟩
          · rw [fillSlices, slice_to_end first, others]
            rfl
          · simp only [List.length_cons]
            omega
          · rw [slicesFrom_zero] at written
            simp [slicesFrom, written]

/-! ## The views of a well-formed buffer -/

/-- The bytes of the parts from the cursor on, whatever the size says. -/
def shown : Inner → Bytes
  | .contiguous bytes => bytes
  | .nonContiguous parts _ idx offset => suffix parts idx offset

/-- The slices that both views make out of a buffer. -/
def slices : Inner → List Bytes
  | .contiguous bytes => [bytes]
  | .nonContiguous parts _ idx offset => slicesFrom (parts.drop idx) offset

theorem offset_inside {parts : List Bytes} {size idx offset : Nat}
    (wellFormed : (nonContiguous parts size idx offset).WellFormed) :
    ∀ part ∈ (parts.drop idx).head?, offset ≤ part.length := by
  intro part first
  apply wellFormed.1.offset_le
  rw [Option.mem_def, List.head?_drop] at first
  exact first

theorem flatten_slices {buffer : Inner} (wellFormed : buffer.WellFormed) :
    buffer.slices.flatten = buffer.shown := by
  cases buffer with
  | contiguous bytes => simp [slices, shown]
  | nonContiguous parts size idx offset =>
      have inside := offset_inside wellFormed
      show (slicesFrom (parts.drop idx) offset).flatten =
        (parts.drop idx).flatten.drop offset
      generalize parts.drop idx = rest at inside
      cases rest with
      | nil => simp [slicesFrom]
      | cons part rest =>
          have first : offset ≤ part.length := inside part rfl
          rw [List.flatten_cons, List.drop_append_of_le_length first]
          rfl

theorem toIoSlice_eq {buffer : Inner} (wellFormed : buffer.WellFormed) :
    buffer.toIoSlice = some buffer.slices := by
  cases buffer with
  | contiguous bytes => rfl
  | nonContiguous parts size idx offset =>
      have bound : idx ≤ parts.length := wellFormed.1.1
      rw [toIoSlice, checkedSub_eq_some bound]
      exact ioSlices_eq (offset_inside wellFormed)

theorem chunksVectored_eq {buffer : Inner} (wellFormed : buffer.WellFormed)
    (dst : List Bytes) :
    ∃ filled count, buffer.chunksVectored dst = some (filled, count) ∧
      filled.take count = buffer.slices.take dst.length := by
  cases buffer with
  | contiguous bytes =>
      cases dst with
      | nil => exact ⟨[], 0, rfl, by simp⟩
      | cons slot dst => exact ⟨bytes :: dst, 1, rfl, by simp [slices]⟩
  | nonContiguous parts size idx offset =>
      cases dst with
      | nil => exact ⟨[], 0, rfl, by simp⟩
      | cons slot dst =>
          obtain ⟨filled, count, written, _, front⟩ :=
            @fillSlices_eq _ (slot :: dst) _ (offset_inside wellFormed)
          exact ⟨filled, count, written, front⟩

/-! ## When the views show the buffer's bytes -/

/-- No byte of the parts lies behind the logical end of the buffer. -/
def Whole : Inner → Prop
  | .contiguous _ => True
  | .nonContiguous parts size idx offset =>
      size = (suffix parts idx offset).length

theorem shown_eq_content_iff {buffer : Inner}
    (wellFormed : buffer.WellFormed) :
    buffer.shown = buffer.content ↔ buffer.Whole := by
  cases buffer with
  | contiguous bytes => exact ⟨fun _ => trivial, fun _ => rfl⟩
  | nonContiguous parts size idx offset =>
      constructor
      · intro same
        have lengths := congrArg List.length same
        rw [← len_eq_length_content wellFormed] at lengths
        exact lengths.symm
      · intro whole
        have all : (suffix parts idx offset).length ≤ size := Nat.le_of_eq
          whole.symm
        exact (List.take_of_length_le all).symm

/-- Both views show exactly the remaining bytes: `to_io_slice`, and the slots
that `chunks_vectored` writes when there are enough of them; fewer slots hold
the front of the buffer. -/
def ShowsBytes (buffer : Inner) : Prop :=
  ∃ slices, buffer.toIoSlice = some slices ∧
    slices.flatten = buffer.content ∧
    ∀ dst, ∃ filled count,
      buffer.chunksVectored dst = some (filled, count) ∧
      (filled.take count).flatten <+: buffer.content ∧
      (slices.length ≤ dst.length →
        (filled.take count).flatten = buffer.content)

theorem showsBytes_of_whole {buffer : Inner}
    (wellFormed : buffer.WellFormed) (whole : buffer.Whole) :
    ShowsBytes buffer := by
  have same := (shown_eq_content_iff wellFormed).mpr whole
  rw [← flatten_slices wellFormed] at same
  refine ⟨buffer.slices, toIoSlice_eq wellFormed, same, ?_⟩
  intro dst
  obtain ⟨filled, count, called, front⟩ := chunksVectored_eq wellFormed dst
  refine ⟨filled, count, called, ?_, ?_⟩
  · have split := congrArg List.flatten
      (List.take_append_drop dst.length buffer.slices)
    rw [List.flatten_append, same] at split
    rw [front]
    exact ⟨_, split⟩
  · intro enough
    rw [front, List.take_of_length_le enough, same]

/-- The vectored views show a buffer's bytes exactly when no byte of its parts
lies behind its end. -/
theorem showsBytes_iff_whole {buffer : Inner} (reachable : Reachable buffer) :
    ShowsBytes buffer ↔ buffer.Whole := by
  have wellFormed := reachable.wellFormed
  constructor
  · intro shows
    obtain ⟨slices, called, flattened, _⟩ := shows
    rw [toIoSlice_eq wellFormed, Option.some.injEq] at called
    subst called
    rw [← shown_eq_content_iff wellFormed, ← flatten_slices wellFormed]
    exact flattened
  · intro whole
    exact showsBytes_of_whole wellFormed whole

/-- Two parts behind an empty one, with the cursor inside the first. -/
theorem showsBytes_iff_whole_advanced :
    ShowsBytes (nonContiguous [[], [1, 2], [3]] 2 1 1) ↔
      (nonContiguous [[], [1, 2], [3]] 2 1 1).Whole := by
  apply showsBytes_iff_whole
  have whole : Reachable (fromVecBytes [[], [1, 2], [3]]) :=
    .fromVecBytes [[], [1, 2], [3]]
  have advanced : (fromVecBytes [[], [1, 2], [3]]).advance 1 =
      some (nonContiguous [[], [1, 2], [3]] 2 1 1) := by
    decide
  exact whole.advance (by decide) advanced

/-- After `truncate(1)` both views still show the second byte of the part. -/
theorem not_showsBytes_truncated :
    Reachable ((fromVecBytes [[1, 2]]).truncate 1) ∧
      ¬ ShowsBytes ((fromVecBytes [[1, 2]]).truncate 1) := by
  constructor
  · exact .truncate 1 (.fromVecBytes [[1, 2]])
  · intro shows
    obtain ⟨slices, called, flattened, _⟩ := shows
    have two : slices = [[1, 2]] := by
      have all : some [[1, 2]] = some slices := called
      cases all
      rfl
    rw [two] at flattened
    exact absurd flattened (by decide)

/-- `next` while bytes remain: it goes on to the next part when the rest of
the current one fits into the buffer, and is at the end otherwise. -/
theorem next_remaining {parts : List Bytes} {size idx offset : Nat}
    (wellFormed : (nonContiguous parts size idx offset).WellFormed)
    (remains : size ≠ 0) :
    ∃ part, parts[idx]? = some part ∧ offset ≤ part.length ∧
      (nonContiguous parts size idx offset).next =
        some (some ((part.drop offset).take (min (part.length - offset) size)),
          if part.length - offset ≤ size then
            nonContiguous parts (size - (part.length - offset)) (idx + 1) 0
          else
            nonContiguous parts 0 idx (offset + size)) := by
  obtain ⟨part, found, inside, sliced⟩ := exists_currentPart wellFormed remains
  refine ⟨part, found, inside, ?_⟩
  by_cases fits : part.length - offset ≤ size
  · have all : min (part.length - offset) size = part.length - offset := by
      omega
    rw [all] at sliced ⊢
    rw [Nat.add_sub_cancel' inside] at sliced
    simp [next, remains, found, inside, sliced, fits]
  · have cut : min (part.length - offset) size = size := by omega
    have within : ¬ offset + size = part.length := by omega
    rw [cut] at sliced ⊢
    simp [next, remains, found, inside, cut, sliced, fits, within]

end OpenDal.Buffer.Inner
