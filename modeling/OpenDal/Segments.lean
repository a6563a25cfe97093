import Mathlib.Data.List.Basic

/-!
# Segmented sequences with a cursor

A sequence is stored as a list of segments, any of which may be empty.  A
cursor `(idx, offset)` points into segment `idx`; `suffix` is everything from
the cursor on.  The lemmas say how the suffix changes when the cursor moves
inside a segment and across a segment boundary.
-/

namespace Segments

variable {α : Type}

/-- Everything from the cursor on. -/
def suffix (parts : List (List α)) (idx offset : Nat) : List α :=
  (parts.drop idx).flatten.drop offset

/-- A cursor that can be dereferenced: either at a segment's start (possibly
one past the last segment) or strictly inside a segment. -/
def Valid (parts : List (List α)) (idx offset : Nat) : Prop :=
  idx ≤ parts.length ∧
    (offset = 0 ∨ ∃ part, parts[idx]? = some part ∧ offset < part.length)

@[simp] theorem suffix_zero_zero (parts : List (List α)) :
    suffix parts 0 0 = parts.flatten := by
  simp [suffix]

theorem valid_start (parts : List (List α)) : Valid parts 0 0 :=
  ⟨Nat.zero_le _, .inl rfl⟩

theorem drop_eq_cons_of_getElem?
    {parts : List (List α)} {idx : Nat} {part : List α}
    (found : parts[idx]? = some part) :
    parts.drop idx = part :: parts.drop (idx + 1) := by
  obtain ⟨inside, rfl⟩ := List.getElem?_eq_some_iff.mp found
  exact List.drop_eq_getElem_cons inside

/-- Crossing a boundary: the rest of the current segment, then the suffix at
the start of the following one. -/
theorem suffix_eq_append
    {parts : List (List α)} {idx offset : Nat} {part : List α}
    (found : parts[idx]? = some part) (inside : offset ≤ part.length) :
    suffix parts idx offset =
      part.drop offset ++ suffix parts (idx + 1) 0 := by
  unfold suffix
  rw [drop_eq_cons_of_getElem? found, List.flatten_cons,
    List.drop_append_of_le_length inside, List.drop_zero]

theorem suffix_add (parts : List (List α)) (idx offset count : Nat) :
    suffix parts idx (offset + count) =
      (suffix parts idx offset).drop count := by
  simp [suffix, List.drop_drop]

theorem suffix_of_length_le
    {parts : List (List α)} {idx : Nat} (past : parts.length ≤ idx)
    (offset : Nat) :
    suffix parts idx offset = [] := by
  simp [suffix, List.drop_eq_nil_of_le past]

theorem exists_part_of_suffix_ne_nil
    {parts : List (List α)} {idx offset : Nat}
    (nonempty : suffix parts idx offset ≠ []) :
    ∃ part, parts[idx]? = some part := by
  cases found : parts[idx]? with
  | some part => exact ⟨part, rfl⟩
  | none =>
      have past : parts.length ≤ idx := List.getElem?_eq_none_iff.mp found
      exact absurd (suffix_of_length_le past offset) nonempty

theorem Valid.offset_le
    {parts : List (List α)} {idx offset : Nat} {part : List α}
    (valid : Valid parts idx offset) (found : parts[idx]? = some part) :
    offset ≤ part.length := by
  rcases valid.2 with atStart | ⟨other, otherFound, inside⟩
  · omega
  · rw [found, Option.some.injEq] at otherFound
    subst otherFound
    omega

theorem valid_next
    {parts : List (List α)} {idx : Nat} {part : List α}
    (found : parts[idx]? = some part) : Valid parts (idx + 1) 0 := by
  obtain ⟨inside, _⟩ := List.getElem?_eq_some_iff.mp found
  exact ⟨inside, .inl rfl⟩

theorem valid_inside
    {parts : List (List α)} {idx offset : Nat} {part : List α}
    (found : parts[idx]? = some part) (inside : offset < part.length) :
    Valid parts idx offset := by
  obtain ⟨bound, _⟩ := List.getElem?_eq_some_iff.mp found
  exact ⟨Nat.le_of_lt bound, .inr ⟨part, found, inside⟩⟩

end Segments
