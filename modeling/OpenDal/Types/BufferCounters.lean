import OpenDal.Types.BufferDrain
import OpenDal.Types.BufferSlices

/-!
# The counters of a buffer

`count`, `size_hint` and `current` say how the iteration will go on without
taking a step.  Each of them computes this from the cursor and the size in its
own way, and only `next` is exact: `count` takes a drained buffer whose cursor
stands inside a part for one that has an item left, `size_hint` counts parts
that the iteration no longer reaches, and `current` indexes the parts also
behind the last one.  All three agree with `next` exactly when bytes remain
and the last of them lies in the last part.
-/

namespace OpenDal.Buffer.Inner

open Segments

/-- The fold of `count`: the parts counted so far and the bytes not yet
accounted for. -/
def countStep (counted : Nat × Nat) (bytes : Bytes) : Nat × Nat :=
  if counted.2 = 0 then
    (counted.1, 0)
  else
    (counted.1 + 1, counted.2 - bytes.length)

def count : Inner → Nat
  | .contiguous _ => 1
  | .nonContiguous parts size idx offset =>
      ((parts.drop idx).foldl countStep (0, size + offset)).1

/-- `Iterator::size_hint`. -/
def sizeHint : Inner → Nat × Option Nat
  | .contiguous bytes => if bytes.isEmpty then (0, some 0) else (1, some 1)
  | .nonContiguous parts _ idx _ =>
      let remaining := parts.length - idx
      (remaining, some remaining)

/-- `none` is an index or a subtraction that panics. -/
def current : Inner → Option Bytes
  | .contiguous bytes => some bytes
  | .nonContiguous parts size idx offset => do
      let chunk ← parts[idx]?
      let n := min (← checkedSub chunk.length offset) size
      Bytes.slice chunk offset (offset + n)

/-! ## What the fold counts -/

theorem foldl_countStep (parts : List Bytes) (counted size : Nat) :
    (parts.foldl countStep (counted, size)).1 =
      counted + (partsWithin parts size).length := by
  induction parts generalizing counted size with
  | nil => rfl
  | cons part rest induction =>
      rw [List.foldl_cons]
      by_cases drained : size = 0
      · have step : countStep (counted, size) part = (counted, 0) := by
          simp [countStep, drained]
        rw [step, induction, drained, partsWithin_zero, partsWithin_zero]
      · have step : countStep (counted, size) part =
            (counted + 1, size - part.length) := by
          simp [countStep, drained]
        rw [step, induction, partsWithin, if_neg drained, List.length_cons]
        omega

theorem count_eq (parts : List Bytes) (size idx offset : Nat) :
    (nonContiguous parts size idx offset).count =
      (nonContiguous parts size idx offset).coveredParts.length := by
  have folded := foldl_countStep (parts.drop idx) 0 (size + offset)
  rw [Nat.zero_add, Nat.add_comm size offset] at folded
  rw [count, Nat.add_comm size offset]
  exact folded

theorem length_partsWithin_le (parts : List Bytes) (count : Nat) :
    (partsWithin parts count).length ≤ parts.length := by
  induction parts generalizing count with
  | nil => exact Nat.le_refl _
  | cons part rest induction =>
      rw [partsWithin]
      split
      · exact Nat.zero_le _
      · simp only [List.length_cons]
        exact Nat.succ_le_succ (induction _)

theorem length_partsWithin_eq_iff {parts : List Bytes} {count : Nat}
    (positive : 0 < count) :
    (partsWithin parts count).length = parts.length ↔
      parts.dropLast.flatten.length < count := by
  induction parts generalizing count with
  | nil =>
      constructor
      · intro _
        exact positive
      · intro _
        rfl
  | cons part rest induction =>
      rw [partsWithin, if_neg (by omega), List.length_cons, List.length_cons,
        Nat.add_right_cancel_iff]
      cases rest with
      | nil =>
          constructor
          · intro _
            exact positive
          · intro _
            rfl
      | cons other rest =>
          rw [List.dropLast_cons_cons, List.flatten_cons, List.length_append]
          by_cases inside : count ≤ part.length
          · have none : count - part.length = 0 := by omega
            rw [none, partsWithin_zero]
            constructor
            · intro impossible
              cases impossible
            · intro impossible
              omega
          · rw [induction (by omega)]
            omega

/-! ## The number of items -/

/-- The number of items that the iteration still returns. -/
def itemCount : Inner → Nat
  | .contiguous bytes => if bytes.isEmpty then 0 else 1
  | .nonContiguous parts size idx offset =>
      if size = 0 then
        0
      else
        (nonContiguous parts size idx offset).coveredParts.length

theorem itemCount_next {buffer rest : Inner} {item : Bytes}
    (wellFormed : buffer.WellFormed)
    (called : buffer.next = some (some item, rest)) :
    buffer.itemCount = rest.itemCount + 1 := by
  cases buffer with
  | contiguous bytes =>
      by_cases empty : bytes.isEmpty
      · rw [next, if_pos empty] at called
        cases called
      · rw [next, if_neg empty] at called
        cases called
        simp [itemCount, empty]
  | nonContiguous parts size idx offset =>
      by_cases drained : size = 0
      · rw [next, if_pos drained] at called
        cases called
      · obtain ⟨part, found, inside, advanced⟩ :=
          next_remaining wellFormed drained
        have located := drop_eq_cons_of_getElem? found
        have positive : ¬ offset + size = 0 := by omega
        have counted : (nonContiguous parts size idx offset).itemCount =
            (partsWithin (parts.drop (idx + 1))
              (offset + size - part.length)).length + 1 := by
          rw [itemCount, if_neg drained, coveredParts, located, partsWithin,
            if_neg positive, List.length_cons]
        rw [advanced] at called
        obtain ⟨_, rfl⟩ := Prod.mk.inj (Option.some.inj called)
        rw [counted]
        by_cases fits : part.length - offset ≤ size
        · rw [if_pos fits]
          have left : size - (part.length - offset) =
              offset + size - part.length := by omega
          rw [left, itemCount]
          split
          · rename_i last
            rw [last, partsWithin_zero]
            rfl
          · rw [coveredParts, Nat.zero_add]
        · rw [if_neg fits]
          have cut : offset + size - part.length = 0 := by omega
          rw [cut, partsWithin_zero]
          rfl

theorem itemCount_finished {buffer : Inner} (wellFormed : buffer.WellFormed)
    (empty : buffer.content = []) : buffer.itemCount = 0 := by
  have length := len_eq_length_content wellFormed
  rw [empty] at length
  cases buffer with
  | contiguous bytes =>
      have none : bytes = [] := List.length_eq_zero_iff.mp length
      simp [itemCount, none]
  | nonContiguous parts size idx offset =>
      have none : size = 0 := length
      simp [itemCount, none]

theorem length_iterateWith {buffer : Inner} {fuel : Nat} {items : List Bytes}
    (wellFormed : buffer.WellFormed)
    (iterated : iterateWith fuel buffer = some items) :
    items.length = buffer.itemCount := by
  induction fuel generalizing buffer items with
  | zero => cases iterated
  | succ fuel induction =>
      obtain ⟨result, called, spec⟩ := next_spec wellFormed
      cases spec with
      | finished empty =>
          simp only [iterateWith, called, Option.bind_eq_bind,
            Option.bind_some, Option.some.injEq] at iterated
          rw [← iterated, itemCount_finished wellFormed empty]
          rfl
      | @item item rest restWellFormed split shorter =>
          simp only [iterateWith, called, Option.bind_eq_bind,
            Option.bind_some] at iterated
          cases later : iterateWith fuel rest with
          | none =>
              rw [later] at iterated
              cases iterated
          | some others =>
              rw [later] at iterated
              cases iterated
              rw [List.length_cons, induction restWellFormed later,
                itemCount_next wellFormed called]

/-! ## When the counters agree with the iteration -/

/-- The three accessors tell what iterating a clone of the buffer does. -/
def CountersAgree (buffer : Inner) : Prop :=
  ∃ items, buffer.iterate = some items ∧
    buffer.count = items.length ∧
    buffer.sizeHint.1 ≤ items.length ∧
    (∀ upper ∈ buffer.sizeHint.2, items.length ≤ upper) ∧
    ∃ item rest, buffer.next = some (item, rest) ∧
      buffer.current = some (item.getD [])

theorem count_eq_itemCount_iff {parts : List Bytes} {size idx offset : Nat}
    (wellFormed : (nonContiguous parts size idx offset).WellFormed) :
    (nonContiguous parts size idx offset).count =
        (nonContiguous parts size idx offset).itemCount ↔
      size ≠ 0 ∨ offset = 0 := by
  rw [count_eq, itemCount]
  by_cases drained : size = 0
  · rw [if_pos drained, List.length_eq_zero_iff]
    constructor
    · intro uncovered
      apply Or.inr
      rcases wellFormed.1.2 with atStart | ⟨part, found, inside⟩
      · exact atStart
      · have located := drop_eq_cons_of_getElem? found
        by_contra moved
        have positive : ¬ offset + size = 0 := by omega
        rw [coveredParts, located, partsWithin, if_neg positive] at uncovered
        cases uncovered
    · intro condition
      have atStart : offset = 0 := condition.resolve_left (by simp [drained])
      rw [coveredParts, drained, atStart, partsWithin_zero]
  · rw [if_neg drained]
    constructor
    · intro _
      exact Or.inl drained
    · intro _
      rfl

theorem itemCount_le_sizeHint (parts : List Bytes) (size idx offset : Nat) :
    (nonContiguous parts size idx offset).itemCount ≤ parts.length - idx := by
  rw [itemCount]
  split
  · exact Nat.zero_le _
  · have bound := length_partsWithin_le (parts.drop idx) (offset + size)
    rw [List.length_drop] at bound
    exact bound

theorem sizeHint_le_itemCount_iff {parts : List Bytes}
    {size idx offset : Nat} :
    parts.length - idx ≤ (nonContiguous parts size idx offset).itemCount ↔
      parts.length ≤ idx ∨
        0 < size ∧
          (parts.drop idx).dropLast.flatten.length < offset + size := by
  rw [itemCount]
  by_cases drained : size = 0
  · rw [if_pos drained]
    omega
  · rw [if_neg drained]
    have bound := length_partsWithin_le (parts.drop idx) (offset + size)
    have positive : 0 < offset + size := by omega
    have all := @length_partsWithin_eq_iff (parts.drop idx) _ positive
    rw [List.length_drop] at bound all
    constructor
    · intro enough
      exact Or.inr ⟨by omega, all.mp (Nat.le_antisymm bound enough)⟩
    · intro condition
      rcases condition with past | ⟨_, reached⟩
      · omega
      · exact Nat.le_of_eq (all.mpr reached).symm

theorem current_eq_none_iff {parts : List Bytes} {size idx offset : Nat}
    (wellFormed : (nonContiguous parts size idx offset).WellFormed) :
    (nonContiguous parts size idx offset).current = none ↔
      parts.length ≤ idx := by
  constructor
  · intro panics
    cases found : parts[idx]? with
    | none => exact List.getElem?_eq_none_iff.mp found
    | some part =>
        have inside := wellFormed.1.offset_le found
        have fits : offset + min (part.length - offset) size ≤
            part.length := by
          omega
        simp [current, found, inside, slice_inside fits] at panics
  · intro past
    have missing : parts[idx]? = none := List.getElem?_eq_none_iff.mpr past
    simp [current, missing]

theorem current_remaining {parts : List Bytes} {size idx offset : Nat}
    (wellFormed : (nonContiguous parts size idx offset).WellFormed)
    (remains : size ≠ 0) :
    ∃ item rest,
      (nonContiguous parts size idx offset).next = some (some item, rest) ∧
      (nonContiguous parts size idx offset).current = some item := by
  obtain ⟨part, found, inside, advanced⟩ := next_remaining wellFormed remains
  refine ⟨_, _, advanced, ?_⟩
  have fits : offset + min (part.length - offset) size ≤ part.length := by
    omega
  simp [current, found, inside, slice_inside fits]

/-- The counters of a non-contiguous buffer agree with its iteration exactly
when bytes remain and the last part is still reached. -/
theorem countersAgree_iff {parts : List Bytes} {size idx offset : Nat}
    (reachable : Reachable (nonContiguous parts size idx offset)) :
    CountersAgree (nonContiguous parts size idx offset) ↔
      0 < size ∧
        (parts.drop idx).dropLast.flatten.length < offset + size := by
  have wellFormed := reachable.wellFormed
  constructor
  · intro agree
    obtain ⟨items, iterated, _, lower, _, item, rest, called, shown⟩ := agree
    rw [length_iterateWith wellFormed iterated] at lower
    rcases sizeHint_le_itemCount_iff.mp lower with past | reached
    · rw [(current_eq_none_iff wellFormed).mpr past] at shown
      cases shown
    · exact reached
  · intro reached
    have remains : size ≠ 0 := by omega
    obtain ⟨items, iterated, _⟩ := iterate_spec wellFormed
    have length := length_iterateWith wellFormed iterated
    refine ⟨items, iterated, ?_, ?_, ?_, ?_⟩
    · rw [length]
      exact (count_eq_itemCount_iff wellFormed).mpr (Or.inl remains)
    · rw [length]
      exact sizeHint_le_itemCount_iff.mpr (Or.inr reached)
    · intro upper bound
      cases bound
      rw [length]
      exact itemCount_le_sizeHint parts size idx offset
    · obtain ⟨item, rest, called, shown⟩ :=
        current_remaining wellFormed remains
      exact ⟨some item, rest, called, shown⟩

/-- A buffer that a slice has cut inside its second and last reached part. -/
theorem countersAgree_iff_cut :
    CountersAgree (nonContiguous [[1], [], [2, 3]] 2 0 0) ↔
      0 < 2 ∧ (List.drop 0 [[1], [], [2, 3]]).dropLast.flatten.length <
        0 + 2 := by
  apply countersAgree_iff
  have whole : Reachable (fromVecBytes [[1], [], [2, 3]]) :=
    .fromVecBytes _
  exact whole.truncate 2

/-- A consumed buffer: `size_hint` and `count` are right, `current` panics. -/
theorem not_countersAgree_consumed :
    Reachable (nonContiguous [[1]] 0 1 0) ∧
      (nonContiguous [[1]] 0 1 0).current = none ∧
      ¬ CountersAgree (nonContiguous [[1]] 0 1 0) := by
  refine ⟨?_, rfl, ?_⟩
  · have called : (fromVecBytes [[1]]).next =
        some (some [1], nonContiguous [[1]] 0 1 0) := rfl
    exact .next (.fromVecBytes [[1]]) called
  · intro agree
    obtain ⟨_, _, _, _, _, item, rest, _, shown⟩ := agree
    cases shown

end OpenDal.Buffer.Inner
