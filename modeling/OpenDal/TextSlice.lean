import Mathlib.Algebra.GroupWithZero.Nat
import Mathlib.Data.List.Basic

/-!
# Slices of texts

The bounds of a slice count bytes of UTF-8.  A text can be cut where one of
its characters starts, and at its end.
-/

namespace TextSlice

/-- `str::len`. -/
def byteLength (text : List Char) : Nat :=
  (text.map Char.utf8Size).sum

/-- `&text[start..]`; `none` is the panic beyond the end, or in the middle of a
character. -/
def sliceFrom : Nat → List Char → Option (List Char)
  | 0, text => some text
  | _ + 1, [] => none
  | start + 1, c :: text =>
      if c.utf8Size ≤ start + 1 then
        sliceFrom (start + 1 - c.utf8Size) text
      else
        none

@[simp] theorem byteLength_nil : byteLength [] = 0 := rfl

@[simp] theorem byteLength_cons (c : Char) (text : List Char) :
    byteLength (c :: text) = c.utf8Size + byteLength text := by
  simp [byteLength]

@[simp] theorem byteLength_append (left right : List Char) :
    byteLength (left ++ right) = byteLength left + byteLength right := by
  simp [byteLength]

theorem byteLength_eq_zero {text : List Char} :
    byteLength text = 0 ↔ text = [] := by
  cases text with
  | nil => simp
  | cons c text =>
      have positive := c.utf8Size_pos
      rw [byteLength_cons]
      constructor
      · intro zero
        omega
      · intro empty
        cases empty

theorem length_of_byteLength_eq_one {text : List Char}
    (single : byteLength text = 1) : text.length = 1 := by
  cases text with
  | nil => cases single
  | cons c rest =>
      have positive := c.utf8Size_pos
      rw [byteLength_cons] at single
      have empty : rest = [] := by
        rw [← byteLength_eq_zero]
        omega
      simp [empty]

@[simp] theorem sliceFrom_zero (text : List Char) :
    sliceFrom 0 text = some text := by
  cases text with
  | nil => rfl
  | cons c text => rfl

theorem sliceFrom_zero_iff {text rest : List Char} :
    sliceFrom 0 text = some rest ↔
      ∃ before, text = before ++ rest ∧ byteLength before = 0 := by
  rw [sliceFrom_zero, Option.some.injEq]
  constructor
  · intro same
    exact ⟨[], same, rfl⟩
  · intro found
    obtain ⟨before, same, zero⟩ := found
    rw [byteLength_eq_zero.mp zero] at same
    exact same

theorem sliceFrom_eq_some_iff {start : Nat} {text rest : List Char} :
    sliceFrom start text = some rest ↔
      ∃ before, text = before ++ rest ∧ byteLength before = start := by
  induction text generalizing start with
  | nil =>
      cases start with
      | zero => exact sliceFrom_zero_iff
      | succ start =>
          simp only [sliceFrom, List.nil_eq_append_iff]
          constructor
          · intro cut
            cases cut
          · intro found
            obtain ⟨before, ⟨rfl, -⟩, long⟩ := found
            cases long
  | cons c text induction =>
      cases start with
      | zero => exact sliceFrom_zero_iff
      | succ start =>
          have positive := c.utf8Size_pos
          rw [sliceFrom]
          constructor
          · intro cut
            split at cut
            · next reaches =>
                obtain ⟨before, same, long⟩ := induction.mp cut
                refine ⟨c :: before, by rw [same, List.cons_append], ?_⟩
                rw [byteLength_cons, long]
                omega
            · cases cut
          · intro found
            obtain ⟨before, same, long⟩ := found
            cases before with
            | nil => cases long
            | cons first before =>
                obtain ⟨rfl, behind⟩ := List.cons.inj same
                rw [byteLength_cons] at long
                have reaches : c.utf8Size ≤ start + 1 := by omega
                rw [if_pos reaches]
                exact induction.mpr ⟨before, behind, by omega⟩

theorem sliceFrom_eq_none_iff (start : Nat) (text : List Char) :
    sliceFrom start text = none ↔
      ¬ ∃ before, before <+: text ∧ byteLength before = start := by
  rw [Option.eq_none_iff_forall_ne_some]
  constructor
  · intro uncut found
    obtain ⟨before, ⟨rest, same⟩, long⟩ := found
    exact uncut rest (sliceFrom_eq_some_iff.mpr ⟨before, same.symm, long⟩)
  · intro nowhere rest cut
    obtain ⟨before, same, long⟩ := sliceFrom_eq_some_iff.mp cut
    exact nowhere ⟨before, ⟨rest, same.symm⟩, long⟩

theorem sliceFrom_append (before rest : List Char) :
    sliceFrom (byteLength before) (before ++ rest) = some rest :=
  sliceFrom_eq_some_iff.mpr ⟨before, rfl, rfl⟩

end TextSlice
