import OpenDal.Types.ReadGenerator

/-!
# The ranges of a generator

One call of `next_range` after the other cuts the range of a generator into
ranges that stand side by side, all of them of the size of a chunk except the
last one, and then there is nothing for ever.  The size `Some(0)` is the end of
a bounded range and of an unbounded one.
-/

namespace OpenDal

namespace ReadGenerator

variable {R : Type}

/-- The generator after some calls of `next_range`. -/
def after : Nat → ReadGenerator R → ReadGenerator R
  | 0, generator => generator
  | count + 1, generator => after count generator.nextRange.2

/-- Ranges of these sizes, side by side. -/
def place : Nat → List Nat → List BytesRange
  | _, [] => []
  | offset, size :: sizes => ⟨offset, some size⟩ :: place (offset + size) sizes

/-- All parts of a whole are of the size of a chunk, except that the last one
may be smaller.  Without chunks there is one part. -/
structure IsTiling (chunk : Option Nat) (whole : Nat) (sizes : List Nat) :
    Prop where
  sum : sizes.sum = whole
  positive : ∀ size ∈ sizes, 0 < size
  single : chunk = none → sizes = if whole = 0 then [] else [whole]
  full : ∀ size, chunk = some size → ∀ other ∈ sizes.dropLast, other = size
  bounded : ∀ size, chunk = some size → ∀ other ∈ sizes, other ≤ size

theorem isTiling_zero (chunk : Option Nat) : IsTiling chunk 0 [] where
  sum := rfl
  positive := nofun
  single _ := rfl
  full _ _ := nofun
  bounded _ _ := nofun

/-- One chunk in front of a tiling of the rest. -/
theorem IsTiling.cons {generator : ReadGenerator R} {remaining : Nat}
    (positive : 0 < remaining) {sizes : List Nat}
    (tiling : IsTiling generator.ctx.options.chunk
      (remaining - generator.readSize remaining) sizes) :
    IsTiling generator.ctx.options.chunk remaining
      (generator.readSize remaining :: sizes) := by
  obtain ⟨nonempty, within⟩ := generator.readSize_spec positive
  constructor
  · rw [List.sum_cons, tiling.sum]
    omega
  · intro size member
    rcases List.mem_cons.mp member with rfl | later
    · exact nonempty
    · exact tiling.positive size later
  · intro none
    have whole : generator.readSize remaining = remaining := by
      rw [readSize, none]
    have rest := tiling.single none
    rw [whole, Nat.sub_self, if_pos rfl] at rest
    rw [whole, rest, if_neg (by omega)]
  · intro chunk chosen other member
    have size : generator.readSize remaining = min remaining chunk := by
      rw [readSize, chosen]
    cases sizes with
    | nil => cases member
    | cons second sizes =>
        rw [List.dropLast_cons_cons] at member
        rcases List.mem_cons.mp member with rfl | later
        · -- something is left behind it
          have left := tiling.positive second List.mem_cons_self
          have total := tiling.sum
          rw [List.sum_cons] at total
          omega
        · exact tiling.full chunk chosen other later
  · intro chunk chosen other member
    rcases List.mem_cons.mp member with rfl | later
    · rw [readSize, chosen]
      exact Nat.min_le_right _ _
    · exact tiling.bounded chunk chosen other later

/-! ## Calls -/

theorem nextRange_end {generator : ReadGenerator R}
    (ended : generator.size = some 0) :
    generator.nextRange = (none, generator) := by
  rw [nextRange, if_pos ended]

theorem nextRange_inside {generator : ReadGenerator R} {remaining : Nat}
    (known : generator.size = some remaining) (positive : 0 < remaining) :
    generator.nextRange =
      (some ⟨generator.offset, some (generator.readSize remaining)⟩,
        { generator with
          offset := generator.offset + generator.readSize remaining
          size := some (remaining - generator.readSize remaining) }) := by
  have unfinished : ¬ some remaining = some 0 := by
    intro same
    cases same
    exact Nat.lt_irrefl 0 positive
  simp only [nextRange, known, if_neg unfinished]

theorem after_end {generator : ReadGenerator R}
    (ended : generator.size = some 0) (count : Nat) :
    generator.after count = generator := by
  induction count with
  | zero => rfl
  | succ count induction =>
      rw [after, nextRange_end ended]
      exact induction

theorem exists_tiling {remaining : Nat} {generator : ReadGenerator R}
    (known : generator.size = some remaining) :
    ∃ sizes, IsTiling generator.ctx.options.chunk remaining sizes ∧
      ∀ count,
        (generator.after count).nextRange.1 =
            (place generator.offset sizes)[count]? ∧
          (generator.after count).offset ≤ generator.offset + remaining := by
  induction remaining using Nat.strongRecOn generalizing generator with
  | _ remaining induction =>
      rcases Nat.eq_zero_or_pos remaining with rfl | positive
      · refine ⟨[], isTiling_zero _, ?_⟩
        intro count
        rw [after_end known, nextRange_end known]
        exact ⟨rfl, Nat.le_refl _⟩
      · obtain ⟨nonempty, within⟩ := generator.readSize_spec positive
        have next := nextRange_inside known positive
        have shorter : remaining - generator.readSize remaining < remaining :=
          by omega
        obtain ⟨sizes, tiling, calls⟩ := induction _ shorter
          (show generator.nextRange.2.size =
            some (remaining - generator.readSize remaining) by rw [next])
        rw [next] at tiling calls
        refine ⟨generator.readSize remaining :: sizes, tiling.cons positive, ?_⟩
        intro count
        cases count with
        | zero =>
            rw [after, next]
            exact ⟨rfl, Nat.le_add_right _ _⟩
        | succ count =>
            obtain ⟨found, moved⟩ := calls count
            rw [after, next, place, List.getElem?_cons_succ]
            refine ⟨found, ?_⟩
            simp only at moved ⊢
            omega

/-- `next_range` tiles the range of the generator, without an overflow of the
offset, and then returns nothing.  Of a range without an end it returns one
range. -/
theorem nextRange_tiles (ctx : ReadContext R) {offset size : Nat}
    (fits : offset + size < 2 ^ 64) :
    (∃ sizes, IsTiling ctx.options.chunk size sizes ∧
      ∀ count,
        ((new ctx offset (some size)).after count).nextRange.1 =
            (place offset sizes)[count]? ∧
          ((new ctx offset (some size)).after count).offset < 2 ^ 64) ∧
      ∀ count, ((new ctx offset none).after count).nextRange.1 =
        [(⟨offset, none⟩ : BytesRange)][count]? := by
  constructor
  · have known : (new ctx offset (some size)).size = some size := rfl
    obtain ⟨sizes, tiling, calls⟩ := exists_tiling known
    refine ⟨sizes, tiling, ?_⟩
    intro count
    obtain ⟨found, moved⟩ := calls count
    exact ⟨found, Nat.lt_of_le_of_lt moved fits⟩
  · intro count
    cases count with
    | zero => rfl
    | succ count =>
        have ended : (new ctx offset none).nextRange.2.size = some 0 := rfl
        rw [after, after_end ended, nextRange_end ended]
        rfl

/-- Chunks of four bytes of an empty service. -/
def chunksOfFour : ReadContext ScriptedReader :=
  .new (bytewiseAccessor []) "" ⟨⟨0, none⟩, none⟩ (OpReader.new.withChunk 4)

theorem nextRange_tiles_chunks :
    (∃ sizes, IsTiling chunksOfFour.options.chunk 10 sizes ∧
      ∀ count,
        ((new chunksOfFour 3 (some 10)).after count).nextRange.1 =
            (place 3 sizes)[count]? ∧
          ((new chunksOfFour 3 (some 10)).after count).offset < 2 ^ 64) ∧
      ∀ count, ((new chunksOfFour 3 none).after count).nextRange.1 =
        [(⟨3, none⟩ : BytesRange)][count]? :=
  nextRange_tiles chunksOfFour (by decide)

example :
    (List.range 5).map (fun count =>
        ((new chunksOfFour 3 (some 10)).after count).nextRange.1) =
      [some ⟨3, some 4⟩, some ⟨7, some 4⟩, some ⟨11, some 2⟩, none, none] := by
  decide

end ReadGenerator

end OpenDal
