import Mathlib.Data.List.Sort
import OpenDal.Intervals
import OpenDal.Types.BufferSequence
import OpenDal.Types.Error

/-!
# `Reader::fetch`

Many ranges are read at once: ranges that overlap or are close to each other
are merged, the merged ranges are read, and every range is cut out of the
buffer of the merged range it lies in.

The ends of ranges are `u64` and the gap is added to them without a check.
That addition and the index into an empty list of ranges are all that can go
wrong.
-/

namespace OpenDal

/-- `Buffer::slice`. -/
def Buffer.slice (buffer : Buffer) (range : RangeBounds) : Option Buffer :=
  let start := Inner.sliceBegin range
  let stop := Inner.sliceEnd range buffer.len
  if start ≤ stop ∧ stop ≤ buffer.len then
    if stop = start then some new else (buffer.truncate stop).advance start
  else
    none

theorem Buffer.slice_spec {buffer : Buffer} {start stop : Nat}
    (ordered : start ≤ stop) (bounded : stop ≤ buffer.len) :
    ∃ sliced, buffer.slice ⟨.included start, .excluded stop⟩ = some sliced ∧
      sliced.bytes = (buffer.bytes.drop start).take (stop - start) := by
  by_cases empty : stop = start
  · refine ⟨new, ?_, by simp [empty]⟩
    rw [slice, if_pos ⟨ordered, bounded⟩]
    exact if_pos empty
  · have room : start ≤ (buffer.truncate stop).len := by
      rw [len_truncate]
      omega
    obtain ⟨sliced, advanced, bytes⟩ := advance_spec room
    refine ⟨sliced, ?_, ?_⟩
    · rw [slice, if_pos ⟨ordered, bounded⟩]
      exact (if_neg empty).trans advanced
    · rw [bytes, bytes_truncate, List.drop_take]

/-- `Range<u64>`. -/
abbrev ReadRange := Intervals.Span Nat

/-- What `fetch` uses of a reader. -/
structure RangeReader where
  read : ReadRange → Except Error Buffer
  /-- `options.gap`. -/
  gap : Option Nat

/-- `sort_unstable_by` with the starts compared: ranges with the same start
come in any order. -/
structure UnstableSort where
  sort : List ReadRange → List ReadRange
  perm : ∀ ranges, (sort ranges).Perm ranges
  sorted : ∀ ranges, (sort ranges).Pairwise fun a b => a.start ≤ b.start

namespace RangeReader

def gapSize (reader : RangeReader) : Nat :=
  reader.gap.getD (1024 * 1024)

/-- `none` is an index into an empty vector or an overflow. -/
def mergeRanges (reader : RangeReader) (order : UnstableSort)
    (ranges : List ReadRange) : Option (List ReadRange) :=
  match order.sort ranges with
  | [] => none
  | cur :: rest =>
      Intervals.merge (fun stop => checkedAdd stop reader.gapSize) cur rest

/-- The buffers of the merged ranges.  `buffered` keeps their order, and
`try_collect` returns the first error in it. -/
def readMerged (reader : RangeReader) :
    List ReadRange → Except Error (List Buffer)
  | [] => .ok []
  | range :: ranges => do
      let buf ← reader.read range
      let bufs ← readMerged reader ranges
      .ok (buf :: bufs)

/-- `partition_point`: how many of the merged ranges come before the first
that starts later. -/
def partitionPoint (merged : List ReadRange) (start : Nat) : Nat :=
  (merged.takeWhile fun v => v.start ≤ start).length

/-- One round of the loop in `fetch`. -/
def cut (merged : List ReadRange) (mergedBufs : List Buffer)
    (range : ReadRange) : Option Buffer := do
  let idx ← checkedSub (partitionPoint merged range.start) 1
  let found ← merged[idx]?
  let start ← checkedSub range.start found.start
  let stop ← checkedSub range.stop found.start
  let buf ← mergedBufs[idx]?
  buf.slice ⟨.included start, .excluded stop⟩

/-- `none` is a panic. -/
def fetch (reader : RangeReader) (order : UnstableSort)
    (ranges : List ReadRange) : Option (Except Error (List Buffer)) := do
  let merged ← reader.mergeRanges order ranges
  match reader.readMerged merged with
  | .error err => some (.error err)
  | .ok mergedBufs => do
      let bufs ← ranges.mapM (cut merged mergedBufs)
      some (.ok bufs)

/-! ## Merging -/

/-- The gap can be added to the end of every range but the last one. -/
def Additive (reader : RangeReader) (order : UnstableSort)
    (ranges : List ReadRange) : Prop :=
  ∀ range ∈ (order.sort ranges).dropLast,
    range.stop + reader.gapSize < 2 ^ 64

theorem mergeRanges_isSome_iff (reader : RangeReader) (order : UnstableSort)
    (ranges : List ReadRange) :
    (reader.mergeRanges order ranges).isSome ↔
      ranges ≠ [] ∧ reader.Additive order ranges := by
  have members := order.perm ranges
  unfold mergeRanges Additive
  cases sorted : order.sort ranges with
  | nil =>
      rw [sorted] at members
      simp [members.symm.eq_nil]
  | cons cur rest =>
      have nonempty : ranges ≠ [] := by
        rintro rfl
        rw [sorted] at members
        exact absurd members.eq_nil (List.cons_ne_nil _ _)
      simp only [ne_eq, nonempty, not_false_eq_true, true_and]
      rw [Intervals.merge_isSome_iff]
      · simp only [isSome_checkedAdd]
      · intro a b
        simp only [isSome_checkedAdd]
        omega

/-- What merging comes to. -/
structure Merged (gap : Nat) (ranges merged : List ReadRange) : Prop where
  sorted : merged.Pairwise fun a b => a.start < b.start
  disjoint : merged.Pairwise fun a b => a.stop ≤ b.start
  separated : merged.Pairwise fun a b => a.stop + gap < b.start
  covers : ∀ range ∈ ranges, ∃ m ∈ merged, range.Within m

variable {reader : RangeReader} {order : UnstableSort}
  {ranges merged : List ReadRange}

theorem exists_merge (ran : reader.mergeRanges order ranges = some merged) :
    ∃ cur rest, order.sort ranges = cur :: rest ∧
      Intervals.merge (fun stop => checkedAdd stop reader.gapSize) cur rest =
        some merged := by
  unfold mergeRanges at ran
  split at ran
  · cases ran
  · rename_i cur rest sorted
    exact ⟨cur, rest, sorted, ran⟩

theorem apart_of_mergeRanges
    (ran : reader.mergeRanges order ranges = some merged) :
    merged.Pairwise (Intervals.Apart fun stop =>
      checkedAdd stop reader.gapSize) := by
  obtain ⟨cur, rest, sorted, merges⟩ := exists_merge ran
  exact Intervals.apart_of_merge (sorted ▸ order.sorted ranges) merges

theorem within_of_mergeRanges
    (ran : reader.mergeRanges order ranges = some merged) :
    ∀ range ∈ ranges, ∃ m ∈ merged, range.Within m := by
  obtain ⟨cur, rest, sorted, merges⟩ := exists_merge ran
  intro range member
  apply Intervals.within_of_merge (sorted ▸ order.sorted ranges) merges
  rw [← sorted]
  exact (order.perm ranges).mem_iff.mpr member

theorem stop_of_mergeRanges
    (ran : reader.mergeRanges order ranges = some merged) :
    ∀ m ∈ merged, ∃ range ∈ ranges, m.stop = range.stop := by
  obtain ⟨cur, rest, sorted, merges⟩ := exists_merge ran
  intro m member
  obtain ⟨range, origin, same⟩ := Intervals.stop_of_merge merges m member
  rw [← sorted] at origin
  exact ⟨range, (order.perm ranges).mem_iff.mp origin, same⟩

theorem proper_of_mergeRanges
    (proper : ∀ range ∈ ranges, range.start ≤ range.stop)
    (ran : reader.mergeRanges order ranges = some merged) :
    ∀ m ∈ merged, m.start ≤ m.stop := by
  obtain ⟨cur, rest, sorted, merges⟩ := exists_merge ran
  apply Intervals.proper_of_merge _ merges
  intro range member
  rw [← sorted] at member
  exact proper range ((order.perm ranges).mem_iff.mp member)

theorem merged_of_mergeRanges
    (proper : ∀ range ∈ ranges, range.start ≤ range.stop)
    (ran : reader.mergeRanges order ranges = some merged) :
    Merged reader.gapSize ranges merged := by
  have separated : merged.Pairwise fun a b =>
      a.stop + reader.gapSize < b.start := by
    apply (apart_of_mergeRanges ran).imp
    intro a b apart
    obtain ⟨limit, added, far⟩ := apart
    rwa [eq_of_checkedAdd added] at far
  constructor
  · apply separated.imp_of_mem
    intro a b member _ far
    have inside := proper_of_mergeRanges proper ran a member
    omega
  · apply separated.imp
    intro a b far
    omega
  · exact separated
  · exact within_of_mergeRanges ran

/-! ## Cutting -/

theorem readMerged_getElem {merged : List ReadRange} {bufs : List Buffer}
    (read : reader.readMerged merged = .ok bufs) {idx : Nat}
    {range : ReadRange} (found : merged[idx]? = some range) :
    ∃ buf, bufs[idx]? = some buf ∧ reader.read range = .ok buf := by
  induction merged generalizing bufs idx with
  | nil => cases found
  | cons first merged induction =>
      unfold readMerged at read
      cases answered : reader.read first with
      | error err =>
          rw [answered] at read
          cases read
      | ok buf =>
          cases later : reader.readMerged merged with
          | error err =>
              rw [answered, later] at read
              cases read
          | ok others =>
              rw [answered, later] at read
              cases read
              cases idx with
              | zero =>
                  cases found
                  exact ⟨buf, rfl, answered⟩
              | succ idx => exact induction later found

theorem cut_spec {mergedBufs : List Buffer}
    (proper : ∀ range ∈ ranges, range.start ≤ range.stop)
    (ran : reader.mergeRanges order ranges = some merged)
    (read : reader.readMerged merged = .ok mergedBufs)
    {range : ReadRange} (member : range ∈ ranges) :
    ∃ m buf, range.Within m ∧ m ∈ merged ∧ reader.read m = .ok buf ∧
      cut merged mergedBufs range =
        buf.slice ⟨.included (range.start - m.start),
          .excluded (range.stop - m.start)⟩ := by
  obtain ⟨m, result, within⟩ := within_of_mergeRanges ran range member
  have ordered := proper_of_mergeRanges proper ran
  have apart := apart_of_mergeRanges ran
  obtain ⟨front, back, split⟩ := List.append_of_mem result
  have point : partitionPoint merged range.start = front.length + 1 := by
    have inflationary : ∀ a limit,
        checkedAdd a reader.gapSize = some limit → a ≤ limit := by
      intro a limit added
      rw [eq_of_checkedAdd added]
      omega
    rw [split] at ordered apart
    have taken := Intervals.takeWhile_start_le inflationary ordered apart
      within (proper range member)
    rw [partitionPoint, split, taken, List.length_append,
      List.length_singleton]
  have found : merged[front.length]? = some m := by
    rw [split]
    simp
  obtain ⟨buf, kept, answered⟩ := readMerged_getElem read found
  refine ⟨m, buf, within, result, answered, ?_⟩
  have first : m.start ≤ range.start := within.1
  have last : m.start ≤ range.stop := first.trans (proper range member)
  simp [cut, point, found, kept, checkedSub, first, last]

/-- The cut succeeds when the buffers have the sizes that were asked for. -/
theorem cut_of_exact {mergedBufs : List Buffer}
    (proper : ∀ range ∈ ranges, range.start ≤ range.stop)
    (ran : reader.mergeRanges order ranges = some merged)
    (read : reader.readMerged merged = .ok mergedBufs)
    (exact : ∀ m ∈ merged, ∀ buf, reader.read m = .ok buf →
      buf.len = m.stop - m.start)
    {range : ReadRange} (member : range ∈ ranges) :
    ∃ m buf sliced, range.Within m ∧ m ∈ merged ∧ reader.read m = .ok buf ∧
      cut merged mergedBufs range = some sliced ∧
      sliced.bytes = (buf.bytes.drop (range.start - m.start)).take
        (range.stop - m.start - (range.start - m.start)) := by
  obtain ⟨m, buf, within, result, answered, cuts⟩ :=
    cut_spec proper ran read member
  have length := exact m result buf answered
  have between := proper range member
  obtain ⟨first, last⟩ := within
  obtain ⟨sliced, slice, part⟩ := Buffer.slice_spec
    (show range.start - m.start ≤ range.stop - m.start by omega)
    (show range.stop - m.start ≤ buf.len by omega)
  exact ⟨m, buf, sliced, ⟨first, last⟩, result, answered,
    cuts.trans slice, part⟩

/-! ## Results -/

/-- The bytes of the content that lie in the range. -/
def selects (content : Bytes) (range : ReadRange) : Bytes :=
  (content.drop range.start).take (range.stop - range.start)

theorem selects_within {content : Bytes} {range m : ReadRange}
    (within : range.Within m) :
    ((selects content m).drop (range.start - m.start)).take
      (range.stop - m.start - (range.start - m.start)) =
        selects content range := by
  obtain ⟨first, last⟩ := within
  have position : m.start + (range.start - m.start) = range.start :=
    Nat.add_sub_cancel' first
  have size : range.stop - m.start - (range.start - m.start) =
      range.stop - range.start := by omega
  rw [selects, selects, List.drop_take, List.drop_drop, position,
    List.take_take, size]
  congr 1
  omega

/-- Merging gives what it should, and every range is answered with its part
of the content. -/
def FetchesExactly (content : Bytes) (reader : RangeReader)
    (order : UnstableSort) (ranges : List ReadRange) : Prop :=
  ∃ merged bufs, reader.mergeRanges order ranges = some merged ∧
    Merged reader.gapSize ranges merged ∧
    reader.fetch order ranges = some (.ok bufs) ∧
    List.Forall₂ (fun range buf => buf.bytes = selects content range)
      ranges bufs

theorem mapM_eq_some {f : ReadRange → Option Buffer}
    {right : ReadRange → Buffer → Prop} {ranges : List ReadRange}
    (each : ∀ range ∈ ranges, ∃ buf, f range = some buf ∧ right range buf) :
    ∃ bufs, ranges.mapM f = some bufs ∧ List.Forall₂ right ranges bufs := by
  induction ranges with
  | nil => exact ⟨[], rfl, .nil⟩
  | cons range ranges induction =>
      rw [List.forall_mem_cons] at each
      obtain ⟨⟨buf, first, holds⟩, each⟩ := each
      obtain ⟨bufs, rest, all⟩ := induction each
      refine ⟨buf :: bufs, ?_, .cons holds all⟩
      simp [List.mapM_cons, first, rest]

theorem readMerged_ok {merged : List ReadRange}
    (reads : ∀ m ∈ merged, ∃ buf, reader.read m = .ok buf) :
    ∃ bufs, reader.readMerged merged = .ok bufs := by
  induction merged with
  | nil => exact ⟨[], rfl⟩
  | cons m merged induction =>
      rw [List.forall_mem_cons] at reads
      obtain ⟨⟨buf, first⟩, reads⟩ := reads
      obtain ⟨bufs, rest⟩ := induction reads
      refine ⟨buf :: bufs, ?_⟩
      rw [readMerged, first, rest]
      rfl

/-- A reader that returns the content returns exactly the ranges, provided
that the gap can be added to their ends. -/
theorem fetch_exact_iff (content : Bytes) (reader : RangeReader)
    (order : UnstableSort)
    (reads : ∀ range : ReadRange, range.start ≤ range.stop →
      range.stop ≤ content.length → ∃ buf, reader.read range = .ok buf ∧
        buf.bytes = selects content range)
    (ranges : List ReadRange) (nonempty : ranges ≠ [])
    (legal : ∀ range ∈ ranges, range.start ≤ range.stop ∧
      range.stop ≤ content.length) :
    FetchesExactly content reader order ranges ↔
      reader.Additive order ranges := by
  have proper : ∀ range ∈ ranges, range.start ≤ range.stop :=
    fun range member => (legal range member).1
  constructor
  · intro exact
    obtain ⟨merged, -, ran, -⟩ := exact
    have merges : (reader.mergeRanges order ranges).isSome := by
      rw [ran]
      rfl
    exact ((reader.mergeRanges_isSome_iff order ranges).mp merges).2
  · intro additive
    obtain ⟨merged, ran⟩ := Option.isSome_iff_exists.mp
      ((reader.mergeRanges_isSome_iff order ranges).mpr
        ⟨nonempty, additive⟩)
    have bounded : ∀ m ∈ merged, m.stop ≤ content.length := by
      intro m member
      obtain ⟨range, origin, same⟩ := stop_of_mergeRanges ran m member
      rw [same]
      exact (legal range origin).2
    have ordered := proper_of_mergeRanges proper ran
    obtain ⟨mergedBufs, read⟩ : ∃ bufs, reader.readMerged merged = .ok bufs := by
      apply readMerged_ok
      intro m member
      obtain ⟨buf, answered, -⟩ := reads m (ordered m member)
        (bounded m member)
      exact ⟨buf, answered⟩
    have exact : ∀ m ∈ merged, ∀ buf, reader.read m = .ok buf →
        buf.len = m.stop - m.start := by
      intro m member buf answered
      obtain ⟨other, same, bytes⟩ := reads m (ordered m member)
        (bounded m member)
      cases answered.symm.trans same
      have inside := bounded m member
      rw [← Buffer.length_bytes, bytes, selects]
      simp only [List.length_take, List.length_drop]
      omega
    have each : ∀ range ∈ ranges, ∃ buf,
        cut merged mergedBufs range = some buf ∧
          buf.bytes = selects content range := by
      intro range member
      obtain ⟨m, buf, sliced, within, result, answered, cuts, part⟩ :=
        cut_of_exact proper ran read exact member
      obtain ⟨other, same, bytes⟩ := reads m (ordered m result)
        (bounded m result)
      cases answered.symm.trans same
      refine ⟨sliced, cuts, ?_⟩
      rw [part, bytes, selects_within within]
    obtain ⟨bufs, cutAll, equal⟩ := mapM_eq_some each
    refine ⟨merged, bufs, ran, merged_of_mergeRanges proper ran, ?_, equal⟩
    simp [fetch, ran, read, cutAll]

/-- No index, addition or subtraction goes wrong, and nothing is fetched for
nothing. -/
def FetchesSafely (reader : RangeReader) (order : UnstableSort)
    (ranges : List ReadRange) : Prop :=
  (reader.fetch order ranges).isSome ∧
    (ranges = [] → reader.fetch order ranges = some (.ok []))

/-- The reader may fail, but what it returns has the size of the range; that
is what the complete layer checks. -/
theorem fetch_safe_iff (reader : RangeReader) (order : UnstableSort)
    (exact : ∀ (range : ReadRange) (buf : Buffer),
      range.start ≤ range.stop → reader.read range = .ok buf →
      buf.len = range.stop - range.start)
    (ranges : List ReadRange)
    (proper : ∀ range ∈ ranges, range.start ≤ range.stop) :
    FetchesSafely reader order ranges ↔
      ranges ≠ [] ∧ reader.Additive order ranges := by
  rw [← mergeRanges_isSome_iff]
  constructor
  · intro safe
    obtain ⟨result, fetched⟩ := Option.isSome_iff_exists.mp safe.1
    unfold fetch at fetched
    obtain ⟨merged, ran, -⟩ := Option.bind_eq_some_iff.mp fetched
    rw [ran]
    rfl
  · intro merges
    obtain ⟨merged, ran⟩ := Option.isSome_iff_exists.mp merges
    have nonempty :=
      ((reader.mergeRanges_isSome_iff order ranges).mp merges).1
    refine ⟨?_, fun empty => absurd empty nonempty⟩
    have ordered := proper_of_mergeRanges proper ran
    simp only [fetch, ran, Option.bind_eq_bind, Option.bind_some]
    cases read : reader.readMerged merged with
    | error err => rfl
    | ok mergedBufs =>
        have each : ∀ range ∈ ranges, ∃ buf,
            cut merged mergedBufs range = some buf ∧ True := by
          intro range member
          obtain ⟨m, buf, sliced, -, -, -, cuts, -⟩ := cut_of_exact proper
            ran read (fun m member buf answered =>
              exact m buf (ordered m member) answered) member
          exact ⟨sliced, cuts, trivial⟩
        obtain ⟨bufs, cutAll, -⟩ := mapM_eq_some each
        simp [cutAll]

end RangeReader

/-! ## Instances -/

theorem start_total (a b : ReadRange) :
    a.start ≤ b.start ∨ b.start ≤ a.start :=
  Nat.le_total a.start b.start

/-- Sorting by insertion. -/
def insertionOrder : UnstableSort where
  sort := List.insertionSort fun a b => a.start ≤ b.start
  perm := List.perm_insertionSort _
  sorted ranges := by
    have : Std.Total fun a b : ReadRange => a.start ≤ b.start :=
      ⟨start_total⟩
    have : IsTrans ReadRange fun a b => a.start ≤ b.start :=
      ⟨fun _ _ _ => Nat.le_trans⟩
    exact List.pairwise_insertionSort _ ranges

/-- A reader that cuts its ranges out of the content. -/
def contentReader (content : Bytes) (gap : Option Nat) : RangeReader where
  read range :=
    .ok (Buffer.fromBytes (RangeReader.selects content range))
  gap := gap

namespace RangeReader

theorem fetch_exact_overlapping :
    FetchesExactly [1, 2, 3, 4, 5, 6] (contentReader [1, 2, 3, 4, 5, 6] (some 1))
      insertionOrder [⟨4, 6⟩, ⟨0, 2⟩, ⟨1, 2⟩, ⟨0, 0⟩] := by
  apply (fetch_exact_iff _ _ _ _ _ (by decide) (by decide)).mpr
  · show ∀ range ∈ ([⟨0, 2⟩, ⟨0, 0⟩, ⟨1, 2⟩] : List ReadRange), _
    decide
  · intro range _ _
    exact ⟨_, rfl, rfl⟩

/-- With the largest gap the end of the first range cannot be added to it. -/
theorem fetch_exact_fails_gap :
    ¬ FetchesExactly [1] (contentReader [1] (some (2 ^ 64 - 1)))
      insertionOrder [⟨0, 1⟩, ⟨0, 1⟩] := by
  intro exact
  obtain ⟨merged, bufs, ran, -⟩ := exact
  have overflow : (contentReader [1] (some (2 ^ 64 - 1))).mergeRanges
      insertionOrder [⟨0, 1⟩, ⟨0, 1⟩] = none := by decide
  rw [overflow] at ran
  cases ran

/-- A reader of a service that is down. -/
def failingReader : RangeReader where
  read _ := .error (Error.new .unexpected "not connected")
  gap := none

theorem fetch_safe_failing :
    FetchesSafely failingReader insertionOrder [⟨4, 6⟩, ⟨0, 2⟩] := by
  apply (fetch_safe_iff _ _ _ _ (by decide)).mpr
  · refine ⟨by decide, ?_⟩
    show ∀ range ∈ ([⟨0, 2⟩] : List ReadRange), _
    decide
  · intro range buf _ answered
    cases answered

/-- There is no first range in an empty list, and the default gap cannot be
added to the last position. -/
theorem fetch_safe_fails :
    ¬ FetchesSafely failingReader insertionOrder [] ∧
      ¬ FetchesSafely failingReader insertionOrder
        [⟨0, 2 ^ 64 - 1⟩, ⟨5, 6⟩] := by
  constructor
  · intro safe
    have fetched := safe.1
    revert fetched
    decide
  · intro safe
    have fetched := safe.1
    revert fetched
    decide

end RangeReader

end OpenDal
