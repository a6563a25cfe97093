import Mathlib.Order.Lattice
import Mathlib.Order.Defs.LinearOrder
import Mathlib.Data.List.Basic

/-!
# Merging intervals

Intervals sorted by their starts are merged from left to right: as long as the
next one starts within reach of the current one, the two become one.  How far
the reach of an interval goes is given by a partial function of its end, so
that an arithmetic which overflows can be one.

What comes out is sorted and keeps out of each other's reach, and everything
that went in lies inside of one of the results.  That one is found as the last
result which does not start later.
-/

namespace Intervals

structure Span (α : Type) where
  start : α
  stop : α
deriving DecidableEq, Repr

variable {α : Type} [LinearOrder α]

/-- The interval lies inside of the other. -/
def Span.Within (inner outer : Span α) : Prop :=
  outer.start ≤ inner.start ∧ inner.stop ≤ outer.stop

/-- Merge the intervals into `cur` and what follows it; `none` when the reach
of an interval is asked for that has none. -/
def merge (reach : α → Option α) :
    Span α → List (Span α) → Option (List (Span α))
  | cur, [] => some [cur]
  | cur, next :: rest => do
      let limit ← reach cur.stop
      if next.start ≤ limit then
        merge reach { cur with stop := max cur.stop next.stop } rest
      else
        let merged ← merge reach next rest
        some (cur :: merged)

/-- The second interval starts out of reach of the first. -/
def Apart (reach : α → Option α) (left right : Span α) : Prop :=
  ∃ limit, reach left.stop = some limit ∧ limit < right.start

variable {reach : α → Option α} {cur : Span α}
  {rest merged : List (Span α)}

theorem merge_cons_eq_some {next : Span α}
    (ran : merge reach cur (next :: rest) = some merged) :
    ∃ limit, reach cur.stop = some limit ∧
      ((next.start ≤ limit ∧
          merge reach { cur with stop := max cur.stop next.stop } rest =
            some merged) ∨
        (limit < next.start ∧ ∃ others,
          merge reach next rest = some others ∧ merged = cur :: others)) := by
  simp only [merge, bind, Option.bind_eq_some_iff] at ran
  obtain ⟨limit, reached, ran⟩ := ran
  refine ⟨limit, reached, ?_⟩
  split at ran
  · rename_i near
    exact .inl ⟨near, ran⟩
  · rename_i far
    obtain ⟨others, later, same⟩ := Option.bind_eq_some_iff.mp ran
    cases same
    exact .inr ⟨lt_of_not_ge far, others, later, rfl⟩

/-- What holds of the intervals, and is kept when one of them is extended to
the end of the next, holds of the results. -/
theorem forall_of_merge (holds : Span α → Prop)
    (extended : ∀ left right, holds left → holds right →
      holds { left with stop := max left.stop right.stop })
    (given : ∀ r ∈ cur :: rest, holds r)
    (ran : merge reach cur rest = some merged) : ∀ m ∈ merged, holds m := by
  induction rest generalizing cur merged with
  | nil =>
      cases ran
      exact given
  | cons next rest induction =>
      rw [List.forall_mem_cons, List.forall_mem_cons] at given
      obtain ⟨first, second, given⟩ := given
      obtain ⟨limit, -, ⟨-, later⟩ | ⟨-, others, later, rfl⟩⟩ :=
        merge_cons_eq_some ran
      · apply induction _ later
        rw [List.forall_mem_cons]
        exact ⟨extended cur next first second, given⟩
      · rw [List.forall_mem_cons]
        refine ⟨first, induction ?_ later⟩
        rw [List.forall_mem_cons]
        exact ⟨second, given⟩

theorem start_of_merge (ran : merge reach cur rest = some merged) :
    ∀ m ∈ merged, ∃ r ∈ cur :: rest, m.start = r.start := by
  apply forall_of_merge (fun m => ∃ r ∈ cur :: rest, m.start = r.start)
    _ _ ran
  · intro left right starts _
    exact starts
  · intro r member
    exact ⟨r, member, rfl⟩

theorem stop_of_merge (ran : merge reach cur rest = some merged) :
    ∀ m ∈ merged, ∃ r ∈ cur :: rest, m.stop = r.stop := by
  apply forall_of_merge (fun m => ∃ r ∈ cur :: rest, m.stop = r.stop)
    _ _ ran
  · intro left right leftStops rightStops
    rcases le_total left.stop right.stop with larger | smaller
    · simpa only [max_eq_right larger] using rightStops
    · simpa only [max_eq_left smaller] using leftStops
  · intro r member
    exact ⟨r, member, rfl⟩

theorem proper_of_merge (proper : ∀ r ∈ cur :: rest, r.start ≤ r.stop)
    (ran : merge reach cur rest = some merged) :
    ∀ m ∈ merged, m.start ≤ m.stop := by
  apply forall_of_merge (fun m => m.start ≤ m.stop) _ proper ran
  intro left right leftProper _
  exact le_trans leftProper (le_max_left _ _)

theorem within_of_merge
    (sorted : (cur :: rest).Pairwise fun a b => a.start ≤ b.start)
    (ran : merge reach cur rest = some merged) :
    ∀ r ∈ cur :: rest, ∃ m ∈ merged, r.Within m := by
  induction rest generalizing cur merged with
  | nil =>
      cases ran
      intro r member
      exact ⟨r, member, le_refl _, le_refl _⟩
  | cons next rest induction =>
      rw [List.pairwise_cons] at sorted
      obtain ⟨first, sorted⟩ := sorted
      obtain ⟨limit, -, ⟨-, later⟩ | ⟨-, others, later, rfl⟩⟩ :=
        merge_cons_eq_some ran
      · have stillSorted : (({ cur with stop := max cur.stop next.stop } :
            Span α) :: rest).Pairwise fun a b => a.start ≤ b.start := by
          rw [List.pairwise_cons] at sorted ⊢
          exact ⟨fun r member => first r (List.mem_cons_of_mem _ member),
            sorted.2⟩
        have covered := induction stillSorted later
        obtain ⟨m, result, starts, stops⟩ := covered _ List.mem_cons_self
        intro r member
        rcases List.mem_cons.mp member with rfl | member
        · exact ⟨m, result, starts, le_trans (le_max_left _ _) stops⟩
        · rcases List.mem_cons.mp member with rfl | member
          · exact ⟨m, result, le_trans starts (first r List.mem_cons_self),
              le_trans (le_max_right _ _) stops⟩
          · exact covered r (List.mem_cons_of_mem _ member)
      · intro r member
        rcases List.mem_cons.mp member with rfl | member
        · exact ⟨r, List.mem_cons_self, le_refl _, le_refl _⟩
        · obtain ⟨m, result, within⟩ := induction sorted later r member
          exact ⟨m, List.mem_cons_of_mem _ result, within⟩

theorem apart_of_merge
    (sorted : (cur :: rest).Pairwise fun a b => a.start ≤ b.start)
    (ran : merge reach cur rest = some merged) :
    merged.Pairwise (Apart reach) := by
  induction rest generalizing cur merged with
  | nil =>
      cases ran
      exact List.pairwise_singleton _ _
  | cons next rest induction =>
      rw [List.pairwise_cons] at sorted
      obtain ⟨first, sorted⟩ := sorted
      obtain ⟨limit, reached, ⟨-, later⟩ | ⟨far, others, later, rfl⟩⟩ :=
        merge_cons_eq_some ran
      · apply induction _ later
        rw [List.pairwise_cons] at sorted ⊢
        exact ⟨fun r member => first r (List.mem_cons_of_mem _ member),
          sorted.2⟩
      · rw [List.pairwise_cons]
        refine ⟨?_, induction sorted later⟩
        intro m member
        obtain ⟨r, origin, same⟩ := start_of_merge later m member
        refine ⟨limit, reached, ?_⟩
        rw [same]
        rcases List.mem_cons.mp origin with rfl | origin
        · exact far
        · exact lt_of_lt_of_le far ((List.pairwise_cons.mp sorted).1 r origin)

/-- A merge asks for the reach of all intervals but the last. -/
theorem merge_isSome_iff
    (joint : ∀ a b, (reach (max a b)).isSome ↔
      (reach a).isSome ∧ (reach b).isSome) :
    (merge reach cur rest).isSome ↔
      ∀ r ∈ (cur :: rest).dropLast, (reach r.stop).isSome := by
  induction rest generalizing cur with
  | nil => simp [merge]
  | cons next rest induction =>
      rw [List.dropLast_cons_of_ne_nil (List.cons_ne_nil _ _),
        List.forall_mem_cons, merge]
      cases reached : reach cur.stop with
      | none => simp
      | some limit =>
          simp only [Option.bind_eq_bind, Option.bind_some,
            Option.isSome_some, true_and]
          split
          · rw [induction]
            cases rest with
            | nil => simp
            | cons other rest =>
                rw [List.dropLast_cons_of_ne_nil (List.cons_ne_nil _ _),
                  List.dropLast_cons_of_ne_nil (List.cons_ne_nil _ _),
                  List.forall_mem_cons, List.forall_mem_cons, joint, reached]
                simp
          · rw [← induction]
            cases merge reach next rest with
            | none => rfl
            | some merged => rfl

/-! ## Finding an interval -/

/-- An interval inside of a result is found in the last result that does not
start later. -/
theorem takeWhile_start_le {r m : Span α}
    {front back : List (Span α)}
    (inflationary : ∀ a limit, reach a = some limit → a ≤ limit)
    (ordered : ∀ result ∈ front ++ m :: back, result.start ≤ result.stop)
    (apart : (front ++ m :: back).Pairwise (Apart reach))
    (within : r.Within m) (proper : r.start ≤ r.stop) :
    (front ++ m :: back).takeWhile (fun m => m.start ≤ r.start) =
      front ++ [m] := by
  rw [List.pairwise_append, List.pairwise_cons] at apart
  obtain ⟨-, ⟨behind, -⟩, before⟩ := apart
  have fronts : ∀ f ∈ front, decide (f.start ≤ r.start) = true := by
    intro f member
    obtain ⟨limit, reached, far⟩ := before f member m List.mem_cons_self
    have proper := ordered f (List.mem_append_left _ member)
    have grows := inflationary _ _ reached
    exact decide_eq_true
      ((proper.trans grows).trans (far.le.trans within.1))
  have inside : decide (m.start ≤ r.start) = true := decide_eq_true within.1
  rw [List.takeWhile_append_of_pos fronts, List.takeWhile_cons,
    if_pos inside]
  cases back with
  | nil => rfl
  | cons next back =>
      obtain ⟨limit, reached, far⟩ := behind next List.mem_cons_self
      have grows := inflationary _ _ reached
      have later : r.start < next.start :=
        lt_of_le_of_lt ((proper.trans within.2).trans grows) far
      rw [List.takeWhile_cons, if_neg (by simpa using later)]

end Intervals
