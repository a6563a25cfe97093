import Mathlib.Data.List.Basic
import Mathlib.Data.List.Infix

/-!
# Trees that are closed under prefixes

A tree is the set of the ways down from its root, as a test on lists of names.
It is closed when what leads to something in the tree is in the tree as well.
What `missing` lists has to be added, from the top, before the tree reaches
down to `dir`.
-/

namespace PrefixTree

variable {α : Type} {tree : List α → Bool} {dir front : List α} {name : α}

structure Closed (tree : List α → Bool) : Prop where
  root : tree [] = true
  parent : ∀ dir name, tree (dir ++ [name]) = true → tree dir = true

theorem Closed.of_prefix (closed : Closed tree) {short long : List α}
    (above : short <+: long) (present : tree long = true) :
    tree short = true := by
  induction long using List.reverseRecOn with
  | nil =>
      rw [List.prefix_nil.mp above]
      exact present
  | append_singleton long name induction =>
      rcases List.prefix_concat_iff.mp above with same | shorter
      · rw [same]
        exact present
      · exact induction shorter (closed.parent long name present)

theorem Closed.absent (closed : Closed tree) {short long : List α}
    (above : short <+: long) (absent : tree short = false) :
    tree long = false := by
  rw [← Bool.not_eq_true]
  intro present
  rw [closed.of_prefix above present] at absent
  cases absent

/-! ## What is missing -/

/-- What the tree lacks of the way down to `dir`, from the top. -/
def missing (tree : List α → Bool) (dir : List α) : List (List α) :=
  dir.inits.filter fun above => !tree above

theorem mem_missing {above : List α} :
    above ∈ missing tree dir ↔ above <+: dir ∧ tree above = false := by
  simp [missing]

theorem inits_concat (dir : List α) (name : α) :
    (dir ++ [name]).inits = dir.inits ++ [dir ++ [name]] := by
  rw [List.inits_append]
  rfl

theorem missing_of_present (closed : Closed tree)
    (present : tree dir = true) : missing tree dir = [] := by
  rw [List.eq_nil_iff_forall_not_mem]
  intro above member
  obtain ⟨below, absent⟩ := mem_missing.mp member
  rw [closed.of_prefix below present] at absent
  cases absent

theorem missing_concat (absent : tree (dir ++ [name]) = false) :
    missing tree (dir ++ [name]) =
      missing tree dir ++ [dir ++ [name]] := by
  rw [missing, inits_concat, List.filter_append]
  simp [missing, absent]

theorem pairwise_inits (dir : List α) :
    dir.inits.Pairwise fun parent child =>
      parent <+: child ∧ parent ≠ child := by
  induction dir using List.reverseRecOn with
  | nil => simp
  | append_singleton dir name induction =>
      rw [inits_concat, List.pairwise_append]
      refine ⟨induction, List.pairwise_singleton _ _, ?_⟩
      intro above member last isLast
      rw [List.mem_inits] at member
      rw [List.mem_singleton.mp isLast]
      refine ⟨member.trans (List.prefix_append _ _), ?_⟩
      intro same
      have shorter := member.length_le
      rw [same, List.length_append, List.length_singleton] at shorter
      omega

theorem pairwise_missing (tree : List α → Bool) (dir : List α) :
    (missing tree dir).Pairwise fun parent child =>
      parent <+: child ∧ parent ≠ child :=
  (pairwise_inits dir).filter _

theorem missing_append (closed : Closed tree)
    (above : tree dir.dropLast = true) :
    missing tree (dir ++ front) =
      (front.inits.map (dir ++ ·)).filter fun below => !tree below := by
  have upper : dir.inits.filter (fun above => !tree above) =
      [dir].filter fun above => !tree above := by
    rcases List.eq_nil_or_concat dir with rfl | ⟨parent, name, rfl⟩
    · rfl
    · rw [List.concat_eq_append] at above ⊢
      rw [List.dropLast_concat] at above
      have none := missing_of_present closed above
      rw [inits_concat, List.filter_append, ← missing, none,
        List.nil_append]
  have first : front.inits = [] :: front.inits.tail := by
    cases front with
    | nil => rfl
    | cons name front => rfl
  rw [missing, List.inits_append, List.filter_append, upper, first,
    List.map_cons, List.append_nil, List.tail_cons, ← List.filter_append,
    List.singleton_append]

theorem drop_inits (closed : Closed tree) (dir front : List α) :
    (front.inits.map (dir ++ ·)).drop
        ((front.inits.map (dir ++ ·)).filter tree).length =
      (front.inits.map (dir ++ ·)).filter fun below => !tree below := by
  induction front using List.reverseRecOn with
  | nil =>
      rw [List.inits, List.map_singleton, List.append_nil,
        List.filter_singleton, List.filter_singleton]
      cases tree dir with
      | true => rfl
      | false => rfl
  | append_singleton front name induction =>
      by_cases present : tree (dir ++ (front ++ [name])) = true
      · have all : ∀ below ∈ (front ++ [name]).inits.map (dir ++ ·),
            tree below = true := by
          intro below member
          obtain ⟨inner, inside, rfl⟩ := List.mem_map.mp member
          rw [List.mem_inits] at inside
          exact closed.of_prefix
            ((List.prefix_append_right_inj dir).mpr inside) present
        rw [List.filter_eq_self.mpr all, List.drop_length]
        symm
        rw [List.filter_eq_nil_iff]
        intro below member
        simp [all below member]
      · rw [Bool.not_eq_true] at present
        have fewer := List.length_filter_le tree
          (front.inits.map (dir ++ ·))
        rw [inits_concat, List.map_append, List.filter_append,
          List.filter_append, ← induction, List.map_singleton,
          List.filter_singleton, List.filter_singleton, present]
        rw [Bool.not_false, cond_false, cond_true, List.append_nil,
          List.drop_append_of_le_length fewer]

end PrefixTree
