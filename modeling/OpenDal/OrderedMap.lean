import Mathlib.Data.List.Infix
import Mathlib.Logic.Function.Basic
import Mathlib.Tactic.Common

/-!
# Ordered maps

A map is kept as the list of its entries in ascending order of their keys, for
any strict order of the keys.

Where keys are compared letter by letter, those that start with a given one
stand together and right behind it.  So a walk that begins there may stop at
the first other key.
-/

/-! ## Entries by key -/

theorem OrderedMap.lookup_filter_ne {K V : Type} [DecidableEq K] [BEq K]
    [LawfulBEq K] (items : List (K × V)) (key : K) :
    (fun other => ((items.filter fun item => item.1 != key).find?
        fun item => item.1 == other).map Prod.snd) =
      Function.update
        (fun other => (items.find? fun item => item.1 == other).map Prod.snd)
        key none := by
  funext other
  by_cases same : other = key
  · have absent : (items.filter fun item => item.1 != key).find?
        (fun item => item.1 == key) = none := by
      rw [List.find?_eq_none]
      intro item member found
      have different := (List.mem_filter.mp member).2
      rw [bne_iff_ne] at different
      exact different (beq_iff_eq.mp found)
    rw [same, Function.update_self, absent]
    rfl
  · have unaffected : ∀ item : K × V,
        decide ((item.1 != key) = true ∧ (item.1 == other) = true) =
          (item.1 == other) := by
      intro item
      by_cases found : item.1 = other
      · simp [found, same]
      · simp [found]
    rw [Function.update_of_ne same, List.find?_filter]
    simp only [unaffected]

/-! ## Maps -/

/-- Entries in ascending order of their keys. -/
structure OrderedMap (K V : Type) (before : K → K → Prop) where
  items : List (K × V)
  sorted : items.Pairwise fun left right => before left.1 right.1

namespace OrderedMap

variable {K V : Type} {before : K → K → Prop}

def keys (map : OrderedMap K V before) : List K :=
  map.items.map Prod.fst

def empty : OrderedMap K V before where
  items := []
  sorted := .nil

theorem sorted_keys (map : OrderedMap K V before) :
    map.keys.Pairwise before :=
  List.pairwise_map.mpr map.sorted

theorem nodup_keys (irreflexive : ∀ key, ¬ before key key)
    (map : OrderedMap K V before) : map.keys.Nodup := by
  apply map.sorted_keys.imp
  intro left right less same
  rw [same] at less
  exact irreflexive right less

/-- The entries from a key on. -/
def rangeFrom [DecidableRel before] (map : OrderedMap K V before)
    (key : K) : List (K × V) :=
  map.items.filter fun item => ¬ before item.1 key

variable [BEq K]

def find (map : OrderedMap K V before) (key : K) : Option V :=
  (map.items.find? fun item => item.1 == key).map Prod.snd

theorem mem_keys_iff [LawfulBEq K] (map : OrderedMap K V before) (key : K) :
    key ∈ map.keys ↔ (map.find key).isSome = true := by
  rw [find, Option.isSome_map, List.find?_isSome, keys, List.mem_map]
  simp

/-! ## Changes -/

def remove (map : OrderedMap K V before) (key : K) :
    OrderedMap K V before where
  items := map.items.filter fun item => item.1 != key
  sorted := map.sorted.sublist List.filter_sublist

theorem find_remove [DecidableEq K] [LawfulBEq K]
    (map : OrderedMap K V before) (key : K) :
    (map.remove key).find = Function.update map.find key none :=
  lookup_filter_ne map.items key

variable [DecidableRel before]

/-- An entry replaces one with the same key, or goes before the first one with
a greater key. -/
def insertItem (before : K → K → Prop) [DecidableRel before] (key : K)
    (v : V) : List (K × V) → List (K × V)
  | [] => [(key, v)]
  | item :: items =>
      if item.1 == key then
        (key, v) :: items
      else if before item.1 key then
        item :: insertItem before key v items
      else
        (key, v) :: item :: items

theorem mem_insertItem {key : K} {v : V} {items : List (K × V)}
    {item : K × V} (member : item ∈ insertItem before key v items) :
    item = (key, v) ∨ item ∈ items := by
  induction items with
  | nil => exact .inl (List.mem_singleton.mp member)
  | cons first items induction =>
      rw [insertItem] at member
      split at member
      · rcases List.mem_cons.mp member with same | later
        · exact .inl same
        · exact .inr (List.mem_cons_of_mem first later)
      · split at member
        · rcases List.mem_cons.mp member with same | later
          · exact .inr (same ▸ List.mem_cons_self)
          · exact (induction later).imp_right (List.mem_cons_of_mem first)
        · rcases List.mem_cons.mp member with same | later
          · exact .inl same
          · exact .inr later

variable [LawfulBEq K]

theorem sorted_insertItem (before : K → K → Prop) [DecidableRel before]
    (transitive : ∀ {left middle right}, before left middle →
      before middle right → before left right)
    (total : ∀ left right, before left right ∨ left = right ∨
      before right left)
    {key : K} {v : V} {items : List (K × V)}
    (sorted : items.Pairwise fun left right => before left.1 right.1) :
    (insertItem before key v items).Pairwise
      fun left right => before left.1 right.1 := by
  induction sorted with
  | nil => exact List.pairwise_singleton _ _
  | @cons first items above sorted induction =>
      rw [insertItem]
      split
      · next same =>
          constructor
          · intro item member
            rw [← beq_iff_eq.mp same]
            exact above item member
          · exact sorted
      · next different =>
          split
          · next less =>
              constructor
              · intro item member
                rcases mem_insertItem member with same | old
                · rw [same]
                  exact less
                · exact above item old
              · exact induction
          · next notLess =>
              have greater : before key first.1 := by
                rcases total first.1 key with less | same | greater
                · exact absurd less notLess
                · exact absurd (beq_iff_eq.mpr same) different
                · exact greater
              constructor
              · intro item member
                rcases List.mem_cons.mp member with same | later
                · rw [same]
                  exact greater
                · exact transitive greater (above item later)
              · exact .cons above sorted

theorem find?_insertItem {key other : K} {v : V} {items : List (K × V)}
    (different : other ≠ key) :
    (insertItem before key v items).find? (fun item => item.1 == other) =
      items.find? fun item => item.1 == other := by
  have skipped : (key == other) = false :=
    beq_eq_false_iff_ne.mpr (Ne.symm different)
  induction items with
  | nil => simp [insertItem, skipped]
  | cons first items induction =>
      rw [insertItem]
      split
      · next same =>
          have alike : (first.1 == other) = false := by
            rw [beq_iff_eq.mp same]
            exact skipped
          rw [List.find?_cons_of_neg (by simp [skipped]),
            List.find?_cons_of_neg (by simp [alike])]
      · split
        · rw [List.find?_cons, List.find?_cons, induction]
        · rw [List.find?_cons_of_neg (by simp [skipped])]

theorem find?_insertItem_self (key : K) (v : V) (items : List (K × V)) :
    (insertItem before key v items).find? (fun item => item.1 == key) =
      some (key, v) := by
  induction items with
  | nil => simp [insertItem]
  | cons first items induction =>
      rw [insertItem]
      split
      · simp
      · next different =>
          split
          · rw [List.find?_cons_of_neg (by simp [different]), induction]
          · simp

theorem lookup_insertItem [DecidableEq K] (key : K) (v : V)
    (items : List (K × V)) :
    (fun other => ((insertItem before key v items).find?
        fun item => item.1 == other).map Prod.snd) =
      Function.update
        (fun other => (items.find? fun item => item.1 == other).map Prod.snd)
        key (some v) := by
  funext other
  by_cases same : other = key
  · rw [same, Function.update_self, find?_insertItem_self]
    rfl
  · rw [Function.update_of_ne same, find?_insertItem same]

end OrderedMap

/-! ## Keys that start with a key -/

namespace OrderedMap

variable {α K V : Type} {less : α → α → Prop}

/-- A key does not stand before one that it starts with. -/
theorem not_lex_of_prefix (irreflexive : ∀ letter, ¬ less letter letter)
    {start key : List α} (starts : start <+: key) :
    ¬ List.Lex less key start := by
  obtain ⟨rest, rfl⟩ := starts
  induction start with
  | nil =>
      intro before
      cases before
  | cons letter start induction =>
      intro before
      cases before with
      | cons before => exact induction before
      | rel before => exact irreflexive letter before

/-- What lies between a key and one that starts with it starts with it. -/
theorem prefix_of_between {start low high : List α}
    (notBelow : ¬ List.Lex less low start) (below : List.Lex less low high)
    (starts : start <+: high) : start <+: low := by
  induction start generalizing low high with
  | nil => exact List.nil_prefix
  | cons letter start induction =>
      obtain ⟨rest, rfl⟩ := starts
      cases low with
      | nil => exact absurd .nil notBelow
      | cons first low =>
          cases below with
          | rel smaller => exact absurd (.rel smaller) notBelow
          | cons below =>
              have inside : ¬ List.Lex less low start :=
                fun lower => notBelow (.cons lower)
              have starts := induction inside below (List.prefix_append _ rest)
              exact List.cons_prefix_cons.mpr ⟨rfl, starts⟩

/-- A walk from a key on may stop at the first key that does not start with
it. -/
theorem takeWhile_rangeFrom [DecidableRel (List.Lex less)] {code : K → List α}
    (irreflexive : ∀ letter, ¬ less letter letter) {start : List α}
    {meets : K × V → Bool}
    (starts : ∀ item, meets item = true ↔ start <+: code item.1)
    {items : List (K × V)}
    (sorted : items.Pairwise
      fun left right => List.Lex less (code left.1) (code right.1)) :
    (items.filter fun item => ¬ List.Lex less (code item.1) start).takeWhile
        meets =
      items.filter meets := by
  induction sorted with
  | nil => rfl
  | @cons first items above sorted induction =>
      by_cases below : List.Lex less (code first.1) start
      · have other : ¬ meets first = true := by
          intro met
          exact not_lex_of_prefix irreflexive ((starts first).mp met) below
        rw [List.filter_cons_of_neg (by simp [below]),
          List.filter_cons_of_neg other, induction]
      · rw [List.filter_cons_of_pos (by simp [below])]
        by_cases met : meets first = true
        · rw [List.takeWhile_cons_of_pos met, List.filter_cons_of_pos met,
            induction]
        · have none : items.filter meets = [] := by
            rw [List.filter_eq_nil_iff]
            intro item member itemMeets
            apply met
            rw [starts]
            exact prefix_of_between below (above item member)
              ((starts item).mp itemMeets)
          rw [List.takeWhile_cons_of_neg met, List.filter_cons_of_neg met,
            none]

end OrderedMap
