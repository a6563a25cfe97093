import OpenDal.Raw.HierarchyLister

/-!
# Listing one level

The blocking lister goes through the entries as the asynchronous one does.
Both return the first levels of the entries below the path, in the order in
which the entries reach them.
-/

namespace OpenDal

open Path

namespace HierarchyLister

/-- `BlockingList::next`, with the loop of `List::next`. -/
def blockingNext (l : HierarchyLister) : Option Entry × HierarchyLister :=
  nextLoop l.lister l

/-- Call `next` of the blocking lister until it returns `None`. -/
def blockingCollect : Nat → HierarchyLister → Option (List Entry)
  | 0, _ => none
  | fuel + 1, l =>
      match l.blockingNext with
      | (none, _) => some []
      | (some entry, l) => (blockingCollect fuel l).map (entry :: ·)

theorem blockingCollect_eq (fuel : Nat) (l : HierarchyLister) :
    l.blockingCollect fuel = l.collect fuel := by
  induction fuel generalizing l with
  | zero => rfl
  | succ fuel induction =>
      rcases reached : nextLoop l.lister l with ⟨_ | entry, later⟩
      · simp only [blockingCollect, collect, blockingNext, next, reached]
      · simp only [blockingCollect, collect, blockingNext, next, reached,
          induction]

/-- What the paths below `path` start with: nothing for the root. -/
def listedPrefix (path : Path) : Path :=
  if path = ['/'] then [] else path

/-- The distinct first levels of the paths that start with `dir`, in the order
in which they are first reached. -/
def levelPaths (dir : Path) (paths : List Path) : List Path :=
  ((paths.filter (fun path => dir.isPrefixOf path)).map
    (truncate dir)).eraseDups

theorem firstLevels_paths (dir : Path) (entries : List Entry) :
    (firstLevels dir entries).map Entry.path =
      levelPaths dir (entries.map Entry.path) := by
  rw [firstLevels, map_eraseDupsBy, levelPaths, cutEntries, List.filter_map,
    List.map_map, List.map_map]
  congr 1
  apply List.map_congr_left
  intro entry _
  exact levelEntry_path dir entry

theorem remaining_new (lister entries : List Entry) (path : Path) :
    (new lister path false).remaining entries =
      firstLevels (listedPrefix path) entries := by
  have fresh : unvisited [] (cutEntries (listedPrefix path) entries) =
      cutEntries (listedPrefix path) entries := by
    apply List.filter_eq_self.mpr
    intro entry _
    rfl
  have whole : (new lister path false).remaining entries =
      (unvisited [] (cutEntries (listedPrefix path) entries)).eraseDupsBy
        samePath := rfl
  rw [whole, fresh]
  rfl

end HierarchyLister

open HierarchyLister

/-- A listing of distinct entries returns each first level once, as it was
first reached: an entry that is further down has become a directory, any other
is returned as it is. -/
theorem hierarchy_first_levels (path : Path) (entries : List Entry)
    (distinct : (entries.map Entry.path).Nodup) :
    ∃ listed,
      (HierarchyLister.new entries path false).collect
        (entries.length + 1) = some listed ∧
      (HierarchyLister.new entries path false).blockingCollect
        (entries.length + 1) = some listed ∧
      listed = firstLevels (listedPrefix path) entries ∧
      listed.map Entry.path =
        levelPaths (listedPrefix path) (entries.map Entry.path) := by
  have levels : (HierarchyLister.new entries path false).Levels := by
    intro visited member
    cases member
  have collected : (HierarchyLister.new entries path false).collect
      (entries.length + 1) =
      some (firstLevels (listedPrefix path) entries) := by
    rw [← remaining_new entries]
    exact collect_remaining levels rfl distinct (Nat.lt_succ_self _)
  refine ⟨firstLevels (listedPrefix path) entries, collected, ?_, rfl, ?_⟩
  · rw [blockingCollect_eq]
    exact collected
  · exact firstLevels_paths (listedPrefix path) entries

/-- A directory that comes behind what is in it, and a file. -/
theorem hierarchy_first_levels_nested :
    ∃ listed,
      (HierarchyLister.new
        [⟨"a/b/c".toList, .new .file⟩, ⟨"a/b/".toList, .new .dir⟩,
          ⟨"a/d".toList, .new .file⟩] "a/".toList false).collect 4 =
        some listed ∧
      listed = [⟨"a/b/".toList, .new .dir⟩, ⟨"a/d".toList, .new .file⟩] := by
  obtain ⟨listed, collected, -, same, -⟩ := hierarchy_first_levels "a/".toList
    [⟨"a/b/c".toList, .new .file⟩, ⟨"a/b/".toList, .new .dir⟩,
      ⟨"a/d".toList, .new .file⟩] (by decide)
  exact ⟨listed, collected, same.trans (by decide)⟩

/-- The root is `/`, but the paths in it do not start with that. -/
theorem hierarchy_root_prefix :
    ¬ ∀ (path : Path) (entries : List Entry),
      (entries.map Entry.path).Nodup →
      ∃ listed,
        (HierarchyLister.new entries path false).collect
          (entries.length + 1) = some listed ∧
        listed.map Entry.path =
          levelPaths path (entries.map Entry.path) := by
  intro exact
  obtain ⟨listed, collected, paths⟩ := exact ['/']
    [⟨['a'], .new .file⟩] (by decide)
  have single : (HierarchyLister.new [⟨['a'], .new .file⟩] ['/'] false).collect
      2 = some [⟨['a'], .new .file⟩] := rfl
  have same := Option.some.inj (single.symm.trans collected)
  rw [← same] at paths
  exact absurd paths (by decide)

end OpenDal
