import OpenDal.Types.Entry

/-!
# `HierarchyLister`

A flat listing is turned into that of one directory: an entry that is further
down is replaced by the directory on the first level that it is in, and what
has been returned once is not returned again.

The lister below is the list of the entries that it still has to return.
-/

namespace OpenDal

open Path

structure HierarchyLister where
  lister : List Entry
  path : Path
  visited : List Path
  recursive : Bool

namespace HierarchyLister

def new (lister : List Entry) (path : Path) (recursive : Bool) :
    HierarchyLister :=
  let path := if path = ['/'] then [] else path
  ⟨lister, path, [], recursive⟩

/-- `str::find('/')` behind the path that is listed. -/
def findSlash (l : HierarchyLister) (path : Path) : Option Nat :=
  (path.drop l.path.length).findIdx? (· == '/')

/-- The entry is returned if it is kept, since its path may have been cut. -/
def keepEntry (l : HierarchyLister) (e : Entry) :
    Option Entry × HierarchyLister :=
  if !l.path.isPrefixOf e.path then
    (none, l)
  else if l.visited.contains e.path then
    -- don't return already visited path
    (none, l)
  else
    match l.findSlash e.path with
    | none => (some e, l)
    | some found =>
        let idx := found + l.path.length + 1
        if idx = e.path.length then
          (some e, { l with visited := e.path :: l.visited })
        else
          -- there are more levels to come
          let path := e.path.take idx
          if l.visited.contains path then
            (none, l)
          else
            (some { e with path, metadata := { e.metadata with mode := .dir } },
              { l with visited := path :: l.visited })

/-- The loop of `next` over the entries of the lister. -/
def nextLoop : List Entry → HierarchyLister → Option Entry × HierarchyLister
  | [], l => (none, { l with lister := [] })
  | entry :: rest, l =>
      if l.recursive then
        (some entry, { l with lister := rest })
      else
        match l.keepEntry entry with
        | (some entry, l) => (some entry, { l with lister := rest })
        | (none, l) => nextLoop rest l

def next (l : HierarchyLister) : Option Entry × HierarchyLister :=
  nextLoop l.lister l

/-- Call `next` until it returns `None`, at most `fuel` times. -/
def collect : Nat → HierarchyLister → Option (List Entry)
  | 0, _ => none
  | fuel + 1, l =>
      match l.next with
      | (none, _) => some []
      | (some entry, l) => (collect fuel l).map (entry :: ·)

/-! ## First levels -/

/-- The path up to the first `/` behind `dir`. -/
def truncate (dir path : Path) : Path :=
  match (path.drop dir.length).findIdx? (· == '/') with
  | none => path
  | some found => path.take (found + dir.length + 1)

/-- An entry that is further down becomes the directory that it is in. -/
def levelEntry (dir : Path) (e : Entry) : Entry :=
  if truncate dir e.path = e.path then
    e
  else
    { e with
      path := truncate dir e.path
      metadata := { e.metadata with mode := .dir } }

theorem levelEntry_path (dir : Path) (e : Entry) :
    (levelEntry dir e).path = truncate dir e.path := by
  unfold levelEntry
  split
  next whole => exact whole.symm
  next => rfl

variable {dir path name rest : Path}

theorem findIdx_of_not_mem (noSlash : '/' ∉ name) :
    name.findIdx? (· == '/') = none := by
  rw [List.findIdx?_eq_none_iff]
  intro c member
  rw [beq_eq_false_iff_ne]
  intro same
  exact noSlash (same ▸ member)

theorem findIdx_slash (noSlash : '/' ∉ name) :
    (name ++ '/' :: rest).findIdx? (· == '/') = some name.length := by
  simp [List.findIdx?_append, findIdx_of_not_mem noSlash, List.findIdx?_cons]

theorem truncate_of_not_mem (noSlash : '/' ∉ name) :
    truncate dir (dir ++ name) = dir ++ name := by
  simp [truncate, findIdx_of_not_mem noSlash]

theorem truncate_of_slash (noSlash : '/' ∉ name) :
    truncate dir (dir ++ (name ++ '/' :: rest)) = dir ++ (name ++ ['/']) := by
  have count : name.length + dir.length + 1 = (dir ++ (name ++ ['/'])).length := by
    simp only [List.length_append, List.length_singleton]
    omega
  have grouped : dir ++ (name ++ '/' :: rest) =
      dir ++ (name ++ ['/']) ++ rest := by
    simp
  rw [truncate, List.drop_left, findIdx_slash noSlash]
  simp only
  rw [count, grouped, List.take_left]

theorem level_cases (below : dir <+: path) :
    (∃ name, '/' ∉ name ∧ path = dir ++ name) ∨
      ∃ name rest, '/' ∉ name ∧ path = dir ++ (name ++ '/' :: rest) := by
  obtain ⟨name, rfl⟩ := below
  by_cases member : '/' ∈ name
  · obtain ⟨first, rest, split, early⟩ := List.eq_append_cons_of_mem member
    exact .inr ⟨first, rest, early, by rw [split]⟩
  · exact .inl ⟨name, member, rfl⟩

/-- A directory of the first level. -/
def IsLevel (dir path : Path) : Prop :=
  ∃ name, '/' ∉ name ∧ path = dir ++ (name ++ ['/'])

theorem truncate_level (isLevel : IsLevel dir path) :
    truncate dir path = path := by
  obtain ⟨name, noSlash, rfl⟩ := isLevel
  exact truncate_of_slash noSlash

theorem eq_of_truncate (noSlash : '/' ∉ name) (below : dir <+: path)
    (same : truncate dir path = dir ++ name) : path = dir ++ name := by
  rcases level_cases below with ⟨other, none, rfl⟩ | ⟨other, rest, none, rfl⟩
  · rw [truncate_of_not_mem none] at same
    exact same
  · rw [truncate_of_slash none, List.append_right_inj] at same
    exact absurd (same ▸ by simp) noSlash

/-! ## What is kept -/

/-- What has been visited are directories of the first level. -/
def Levels (l : HierarchyLister) : Prop :=
  ∀ path ∈ l.visited, IsLevel l.path path

/-- Everything `keep_entry` can do with an entry below the path. -/
theorem keepEntry_cases {l : HierarchyLister} (levels : l.Levels) {e : Entry}
    (below : l.path <+: e.path) :
    (truncate l.path e.path ∈ l.visited ∧ l.keepEntry e = (none, l)) ∨
    (∃ name, '/' ∉ name ∧ e.path = l.path ++ name ∧
      l.keepEntry e = (some e, l)) ∨
    (IsLevel l.path (truncate l.path e.path) ∧
      truncate l.path e.path ∉ l.visited ∧
      l.keepEntry e = (some (levelEntry l.path e),
        { l with visited := truncate l.path e.path :: l.visited })) := by
  have starts : l.path.isPrefixOf e.path = true :=
    List.isPrefixOf_iff_prefix.mpr below
  rcases level_cases below with ⟨name, none, shape⟩ | ⟨name, rest, none, shape⟩
  · right; left
    have unvisited : e.path ∉ l.visited := by
      intro member
      obtain ⟨other, -, level⟩ := levels _ member
      rw [shape, List.append_right_inj] at level
      exact absurd (level ▸ by simp) none
    refine ⟨name, none, shape, ?_⟩
    have absent : l.findSlash e.path = Option.none := by
      rw [findSlash, shape, List.drop_left, findIdx_of_not_mem none]
    simp only [keepEntry, List.contains_iff_mem, starts, Bool.not_true,
      Bool.false_eq_true, if_false,
      unvisited, absent]
  · have cut : truncate l.path e.path = l.path ++ (name ++ ['/']) := by
      rw [shape, truncate_of_slash none]
    have isLevel : IsLevel l.path (truncate l.path e.path) := ⟨name, none, cut⟩
    have found : l.findSlash e.path = some name.length := by
      rw [findSlash, shape, List.drop_left, findIdx_slash none]
    have taken : e.path.take (name.length + l.path.length + 1) =
        truncate l.path e.path := by
      have slash : (e.path.drop l.path.length).findIdx? (· == '/') =
          some name.length := found
      rw [truncate, slash]
    by_cases visited : truncate l.path e.path ∈ l.visited
    · refine .inl ⟨visited, ?_⟩
      by_cases itself : e.path ∈ l.visited
      · simp only [keepEntry, List.contains_iff_mem, starts, Bool.not_true,
          Bool.false_eq_true,
          if_false, itself, if_true]
      · have longer : name.length + l.path.length + 1 ≠ e.path.length := by
          intro whole
          rw [whole, List.take_length] at taken
          exact itself (taken ▸ visited)
        simp only [keepEntry, List.contains_iff_mem, starts, Bool.not_true,
          Bool.false_eq_true,
          if_false, itself, found, longer, taken, visited, if_true]
    · refine .inr (.inr ⟨isLevel, visited, ?_⟩)
      have itself : e.path ∉ l.visited := by
        intro member
        exact visited ((truncate_level (levels _ member)).symm ▸ member)
      by_cases whole : name.length + l.path.length + 1 = e.path.length
      · rw [whole, List.take_length] at taken
        rw [levelEntry, if_pos taken.symm]
        simp only [keepEntry, List.contains_iff_mem, starts, Bool.not_true,
          Bool.false_eq_true,
          if_false, itself, found, whole, if_true]
        rw [← taken]
      · have shorter : truncate l.path e.path ≠ e.path := by
          intro same
          have length := congrArg List.length same
          rw [← taken, List.length_take] at length
          have behind : (l.path ++ (name ++ '/' :: rest)).length =
              e.path.length := by rw [shape]
          simp only [List.length_append, List.length_cons] at behind
          omega
        rw [levelEntry, if_neg shorter]
        simp only [keepEntry, List.contains_iff_mem, starts, Bool.not_true,
          Bool.false_eq_true,
          if_false, itself, found, whole, taken, visited]

theorem keepEntry_other {l : HierarchyLister} {e : Entry}
    (other : ¬ l.path <+: e.path) : l.keepEntry e = (none, l) := by
  have starts : l.path.isPrefixOf e.path = false := by
    rw [← Bool.not_eq_true, List.isPrefixOf_iff_prefix]
    exact other
  simp [keepEntry, starts]

/-! ## The whole listing -/

theorem keepEntry_lister (l : HierarchyLister) (e : Entry)
    (lister : List Entry) :
    keepEntry { l with lister } e =
      ((l.keepEntry e).1, { (l.keepEntry e).2 with lister }) := by
  unfold keepEntry findSlash
  simp only
  split
  · rfl
  · split
    · rfl
    · split
      · rfl
      · split
        · rfl
        · split
          · rfl
          · rfl

theorem nextLoop_lister (entries : List Entry) (l : HierarchyLister)
    (lister : List Entry) :
    nextLoop entries { l with lister } = nextLoop entries l := by
  induction entries generalizing l with
  | nil => rfl
  | cons entry entries induction =>
      simp only [nextLoop, keepEntry_lister]
      split
      · rfl
      · rcases kept : l.keepEntry entry with ⟨_ | entry, later⟩
        · exact induction later
        · rfl

variable {l later : HierarchyLister} {entry kept : Entry}
  {entries : List Entry}

theorem collect_skip {fuel : Nat} (flat : l.recursive = false)
    (skipped : l.keepEntry entry = (none, l)) :
    collect (fuel + 1) { l with lister := entry :: entries } =
      collect (fuel + 1) { l with lister := entries } := by
  have loop : nextLoop (entry :: entries) l = nextLoop entries l := by
    simp [nextLoop, flat, skipped]
  simp only [collect, next]
  rw [nextLoop_lister, loop, nextLoop_lister entries l entries]

theorem collect_keep {fuel : Nat} (flat : l.recursive = false)
    (keeps : l.keepEntry entry = (some kept, later)) :
    collect (fuel + 1) { l with lister := entry :: entries } =
      (collect fuel { later with lister := entries }).map (kept :: ·) := by
  have loop : nextLoop (entry :: entries) l =
      (some kept, { later with lister := entries }) := by
    simp [nextLoop, flat, keeps]
  simp only [collect, next]
  rw [nextLoop_lister, loop]

def samePath (left right : Entry) : Bool :=
  left.path == right.path

/-- The entries below `dir`, each of them cut at the first level. -/
def cutEntries (dir : Path) (entries : List Entry) : List Entry :=
  (entries.filter (fun e => dir.isPrefixOf e.path)).map (levelEntry dir)

/-- Of the entries that are cut to one path, the first. -/
def firstLevels (dir : Path) (entries : List Entry) : List Entry :=
  (cutEntries dir entries).eraseDupsBy samePath

/-- What has not been visited. -/
def unvisited (visited : List Path) (entries : List Entry) : List Entry :=
  entries.filter (fun e => !visited.contains e.path)

/-- What a listing returns once some levels have been visited. -/
def remaining (l : HierarchyLister) (entries : List Entry) : List Entry :=
  (unvisited l.visited (cutEntries l.path entries)).eraseDupsBy samePath

theorem cutEntries_below (below : dir <+: entry.path) :
    cutEntries dir (entry :: entries) =
      levelEntry dir entry :: cutEntries dir entries := by
  have starts : dir.isPrefixOf entry.path = true :=
    List.isPrefixOf_iff_prefix.mpr below
  simp only [cutEntries, List.filter_cons, starts, if_true, List.map_cons]

theorem cutEntries_other (other : ¬ dir <+: entry.path) :
    cutEntries dir (entry :: entries) = cutEntries dir entries := by
  have starts : dir.isPrefixOf entry.path = false := by
    rw [← Bool.not_eq_true, List.isPrefixOf_iff_prefix]
    exact other
  simp only [cutEntries, List.filter_cons, starts, Bool.false_eq_true,
    if_false]

theorem mem_cutEntries {kept : Entry} (member : kept ∈ cutEntries dir entries) :
    ∃ entry ∈ entries, dir <+: entry.path ∧
      kept.path = truncate dir entry.path := by
  obtain ⟨entry, found, rfl⟩ := List.mem_map.mp member
  obtain ⟨member, starts⟩ := List.mem_filter.mp found
  refine ⟨entry, member, List.isPrefixOf_iff_prefix.mp starts, ?_⟩
  exact levelEntry_path dir entry

theorem levelEntry_whole (whole : truncate dir entry.path = entry.path) :
    levelEntry dir entry = entry := by
  rw [levelEntry, if_pos whole]

/-- What is returned once is not returned again: it has been visited, or no
other entry is cut to it. -/
theorem remaining_cons (visited : List Path) (below : l.path <+: entry.path)
    (fresh : (levelEntry l.path entry).path ∉ l.visited)
    (later : ∀ kept ∈ cutEntries l.path entries,
      kept.path ∉ visited ↔
        kept.path ∉ l.visited ∧ kept.path ≠ (levelEntry l.path entry).path) :
    l.remaining (entry :: entries) =
      levelEntry l.path entry ::
        remaining { l with visited } entries := by
  have unseen : (!l.visited.contains (levelEntry l.path entry).path) = true := by
    simpa using fresh
  rw [remaining, unvisited, cutEntries_below below, List.filter_cons,
    if_pos unseen, List.eraseDupsBy_cons, List.filter_filter]
  congr 2
  apply List.filter_congr
  intro kept member
  rw [Bool.eq_iff_iff]
  simp only [samePath, Bool.and_eq_true, decide_eq_true_eq, Bool.not_eq_true',
    List.contains_eq_mem, decide_eq_false_iff_not, beq_eq_false_iff_ne]
  rw [later kept member]
  exact and_comm

theorem collect_remaining {fuel : Nat} (levels : l.Levels)
    (flat : l.recursive = false) (distinct : (entries.map Entry.path).Nodup)
    (enough : entries.length < fuel) :
    collect fuel { l with lister := entries } = some (l.remaining entries) := by
  induction entries generalizing l fuel with
  | nil =>
      obtain ⟨fuel, rfl⟩ : ∃ rest, fuel = rest + 1 :=
        Nat.exists_eq_succ_of_ne_zero (Nat.ne_of_gt enough)
      rfl
  | cons entry entries induction =>
      rw [List.map_cons, List.nodup_cons] at distinct
      rw [List.length_cons] at enough
      obtain ⟨fuel, rfl⟩ : ∃ rest, fuel = rest + 1 :=
        Nat.exists_eq_succ_of_ne_zero (by omega)
      have sooner : entries.length < fuel + 1 := by omega
      have shorter : entries.length < fuel := by omega
      by_cases below : l.path <+: entry.path
      · rcases keepEntry_cases levels below with ⟨visited, skipped⟩ |
          ⟨name, noSlash, shape, keeps⟩ | ⟨isLevel, fresh, keeps⟩
        · have seen : (!l.visited.contains
              (levelEntry l.path entry).path) = false := by
            rw [levelEntry_path]
            simpa using visited
          rw [collect_skip flat skipped, induction levels flat distinct.2 sooner,
            remaining, remaining, cutEntries_below below, unvisited, unvisited,
            List.filter_cons, if_neg (ne_true_of_eq_false seen)]
        · have whole : truncate l.path entry.path = entry.path := by
            rw [shape, truncate_of_not_mem noSlash]
          have fresh : entry.path ∉ l.visited := by
            intro visited
            obtain ⟨level, -, same⟩ := levels _ visited
            rw [shape, List.append_right_inj] at same
            exact absurd (same ▸ by simp) noSlash
          rw [collect_keep flat keeps, induction levels flat distinct.2 shorter,
            remaining_cons l.visited below, levelEntry_whole whole]
          · rfl
          · rw [levelEntry_whole whole]
            exact fresh
          · -- the entries are distinct, and none is cut to a path without `/`
            intro kept member
            obtain ⟨other, found, under, same⟩ := mem_cutEntries member
            rw [levelEntry_whole whole]
            constructor
            · intro unseen
              refine ⟨unseen, ?_⟩
              intro equal
              have cut : truncate l.path other.path = l.path ++ name := by
                rw [← same, equal, shape]
              have itself := eq_of_truncate noSlash under cut
              rw [← shape] at itself
              exact distinct.1 (itself ▸ List.mem_map_of_mem found)
            · intro unseen
              exact unseen.1
        · have more : Levels { l with
              visited := truncate l.path entry.path :: l.visited } := by
            intro path member
            rcases List.mem_cons.mp member with rfl | known
            · exact isLevel
            · exact levels path known
          rw [collect_keep flat keeps, induction more flat distinct.2 shorter,
            remaining_cons (truncate l.path entry.path :: l.visited) below]
          · rfl
          · rw [levelEntry_path]
            exact fresh
          · intro kept _
            rw [levelEntry_path, List.mem_cons, not_or]
            exact and_comm
      · rw [collect_skip flat (keepEntry_other below),
          induction levels flat distinct.2 sooner, remaining, remaining,
          cutEntries_other below]

/-- The paths are the first levels, in the order they are first found. -/
theorem map_eraseDupsBy (items : List Entry) :
    (items.eraseDupsBy samePath).map Entry.path =
      (items.map Entry.path).eraseDups := by
  induction length : items.length using Nat.strongRecOn generalizing items with
  | ind size induction =>
      cases items with
      | nil => rfl
      | cons item items =>
          have fewer : (items.filter
              (fun other => samePath other item = false)).length < size := by
            rw [← length, List.length_cons]
            exact Nat.lt_succ_of_le (List.length_filter_le _ _)
          rw [List.eraseDupsBy_cons, List.map_cons, List.map_cons,
            List.eraseDups_cons, induction _ fewer _ rfl, List.filter_map]
          congr 3
          apply List.filter_congr
          intro other _
          rw [Bool.eq_iff_iff]
          simp [samePath]

theorem nodup_eraseDups (paths : List Path) : paths.eraseDups.Nodup := by
  induction length : paths.length using Nat.strongRecOn generalizing paths with
  | ind size induction =>
      cases paths with
      | nil => exact List.nodup_nil
      | cons path paths =>
          have fewer : (paths.filter (fun other => !other == path)).length <
              size := by
            rw [← length, List.length_cons]
            exact Nat.lt_succ_of_le (List.length_filter_le _ _)
          rw [List.eraseDups_cons, List.nodup_cons]
          refine ⟨?_, induction _ fewer _ rfl⟩
          rw [List.mem_eraseDups, List.mem_filter]
          intro found
          simp at found

/-- A listing returns the first levels of the entries below the path that have
not been visited, each of them once. -/
structure Lists (l : HierarchyLister) (entries listed : List Entry) :
    Prop where
  once : (listed.map Entry.path).Nodup
  levels : ∀ path, path ∈ listed.map Entry.path ↔
    (∃ entry ∈ entries, l.path <+: entry.path ∧
      truncate l.path entry.path = path) ∧ path ∉ l.visited

theorem lists_remaining (l : HierarchyLister) (entries : List Entry) :
    l.Lists entries (l.remaining entries) where
  once := by
    rw [remaining, map_eraseDupsBy]
    exact nodup_eraseDups _
  levels := by
    intro path
    rw [remaining, map_eraseDupsBy, List.mem_eraseDups, List.mem_map]
    constructor
    · intro found
      obtain ⟨kept, member, rfl⟩ := found
      obtain ⟨cut, fresh⟩ := List.mem_filter.mp member
      obtain ⟨entry, given, below, same⟩ := mem_cutEntries cut
      refine ⟨⟨entry, given, below, same.symm⟩, ?_⟩
      simpa using fresh
    · intro found
      obtain ⟨⟨entry, given, below, rfl⟩, fresh⟩ := found
      refine ⟨levelEntry l.path entry, ?_, levelEntry_path l.path entry⟩
      apply List.mem_filter.mpr
      constructor
      · apply List.mem_map_of_mem
        apply List.mem_filter.mpr
        exact ⟨given, List.isPrefixOf_iff_prefix.mpr below⟩
      · rw [levelEntry_path]
        simpa using fresh

theorem collect_recursive {fuel : Nat} (deep : l.recursive = true)
    (enough : entries.length < fuel) :
    collect fuel { l with lister := entries } = some entries := by
  induction entries generalizing l fuel with
  | nil =>
      obtain ⟨fuel, rfl⟩ : ∃ rest, fuel = rest + 1 :=
        Nat.exists_eq_succ_of_ne_zero (Nat.ne_of_gt enough)
      rfl
  | cons entry entries induction =>
      rw [List.length_cons] at enough
      obtain ⟨fuel, rfl⟩ : ∃ rest, fuel = rest + 1 :=
        Nat.exists_eq_succ_of_ne_zero (by omega)
      have shorter : entries.length < fuel := by omega
      have rest := induction deep shorter
      simp only [collect, next, nextLoop, deep, if_true] at rest ⊢
      rw [rest]
      rfl

end HierarchyLister

end OpenDal
