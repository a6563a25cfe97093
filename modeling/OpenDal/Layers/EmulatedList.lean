import OpenDal.Layers.CompleteLister

/-!
# Emulated and native listings

What `complete_list` returns over a service that lists single directories,
compared with a listing of everything that starts with a path.  The two agree
for files, directories and bare prefixes; they differ for a directory that
does not exist, which a recursive listing returns all the same.
-/

namespace OpenDal

/-- What identifies an entry: the metadata of the first directory of a walk is
not the service's. -/
def Entry.key (entry : Entry) : Path × EntryMode :=
  (entry.path, entry.metadata.mode)

/-- The directory that is scanned for a path. -/
def Path.scanned (path : Path) : Path :=
  if path.endsWithSlash then path else path.getParent

/-- The entries of a native listing: those whose path starts with `path`, and
unless it is recursive only the scanned directory and its children. -/
structure DirTree.Native (tree : DirTree) (path : Path) (recursive : Bool)
    (entry : Entry) : Prop where
  member : entry ∈ tree.entries
  starts : path.dirPrefix <+: entry.path
  direct : recursive = false →
    entry.path = path.scanned ∨ entry ∈ tree.children path.scanned

/-- Each entry of the native listing once, and nothing else. -/
def DirTree.MatchesNative (tree : DirTree) (path : Path) (recursive : Bool)
    (out : List Entry) : Prop :=
  (out.map Entry.path).Nodup ∧ ∀ key, key ∈ out.map Entry.key ↔
    ∃ entry, tree.Native path recursive entry ∧ entry.key = key

/-- Every directory is listed with itself. -/
def DirListing.ListsItself (listed : DirListing) : Prop :=
  ∀ {dir}, listed.tree.HasDir dir →
    ∃ self : Entry, self.path = dir ∧ self.metadata.mode = .dir ∧
      (listed.listing dir).Perm (self :: listed.tree.children dir)

open ListingService (answer)

/-! ## The four listers -/

/-- What the emulated listing returns. -/
def DirListing.emulated (listed : DirListing) (path : Path)
    (recursive : Bool) : List Entry :=
  let scan :=
    if recursive then listed.walk path.scanned else answer listed path.scanned
  if path.endsWithSlash then scan else PrefixLister.keep path scan

section CompleteList

variable {A L : Type} [Lister L] [ListAccess A L] {listed : DirListing}
  {service : ListingService A listed}

theorem completeList_enumerates (total : service.Total) (inner : A)
    (path : Path) (recursive : Bool) :
    ∃ (lister : CompleteLister A L) (later : A) (enough : Nat),
      completeList inner false path ⟨recursive⟩ = (.ok lister, later) ∧
      ∀ turns, enough ≤ turns → ∃ yields,
        ListSession.Enumerates (CompleteLister.next turns) yields ∧
        yields lister (listed.emulated path recursive) := by
  have fromInner := total.steady.enumerates_inner
  cases recursive with
  | true =>
      by_cases slash : path.endsWithSlash = true
      · refine ⟨.two (.new inner path), inner,
          listed.work (listed.walk path) + 2,
          by simp [completeList, slash], fun turns enough => ?_⟩
        have fromFlat := total.enumerates_flat turns (by omega)
        simp only [DirListing.emulated, Path.scanned, slash, if_true]
        exact ⟨_, fromFlat.embed fun _ => rfl, _, rfl,
          ListingService.flatYields_new inner path (by omega)⟩
      · refine ⟨.four (.new (.new inner path.getParent) path), inner,
          listed.work (listed.walk path.getParent) + 2 +
            (listed.walk path.getParent).length,
          by simp [completeList, slash], fun turns enough => ?_⟩
        have fromFlat := total.enumerates_flat turns (by omega)
        simp only [DirListing.emulated, Path.scanned, slash]
        exact ⟨_, (PrefixLister.enumerates fromFlat turns).embed fun _ => rfl,
          _, rfl, _, ListingService.flatYields_new inner _ (by omega), rfl,
          by omega⟩
  | false =>
      by_cases slash : path.endsWithSlash = true
      · obtain ⟨l, later, opened, yields⟩ := total.opens inner path
        refine ⟨.one l, later, 0, ?_, fun turns enough => ?_⟩
        · simp only [OpList.new] at opened
          simp [completeList, slash, opened]
        · simp only [DirListing.emulated, Path.scanned, slash, if_true]
          exact ⟨_, fromInner.embed fun _ => rfl, _, rfl, yields⟩
      · obtain ⟨l, later, opened, yields⟩ := total.opens inner path.getParent
        refine ⟨.three (.new l path), later,
          (answer listed path.getParent).length + 1, ?_,
          fun turns enough => ?_⟩
        · simp only [OpList.new] at opened
          simp [completeList, slash, opened]
        · simp only [DirListing.emulated, Path.scanned, slash]
          exact ⟨_, (PrefixLister.enumerates fromInner turns).embed
            fun _ => rfl, _, rfl, _, yields, rfl, by omega⟩

end CompleteList

/-! ## Keys -/

section Keys

variable {listed : DirListing} {dir path : Path} {key : Path × EntryMode}

theorem exists_dir_key {tree : DirTree} (known : tree.HasDir dir) :
    ∃ entry ∈ tree.entries, entry.path = dir ∧ entry.key = (dir, .dir) := by
  obtain ⟨entry, member, rfl⟩ := List.mem_map.mp known.1
  have isDir := (tree.modes entry member).mpr known.2
  exact ⟨entry, member, rfl, by simp [Entry.key, isDir]⟩

theorem dir_key {tree : DirTree} {entry : Entry}
    (slash : dir.endsWithSlash = true) (member : entry ∈ tree.entries)
    (same : entry.path = dir) :
    tree.HasDir dir ∧ entry.key = (dir, .dir) := by
  have isDir := (tree.modes entry member).mpr (same ▸ slash)
  refine ⟨⟨?_, slash⟩, by simp [Entry.key, isDir, same]⟩
  rw [← same]
  exact List.mem_map_of_mem member

theorem keys_answer (itself : listed.ListsItself)
    (slash : dir.endsWithSlash = true) :
    key ∈ (answer listed dir).map Entry.key ↔
      ∃ entry ∈ listed.tree.entries,
        (entry.path = dir ∨ entry ∈ listed.tree.children dir) ∧
          entry.key = key := by
  by_cases known : listed.tree.HasDir dir
  · obtain ⟨self, path, mode, listing⟩ := itself known
    have selfKey : self.key = (dir, .dir) := by simp [Entry.key, path, mode]
    rw [answer, if_pos known, (listing.map Entry.key).mem_iff, List.map_cons,
      List.mem_cons, selfKey]
    constructor
    · intro present
      rcases present with rfl | child
      · obtain ⟨entry, member, same, entryKey⟩ := exists_dir_key known
        exact ⟨entry, member, .inl same, entryKey⟩
      · obtain ⟨entry, member, same⟩ := List.mem_map.mp child
        exact ⟨entry, (DirTree.mem_children.mp member).1, .inr member, same⟩
    · intro present
      obtain ⟨entry, member, same | child, rfl⟩ := present
      · exact .inl (dir_key slash member same).2
      · exact .inr (List.mem_map_of_mem child)
  · rw [answer, if_neg known]
    constructor
    · intro impossible
      cases impossible
    · intro present
      obtain ⟨entry, member, same | child, _⟩ := present
      · exact absurd (dir_key slash member same).1 known
      · exact absurd (DirTree.hasDir_of_child child) known

theorem nodup_paths_answer (itself : listed.ListsItself) (dir : Path) :
    ((answer listed dir).map Entry.path).Nodup := by
  by_cases known : listed.tree.HasDir dir
  · obtain ⟨self, path, _, listing⟩ := itself known
    rw [answer, if_pos known, (listing.map Entry.path).nodup_iff,
      List.map_cons, List.nodup_cons]
    constructor
    · intro member
      obtain ⟨child, childMember, same⟩ := List.mem_map.mp member
      exact DirTree.path_ne_of_child childMember (same.trans path)
    · exact listed.tree.distinct.sublist (List.filter_sublist.map _)
  · simp [answer, known]

theorem keys_walk (known : listed.tree.HasDir dir) :
    key ∈ (listed.walk dir).map Entry.key ↔
      ∃ entry ∈ listed.tree.entries, dir.dirPrefix <+: entry.path ∧
        entry.key = key := by
  rw [List.mem_map]
  constructor
  · intro present
    obtain ⟨entry, member, same⟩ := present
    rcases DirListing.mem_walk.mp member with rfl | descendant
    · obtain ⟨entry, member, path, entryKey⟩ := exists_dir_key known
      refine ⟨entry, member, ?_, entryKey.trans same⟩
      rw [path, Path.dirPrefix]
      split
      · exact List.nil_prefix
      · exact List.prefix_refl _
    · exact ⟨entry, descendant.mem, descendant.dirPrefix.1, same⟩
  · intro present
    obtain ⟨entry, member, starts, rfl⟩ := present
    by_cases same : entry.path = dir
    · exact ⟨⟨dir, .new .dir⟩, DirListing.mem_walk.mpr (.inl rfl),
        (dir_key known.2 member same).2.symm⟩
    · exact ⟨entry, DirListing.mem_walk.mpr (.inr
        (DirTree.descendant_of_startsWith known.2 member starts same)), rfl⟩

theorem keys_keep {entries : List Entry} :
    key ∈ (PrefixLister.keep path entries).map Entry.key ↔
      key ∈ entries.map Entry.key ∧ path <+: key.1 := by
  simp only [PrefixLister.keep, List.mem_map, List.mem_filter,
    List.isPrefixOf_iff_prefix]
  constructor
  · intro present
    obtain ⟨entry, ⟨member, starts⟩, rfl⟩ := present
    exact ⟨⟨entry, member, rfl⟩, starts⟩
  · intro present
    obtain ⟨⟨entry, member, rfl⟩, starts⟩ := present
    exact ⟨entry, ⟨member, starts⟩, rfl⟩

theorem nodup_paths_keep {entries : List Entry}
    (nodup : (entries.map Entry.path).Nodup) :
    ((PrefixLister.keep path entries).map Entry.path).Nodup :=
  nodup.sublist (List.filter_sublist.map _)

/-- A path without a trailing `/` is not the beginning of its parent, except
for the empty one. -/
theorem not_startsWith_getParent (plain : path.endsWithSlash = false)
    (nonempty : path ≠ []) : ¬ path <+: path.getParent := by
  have inner : path ≠ ['/'] := by
    intro root
    subst root
    cases plain
  intro starts
  obtain ⟨stem, orDir, _, parent⟩ := Path.getParent_spec inner
  have same : path = stem := by
    rcases orDir with same | same
    · exact same
    · have slash := Path.endsWithSlash_iff.mpr ⟨stem, same⟩
      rw [plain] at slash
      cases slash
  rcases parent with ⟨none, parent⟩ | ⟨front, back, split, _, parent⟩
  · rw [parent] at starts
    have short := starts.length_le
    have positive := List.length_pos_iff.mpr nonempty
    rw [List.length_singleton] at short
    have equal := starts.eq_of_length (by simp; omega)
    exact inner equal
  · rw [parent] at starts
    have short := starts.length_le
    have total := congrArg List.length (same.trans split)
    simp only [List.length_append, List.length_cons, List.length_nil] at *
    have nothing : back = [] := List.length_eq_zero_iff.mp (by omega)
    have slash : path.endsWithSlash = true := by
      rw [Path.endsWithSlash_iff]
      exact ⟨front, by rw [same, split, nothing]⟩
    rw [plain] at slash
    cases slash

theorem dirPrefix_self (dir : Path) : dir.dirPrefix <+: dir := by
  rw [Path.dirPrefix]
  split
  · exact List.nil_prefix
  · exact List.prefix_refl _

theorem dirPrefix_plain (plain : path.endsWithSlash = false) :
    path.dirPrefix = path := by
  rw [Path.dirPrefix, if_neg]
  intro root
  subst root
  cases plain

theorem endsWithSlash_scanned (path : Path) :
    path.scanned.endsWithSlash = true := by
  rw [Path.scanned]
  split
  · rename_i slash
    exact slash
  · exact Path.endsWithSlash_getParent path

/-! ## The comparison -/

/-- The scanned directory and its children, filtered where the path is not a
directory. -/
private theorem matches_direct (itself : listed.ListsItself) (path : Path) :
    listed.tree.MatchesNative path false (listed.emulated path false) := by
  have scanned := endsWithSlash_scanned path
  cases slash : path.endsWithSlash with
  | true =>
      have same : path.scanned = path := by simp [Path.scanned, slash]
      simp only [DirListing.emulated, slash, if_true, Bool.false_eq_true,
        if_false]
      refine ⟨nodup_paths_answer itself _, fun key => ?_⟩
      rw [keys_answer itself scanned]
      constructor
      · intro present
        obtain ⟨entry, member, direct, rfl⟩ := present
        refine ⟨entry, ⟨member, ?_, fun _ => direct⟩, rfl⟩
        rcases direct with atDir | child
        · rw [atDir, same]
          exact dirPrefix_self path
        · obtain ⟨_, inner, parent⟩ := DirTree.mem_children.mp child
          rw [← same, ← parent]
          exact Path.dirPrefix_getParent inner
      · intro wanted
        obtain ⟨entry, native, rfl⟩ := wanted
        exact ⟨entry, native.member, native.direct rfl, rfl⟩
  | false =>
      simp only [DirListing.emulated, slash, Bool.false_eq_true, if_false]
      refine ⟨nodup_paths_keep (nodup_paths_answer itself _), fun key => ?_⟩
      rw [keys_keep, keys_answer itself scanned]
      constructor
      · intro present
        obtain ⟨⟨entry, member, direct, rfl⟩, starts⟩ := present
        refine ⟨entry, ⟨member, ?_, fun _ => direct⟩, rfl⟩
        rw [dirPrefix_plain slash]
        exact starts
      · intro wanted
        obtain ⟨entry, native, rfl⟩ := wanted
        have starts := native.starts
        rw [dirPrefix_plain slash] at starts
        exact ⟨⟨entry, native.member, native.direct rfl, rfl⟩, starts⟩

private theorem matches_walk (known : listed.tree.HasDir path) :
    listed.tree.MatchesNative path true (listed.emulated path true) := by
  simp only [DirListing.emulated, Path.scanned, known.2, if_true]
  refine ⟨DirListing.nodup_paths_walk path, fun key => ?_⟩
  rw [keys_walk known]
  constructor
  · intro present
    obtain ⟨entry, member, starts, rfl⟩ := present
    refine ⟨entry, ⟨member, starts, ?_⟩, rfl⟩
    intro impossible
    cases impossible
  · intro wanted
    obtain ⟨entry, native, rfl⟩ := wanted
    exact ⟨entry, native.member, native.starts, rfl⟩

private theorem not_matches_walk_absent (slash : path.endsWithSlash = true)
    (absent : ¬ listed.tree.HasDir path) :
    ¬ listed.tree.MatchesNative path true (listed.emulated path true) := by
  simp only [DirListing.emulated, Path.scanned, slash, if_true,
    ListingService.walk_absent absent]
  intro native
  obtain ⟨_, members⟩ := native
  obtain ⟨entry, native, same⟩ := (members (path, .dir)).mp (by
    simp [Entry.key, Metadata.new])
  have atPath : entry.path = path := congrArg Prod.fst same
  exact absent (dir_key slash native.member atPath).1

private theorem matches_walk_parent (plain : path.endsWithSlash = false) :
    listed.tree.MatchesNative path true (listed.emulated path true) := by
  have inner : path ≠ ['/'] := by
    intro equal
    subst equal
    cases plain
  simp only [DirListing.emulated, Path.scanned, plain, if_true,
    Bool.false_eq_true, if_false]
  refine ⟨nodup_paths_keep (DirListing.nodup_paths_walk _), fun key => ?_⟩
  rw [keys_keep]
  by_cases known : listed.tree.HasDir path.getParent
  · rw [keys_walk known]
    constructor
    · intro present
      obtain ⟨⟨entry, member, _, rfl⟩, starts⟩ := present
      refine ⟨entry, ⟨member, ?_, ?_⟩, rfl⟩
      · rw [dirPrefix_plain plain]
        exact starts
      · intro impossible
        cases impossible
    · intro wanted
      obtain ⟨entry, native, rfl⟩ := wanted
      have starts := native.starts
      rw [dirPrefix_plain plain] at starts
      exact ⟨⟨entry, native.member,
        (Path.dirPrefix_getParent inner).trans starts, rfl⟩, starts⟩
  · have nonempty : path ≠ [] := by
      intro equal
      subst equal
      exact known DirTree.hasDir_root
    rw [ListingService.walk_absent known]
    constructor
    · intro present
      obtain ⟨member, starts⟩ := present
      rw [List.map_singleton, List.mem_singleton] at member
      rw [member] at starts
      exact absurd starts (not_startsWith_getParent plain nonempty)
    · intro wanted
      obtain ⟨entry, native, rfl⟩ := wanted
      have starts := native.starts
      rw [dirPrefix_plain plain] at starts
      have slash := Path.endsWithSlash_getParent path
      have atParent : entry.path ≠ path.getParent := fun same =>
        known (dir_key slash native.member same).1
      have descendant := DirTree.descendant_of_startsWith slash native.member
        ((Path.dirPrefix_getParent inner).trans starts) atParent
      exact absurd descendant.hasDir known

theorem emulated_matches_iff (itself : listed.ListsItself) (path : Path)
    (recursive : Bool) :
    listed.tree.MatchesNative path recursive
        (listed.emulated path recursive) ↔
      ¬ (recursive = true ∧ path.endsWithSlash = true ∧
        ¬ listed.tree.HasDir path) := by
  cases recursive with
  | false =>
      constructor
      · intro _ offending
        obtain ⟨impossible, _⟩ := offending
        cases impossible
      · exact fun _ => matches_direct itself path
  | true =>
      cases slash : path.endsWithSlash with
      | false =>
          constructor
          · intro _ offending
            obtain ⟨_, impossible, _⟩ := offending
            cases impossible
          · exact fun _ => matches_walk_parent slash
      | true =>
          by_cases known : listed.tree.HasDir path
          · constructor
            · exact fun _ offending => offending.2.2 known
            · exact fun _ => matches_walk known
          · constructor
            · exact fun wrong =>
                absurd wrong (not_matches_walk_absent slash known)
            · exact fun fine => absurd ⟨rfl, rfl, known⟩ fine

end Keys

/-- `complete_list` over a service without `list_with_recursive`, called until
`None`, returns the entries of the native listing, each of them once, except
for the recursive listing of a directory that does not exist. -/
theorem completeList_native_iff {A L : Type} [Lister L] [ListAccess A L]
    {listed : DirListing} (service : ListingService A listed)
    (total : service.Total) (itself : listed.ListsItself) (inner : A)
    (path : Path) (recursive : Bool) :
    ∃ (lister : CompleteLister A L) (later : A) (out : List Entry)
      (enough : Nat),
      completeList inner false path ⟨recursive⟩ = (.ok lister, later) ∧
      (∀ turns, enough ≤ turns → ∀ calls, ∃ last : CompleteLister A L,
        Automaton.run (ListSession.step (CompleteLister.next turns))
            (.new lister) (List.replicate calls ()) =
          some ⟨last, out.take calls, 0, decide (out.length < calls)⟩) ∧
      (listed.tree.MatchesNative path recursive out ↔
        ¬ (recursive = true ∧ path.endsWithSlash = true ∧
          ¬ listed.tree.HasDir path)) := by
  obtain ⟨lister, later, enough, completed, enumerated⟩ :=
    completeList_enumerates total inner path recursive
  refine ⟨lister, later, listed.emulated path recursive, enough,
    completed, ?_, emulated_matches_iff itself path recursive⟩
  intro turns fits calls
  obtain ⟨yields, enumerates, start⟩ := enumerated turns fits
  obtain ⟨last, ran⟩ := enumerates.run (.new lister) start calls
  refine ⟨last, ?_⟩
  rw [ran]
  simp [ListSession.new]

/-! ## A tree in memory -/

/-- Every directory is listed with itself first, and nothing where there is no
directory. -/
def DirTree.selfListing (tree : DirTree) : DirListing where
  tree
  listing := fun dir =>
    if tree.HasDir dir then
      ⟨dir, .new .dir⟩ :: tree.children dir
    else
      []
  lists := by
    intro dir known
    refine .inr ⟨⟨dir, .new .dir⟩, rfl, rfl, ?_⟩
    rw [if_pos known]

theorem DirTree.listsItself_selfListing (tree : DirTree) :
    tree.selfListing.ListsItself := by
  intro dir known
  have listing : tree.selfListing.listing dir =
      ⟨dir, .new .dir⟩ :: tree.children dir := if_pos known
  exact ⟨⟨dir, .new .dir⟩, rfl, rfl, by rw [listing]; rfl⟩

theorem PlainTree.total (tree : DirTree) :
    (PlainTree.service tree.selfListing).Total where
  steady := PlainTree.steady
  absent := by
    intro acc dir absent
    exact ⟨_, acc, rfl, if_neg absent⟩

/-- Everything that starts with `d`. -/
theorem completeList_native_iff_sample :
    ∃ (lister : CompleteLister (PlainTree sampleTree.selfListing) PlainLister)
      (later : PlainTree sampleTree.selfListing) (out : List Entry)
      (enough : Nat),
      completeList ⟨⟩ false "d".toList ⟨true⟩ = (.ok lister, later) ∧
      (∀ turns, enough ≤ turns → ∀ calls, ∃ last,
        Automaton.run (ListSession.step (CompleteLister.next turns))
            (.new lister) (List.replicate calls ()) =
          some ⟨last, out.take calls, 0, decide (out.length < calls)⟩) ∧
      sampleTree.MatchesNative "d".toList true out := by
  obtain ⟨lister, later, out, enough, completed, runs, matchesIff⟩ :=
    completeList_native_iff (PlainTree.service sampleTree.selfListing)
      (PlainTree.total sampleTree) sampleTree.listsItself_selfListing ⟨⟩
      "d".toList true
  refine ⟨lister, later, out, enough, completed, runs, matchesIff.mpr ?_⟩
  intro offending
  obtain ⟨_, slash, _⟩ := offending
  cases slash

/-- The recursive listing of `x/`, which does not exist, returns it. -/
theorem completeList_native_fails_absent :
    ∃ (lister : CompleteLister (PlainTree sampleTree.selfListing) PlainLister)
      (later : PlainTree sampleTree.selfListing)
      (finish : ListSession (CompleteLister
        (PlainTree sampleTree.selfListing) PlainLister)),
      completeList ⟨⟩ false "x/".toList ⟨true⟩ = (.ok lister, later) ∧
      Automaton.run (ListSession.step (CompleteLister.next 9)) (.new lister)
        [(), ()] = some finish ∧
      finish.finished = true ∧
      finish.outputs = [⟨"x/".toList, .new .dir⟩] ∧
      ¬ sampleTree.MatchesNative "x/".toList true finish.outputs := by
  refine ⟨_, _, _, rfl, rfl, rfl, rfl, ?_⟩
  intro native
  obtain ⟨_, members⟩ := native
  obtain ⟨entry, native, same⟩ :=
    (members ("x/".toList, .dir)).mp (by decide)
  have atPath : entry.path = "x/".toList := congrArg Prod.fst same
  have absent : "x/".toList ∉ sampleTree.entries.map Entry.path := by decide
  exact absent (atPath ▸ List.mem_map_of_mem native.member)

end OpenDal
