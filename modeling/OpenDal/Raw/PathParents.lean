import Mathlib.Algebra.BigOperators.Group.List.Basic
import Mathlib.Data.List.Iterate
import Mathlib.Logic.Function.Iterate
import OpenDal.Raw.NormalizedPath
import OpenDal.Raw.PathCache
import OpenDal.Raw.RootedPath

/-!
# Parents and basenames

`get_parent` and `get_basename` search for the last `/` of a file and for the
one before the last of a directory.  On normalized paths both cut at the same
place, in front of the last segment, and the parent is a normalized path again.
So the loop of the path cacher takes one segment off in each turn, and the
names that it asks for afterwards are those that the path is made of.
-/

namespace OpenDal

namespace Path

/-! ## Normalized directories -/

theorem dirPrefix_dirKey {dir : Path} (isDir : IsDir dir) :
    dirPrefix (dirKey dir) = dir := by
  by_cases empty : dir = []
  · simp [empty, dirPrefix]
  · rw [dirKey_of_ne_nil empty, dirPrefix, if_neg isDir.ne_slash]

theorem endsWithSlash_dirKey {dir : Path} (isDir : IsDir dir) :
    endsWithSlash (dirKey dir) = true := by
  rcases isDir.eq_nil_or_slash with rfl | ⟨front, rfl⟩
  · rfl
  · rw [dirKey_of_ne_nil (by simp)]
    exact endsWithSlash_iff.mpr ⟨front, rfl⟩

/-- Nothing is trimmed of a directory behind a `/` but this `/`. -/
theorem trimmed_slash_cons {dir : Path} (isDir : IsDir dir) :
    trimmed ('/' :: dir) = dir := by
  have bare : trim ('/' :: dir) = '/' :: dir := by
    apply trim_eq_self
    · intro c first
      cases first
      decide
    · intro c last
      rcases isDir.eq_nil_or_slash with rfl | ⟨front, rfl⟩
      · cases last
        decide
      · rw [← List.cons_append, List.getLast?_concat] at last
        cases last
        decide
  rw [trimmed, bare, List.dropWhile_cons_of_pos (by decide)]
  exact dropWhile_slash (startsWithSlash_of_isDir isDir)

theorem isNormalized_slash : IsNormalized ['/'] :=
  ⟨[], rfl⟩

theorem isNormalized_dirKey {dir : Path} (isDir : IsDir dir) :
    (dirKey dir).IsNormalized := by
  have kept := trimmed_slash_cons isDir
  cases isDir with
  | root => exact isNormalized_slash
  | child parent isSegment =>
      rw [dirKey_of_ne_nil (by simp)]
      exact ⟨_, normalizePath_of_trimmed_eq parent (.dir isSegment) kept⟩

theorem normalizePath_dirKey {dir name : Path} (isDir : IsDir dir)
    (bare : trim (dir ++ name) = dir ++ name) :
    normalizePath (dirKey dir) = dirKey dir := by
  cases isDir with
  | root => rfl
  | @child parent segment isParent isSegment =>
      have filled : parent ++ (segment ++ ['/']) ≠ [] := by simp
      rw [dirKey_of_ne_nil filled]
      apply normalizePath_append_name isParent (.dir isSegment)
      apply trim_eq_self
      · intro c first
        have whole : (parent ++ (segment ++ ['/']) ++ name).head? = some c := by
          rw [List.head?_append_of_ne_nil _ filled]
          exact first
        rw [← bare] at whole
        exact head?_trim whole
      · intro c last
        rw [← List.append_assoc, List.getLast?_concat] at last
        cases last
        decide

/-! ## One step -/

/-- The parent and the basename are the two parts of the path: a directory and
the last segment of the path, with its `/` if the path has one. -/
structure SplitsAtName (path : Path) : Prop where
  joined : dirPrefix (getParent path) ++ getBasename path = path
  named : ∃ segment, IsSegment segment ∧
    (getBasename path = segment ∨ getBasename path = segment ++ ['/']) ∧
    components path = components (getParent path) ++ [segment]
  trailing : endsWithSlash (getBasename path) = endsWithSlash path
  normalized : (getParent path).IsNormalized
  isDir : endsWithSlash (getParent path) = true
  stable : normalizePath path = path →
    normalizePath (getParent path) = getParent path

theorem splitsAtName_append {dir name : Path} (isDir : IsDir dir)
    (isName : IsName name) : SplitsAtName (dir ++ name) := by
  have parent := getParent_append isDir isName
  have basename := getBasename_append isDir isName
  constructor
  · rw [parent, basename, dirPrefix_dirKey isDir]
  · obtain ⟨segment, isSegment, shape, single⟩ := isName.exists_segment
    rw [parent, basename, components_dirKey, components_append isDir, single]
    exact ⟨segment, isSegment, shape, rfl⟩
  · rw [basename, endsWithSlash_append dir isName.ne_nil]
  · rw [parent]
    exact isNormalized_dirKey isDir
  · rw [parent]
    exact endsWithSlash_dirKey isDir
  · intro same
    have again : normalizePath (normalizePath (dir ++ name)) =
        normalizePath (dir ++ name) := congrArg normalizePath same
    have bare := trim_of_stable again
    rw [same] at bare
    rw [parent]
    exact normalizePath_dirKey isDir bare

theorem splitsAtName {path : Path} (normalized : path.IsNormalized)
    (below : path ≠ ['/']) : SplitsAtName path := by
  obtain ⟨dir, name, isDir, isName, rfl⟩ := normalized.exists_append below
  exact splitsAtName_append isDir isName

/-! ## All steps -/

theorem components_eq_nil_iff {path : Path} (normalized : path.IsNormalized) :
    components path = [] ↔ path = ['/'] := by
  constructor
  · intro empty
    by_contra below
    obtain ⟨segment, -, -, grown⟩ := (splitsAtName normalized below).named
    rw [empty] at grown
    exact List.append_ne_nil_of_right_ne_nil _ (List.cons_ne_nil _ _) grown.symm
  · rintro rfl
    rfl

theorem components_getParent {path : Path} (normalized : path.IsNormalized) :
    (getParent path).IsNormalized ∧
      components (getParent path) = (components path).dropLast := by
  by_cases top : path = ['/']
  · subst top
    exact ⟨isNormalized_slash, rfl⟩
  · have splits := splitsAtName normalized top
    obtain ⟨segment, -, -, grown⟩ := splits.named
    refine ⟨splits.normalized, ?_⟩
    rw [grown, List.dropLast_concat]

/-- After some steps the first segments are left. -/
theorem components_iterate {path : Path} (normalized : path.IsNormalized)
    (steps : Nat) :
    (getParent^[steps] path).IsNormalized ∧
      components (getParent^[steps] path) =
        (components path).take ((components path).length - steps) := by
  induction steps with
  | zero => exact ⟨normalized, by simp⟩
  | succ steps induction =>
      obtain ⟨still, left⟩ := induction
      obtain ⟨next, shorter⟩ := components_getParent still
      rw [Function.iterate_succ_apply']
      refine ⟨next, ?_⟩
      rw [shorter, left, List.dropLast_eq_take, List.take_take,
        List.length_take]
      congr 1
      omega

theorem iterate_eq_slash_iff {path : Path} (normalized : path.IsNormalized)
    (steps : Nat) :
    getParent^[steps] path = ['/'] ↔ (components path).length ≤ steps := by
  obtain ⟨still, left⟩ := components_iterate normalized steps
  rw [← components_eq_nil_iff still, left, List.take_eq_nil_iff,
    ← List.length_eq_zero_iff]
  omega

/-! ## The loop of the path cacher -/

/-- The paths that the names on the way to a path lead to, from the root
down. -/
def wayDown (path : Path) : List Path :=
  (List.iterate getParent path (components path).length).reverse

/-- As long as no parent is cached, each turn of the loop queues a path and
goes on with its parent. -/
theorem climb_iterate {ι : Type} {cache : Path → Option ι} {path : Path}
    {turns : Nat} (normalized : path.IsNormalized)
    (within : turns ≤ (components path).length)
    (uncached : ∀ steps < turns, cache (getParent^[steps + 1] path) = none)
    (fuel : Nat) (paths : List Path) :
    PathCacher.climb cache (fuel + turns) path paths =
      PathCacher.climb cache fuel (getParent^[turns] path)
        ((List.iterate getParent path turns).reverse ++ paths) := by
  induction turns generalizing path paths with
  | zero => rfl
  | succ turns induction =>
      have segments : components path ≠ [] := by
        intro empty
        rw [empty] at within
        cases within
      have below : path ≠ ['/'] :=
        fun top => segments ((components_eq_nil_iff normalized).mpr top)
      have filled : path ≠ [] := by
        rintro rfl
        exact segments rfl
      obtain ⟨next, shorter⟩ := components_getParent normalized
      have first : cache (getParent path) = none :=
        uncached 0 (Nat.succ_pos turns)
      have rest := induction next
        (by rw [shorter, List.length_dropLast]; omega)
        (fun steps less => uncached (steps + 1) (Nat.succ_lt_succ less))
        (path :: paths)
      rw [← Nat.add_assoc, PathCacher.climb, if_neg (by simp [below, filled])]
      simp only [first]
      rw [rest, Function.iterate_succ_apply, List.iterate, List.reverse_cons,
        List.append_assoc]
      rfl

/-- Without a cached parent the loop ends at the root. -/
theorem climb_eq_wayDown {ι : Type} {cache : Path → Option ι} {path : Path}
    {fuel : Nat} (normalized : path.IsNormalized)
    (uncached : ∀ steps, cache (getParent^[steps + 1] path) = none)
    (enough : (components path).length < fuel) :
    PathCacher.climb cache fuel path [] = (none, wayDown path) := by
  obtain ⟨spare, rfl⟩ := Nat.exists_eq_add_of_lt enough
  have turns := climb_iterate normalized (Nat.le_refl _)
    (fun steps _ => uncached steps) (spare + 1) []
  have top := (iterate_eq_slash_iff normalized _).mpr
    (Nat.le_refl (components path).length)
  rw [Nat.add_comm] at turns
  rw [Nat.add_assoc, turns, top, List.append_nil]
  simp [PathCacher.climb, wayDown]

theorem names_eq_concat {path : Path} (normalized : path.IsNormalized)
    (below : path ≠ ['/']) :
    names path = names (getParent path) ++ [getBasename path] := by
  obtain ⟨dir, name, isDir, isName, rfl⟩ := normalized.exists_append below
  rw [getParent_append isDir isName, getBasename_append isDir isName,
    names_dirKey isDir, names_append isDir isName]

theorem map_getBasename_wayDown {path : Path}
    (normalized : path.IsNormalized) :
    (wayDown path).map getBasename = names path := by
  induction turns : (components path).length generalizing path with
  | zero =>
      have top := (components_eq_nil_iff normalized).mp
        (List.length_eq_zero_iff.mp turns)
      rw [wayDown, turns, top]
      rfl
  | succ count induction =>
      have below : path ≠ ['/'] := by
        rintro rfl
        cases turns
      obtain ⟨next, shorter⟩ := components_getParent normalized
      have left : (components (getParent path)).length = count := by
        rw [shorter, List.length_dropLast, turns, Nat.add_sub_cancel]
      have front := induction next left
      rw [wayDown, left] at front
      rw [names_eq_concat normalized below, ← front, wayDown, turns,
        List.iterate, List.reverse_cons, List.map_append, List.map_singleton]

example : (wayDown "a/b c/d".toList).map getBasename =
    ["a/".toList, "b c/".toList, "d".toList] := by
  decide

/-- The fuel of the loop is enough. -/
theorem length_components_le (path : Path) :
    (components path).length ≤ path.length := by
  have filled : ∀ length ∈ (components path).map List.length, 1 ≤ length := by
    intro length member
    obtain ⟨segment, found, rfl⟩ := List.mem_map.mp member
    exact List.length_pos_of_ne_nil (isSegment_of_mem_components found).1
  calc (components path).length
      = ((components path).map List.length).length := by rw [List.length_map]
    _ ≤ ((components path).map List.length).sum :=
      List.length_le_sum_of_one_le _ filled
    _ = size (components path) := List.length_flatten.symm
    _ = weight path := size_components path
    _ ≤ path.length := List.countP_le_length

/-- Each step to the root splits the path in front of its last segment, and
there are as many steps as segments.  The loop of the path cacher takes these
steps, and the names that it asks for on the way down make up the path. -/
structure ClimbsToRoot (path : Path) : Prop where
  splits : ∀ steps < (components path).length,
    SplitsAtName (getParent^[steps] path)
  left : ∀ steps, components (getParent^[steps] path) =
    (components path).take ((components path).length - steps)
  top : ∀ steps,
    getParent^[steps] path = ['/'] ↔ (components path).length ≤ steps
  loop : ∀ (ι : Type) (cache : Path → Option ι),
    (∀ steps, cache (getParent^[steps + 1] path) = none) →
    PathCacher.climb cache (path.length + 1) path [] = (none, wayDown path)
  asked : ((wayDown path).map getBasename).flatten = path

/-- The parent and the basename split every normalized path but the root, and
all paths above it. -/
theorem climbsToRoot {path : Path} (normalized : path.IsNormalized)
    (below : path ≠ ['/']) : ClimbsToRoot path := by
  constructor
  · intro steps less
    apply splitsAtName (components_iterate normalized steps).1
    rw [Ne, iterate_eq_slash_iff normalized]
    exact Nat.not_le.mpr less
  · intro steps
    exact (components_iterate normalized steps).2
  · exact iterate_eq_slash_iff normalized
  · intro ι cache uncached
    exact climb_eq_wayDown normalized uncached
      (Nat.lt_succ_of_le (length_components_le path))
  · rw [map_getBasename_wayDown normalized, flatten_names below]

theorem climbsToRoot_nested : ClimbsToRoot "a/b c/d".toList :=
  climbsToRoot ⟨"a/b c/d".toList, by decide⟩ (by decide)

end Path

end OpenDal
