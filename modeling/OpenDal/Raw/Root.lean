import OpenDal.Raw.Path
import OpenDal.Splitting

/-!
# Roots

A backend keeps everything below its root.  A path of the user is turned into
a path of the service by putting the root in front of it, without the leading
`/`, and the paths that the service reports are turned back.

The way back is not always the way there: the root itself, `/`, comes back as
the empty path.
-/

namespace OpenDal

namespace Path

/-- `str::starts_with('/')`. -/
def startsWithSlash (path : Path) : Bool :=
  path.head? == some '/'

/-- Make sure root is normalized to style like `/abc/def/`. -/
def normalizeRoot (v : Path) : Path :=
  let v := ['/'].intercalate
    ((v.splitOn '/').filter fun segment => !segment.isEmpty)
  let v := if startsWithSlash v then v else '/' :: v
  if endsWithSlash v then v else v ++ ['/']

/-- `build_abs_path`: an absolute path with root. -/
def buildAbsPath (root path : Path) : Path :=
  let p := root.drop 1
  if path = ['/'] then p else p ++ path

/-- `build_rel_path`: a relative path towards root. -/
def buildRelPath (root path : Path) : Path :=
  if startsWithSlash path then
    path.drop root.length
  else
    path.drop (root.length - 1)

/-! ## Segments -/

/-- A name between two `/`. -/
def IsSegment (segment : Path) : Prop :=
  segment ≠ [] ∧ '/' ∉ segment

theorem isSegment_of_mem_filter {path segment : Path}
    (member : segment ∈
      (path.splitOn '/').filter fun segment => !segment.isEmpty) :
    IsSegment segment := by
  obtain ⟨split, filled⟩ := List.mem_filter.mp member
  exact ⟨by simpa using filled, Splitting.not_mem_of_mem_splitOn split⟩

theorem startsWithSlash_append {left right : Path} (filled : left ≠ []) :
    startsWithSlash (left ++ right) = startsWithSlash left := by
  obtain ⟨c, rest, rfl⟩ := List.exists_cons_of_ne_nil filled
  simp [startsWithSlash]

theorem startsWithSlash_segment {segment : Path}
    (isSegment : IsSegment segment) : startsWithSlash segment = false := by
  obtain ⟨c, rest, rfl⟩ := List.exists_cons_of_ne_nil isSegment.1
  have first : c ≠ '/' := by
    intro same
    exact isSegment.2 (by simp [same])
  simp [startsWithSlash, first]

theorem startsWithSlash_intercalate {segments : List Path}
    (clean : ∀ segment ∈ segments, IsSegment segment) :
    startsWithSlash (['/'].intercalate segments) = false := by
  cases segments with
  | nil => rfl
  | cons first rest =>
      have isSegment := clean first List.mem_cons_self
      cases rest with
      | nil =>
          rw [List.intercalate_singleton]
          exact startsWithSlash_segment isSegment
      | cons second others =>
          rw [List.intercalate_cons_cons, List.append_assoc,
            startsWithSlash_append isSegment.1]
          exact startsWithSlash_segment isSegment

end Path

open Path

/-! ## Normalized roots -/

/-- A normalized root: `/`, or a path that starts and ends with one `/`. -/
structure Root where
  /-- The root without its leading `/`. -/
  inner : Path
  closed : inner = [] ∨ endsWithSlash inner = true
  relative : startsWithSlash inner = false

namespace Root

def path (root : Root) : Path :=
  '/' :: root.inner

/-- The root `/`. -/
def slash : Root :=
  ⟨[], .inl rfl, rfl⟩

@[simp] theorem length_path (root : Root) :
    root.path.length = root.inner.length + 1 := by
  simp [path]

theorem exists_path_eq_normalizeRoot (v : Path) :
    ∃ root : Root, normalizeRoot v = root.path := by
  have relative : startsWithSlash (['/'].intercalate
      ((v.splitOn '/').filter fun segment => !segment.isEmpty)) = false :=
    startsWithSlash_intercalate fun _ => isSegment_of_mem_filter
  simp only [normalizeRoot, relative, Bool.false_eq_true, if_false]
  generalize ['/'].intercalate
    ((v.splitOn '/').filter fun segment => !segment.isEmpty) = joined
    at relative
  cases joined with
  | nil => exact ⟨slash, rfl⟩
  | cons c rest =>
      have last : endsWithSlash ('/' :: c :: rest) =
          endsWithSlash (c :: rest) := by
        simp [endsWithSlash]
      rw [last]
      by_cases closed : endsWithSlash (c :: rest) = true
      · rw [if_pos closed]
        exact ⟨⟨c :: rest, .inr closed, relative⟩, rfl⟩
      · rw [if_neg closed]
        have ends : endsWithSlash (c :: rest ++ ['/']) = true :=
          endsWithSlash_iff.mpr ⟨c :: rest, rfl⟩
        exact ⟨⟨c :: rest ++ ['/'], .inr ends, relative⟩, rfl⟩

/-! ## There and back -/

theorem buildAbsPath_slash (root : Root) :
    buildAbsPath root.path ['/'] = root.inner := by
  simp [buildAbsPath, path]

theorem buildAbsPath_of_ne (root : Root) {path : Path}
    (below : path ≠ ['/']) :
    buildAbsPath root.path path = root.inner ++ path := by
  simp [buildAbsPath, Root.path, below]

/-- A path that comes back as it was. -/
def Returns (root : Root) (path : Path) : Prop :=
  path ≠ ['/'] ∧ ¬ (root.inner = [] ∧ startsWithSlash path = true)

instance (root : Root) (path : Path) : Decidable (root.Returns path) :=
  inferInstanceAs (Decidable (_ ∧ ¬ (_ ∧ _)))

theorem returns_of_relative {root : Root} {path : Path}
    (relative : startsWithSlash path = false) : root.Returns path := by
  refine ⟨?_, ?_⟩
  · intro same
    subst same
    cases relative
  · intro given
    rw [relative] at given
    cases given.2

theorem buildRelPath_buildAbsPath {root : Root} {path : Path}
    (returns : root.Returns path) :
    buildRelPath root.path (buildAbsPath root.path path) = path := by
  rw [root.buildAbsPath_of_ne returns.1, buildRelPath]
  have relative : startsWithSlash (root.inner ++ path) = false := by
    by_cases empty : root.inner = []
    · by_contra starts
      apply returns.2
      refine ⟨empty, ?_⟩
      simpa [empty] using starts
    · rw [startsWithSlash_append empty]
      exact root.relative
  simp [relative]

theorem length_buildRelPath_lt {root : Root} {path : Path}
    (other : ¬ root.Returns path) :
    (buildRelPath root.path (buildAbsPath root.path path)).length <
      path.length := by
  by_cases top : path = ['/']
  · subst top
    rw [buildAbsPath_slash, buildRelPath]
    simp [root.relative]
  · rw [root.buildAbsPath_of_ne top, buildRelPath]
    have shortened : root.inner = [] ∧ startsWithSlash path = true := by
      by_contra given
      exact other ⟨top, given⟩
    obtain ⟨empty, starts⟩ := shortened
    obtain ⟨c, rest, rfl⟩ : ∃ c rest, path = c :: rest := by
      cases path with
      | nil => cases starts
      | cons c rest => exact ⟨c, rest, rfl⟩
    simp [empty, starts]

theorem length_buildRelPath_le (root : Root) (path : Path) :
    (buildRelPath root.path (buildAbsPath root.path path)).length ≤
      path.length := by
  by_cases returns : root.Returns path
  · rw [buildRelPath_buildAbsPath returns]
  · exact Nat.le_of_lt (length_buildRelPath_lt returns)

end Root

end OpenDal
