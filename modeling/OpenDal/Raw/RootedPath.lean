import OpenDal.Raw.PathWalk
import OpenDal.TextSlice

/-!
# Rooted paths

The functions that put a path below a root, and the one that takes it back,
with the assertions of a debug build.  `build_rel_path` slices its argument at
a number of bytes, which leaves out the leading `/` of the root where the
argument has none.

On the paths of `normalize_path` and the roots of `normalize_root` no assertion
fails, and the way back ends where the way there began.
-/

namespace OpenDal

open Path TextSlice

/-- `debug_assert!`; `none` is the panic. -/
def debugAssert (holds : Bool) : Option Unit :=
  if holds then some () else none

@[simp] theorem debugAssert_bind_eq_some {α : Type} {holds : Bool}
    {next : Unit → Option α} {result : α} :
    debugAssert holds >>= next = some result ↔
      holds = true ∧ next () = some result := by
  cases holds with
  | false => simp [debugAssert]
  | true => simp [debugAssert]

namespace Checked

/-- `build_abs_path`, with its assertions. -/
def buildAbsPath (root path : Path) : Option Path := do
  debugAssert (startsWithSlash root)
  debugAssert (endsWithSlash root)
  let p ← sliceFrom 1 root
  if path = ['/'] then
    pure p
  else
    debugAssert (!startsWithSlash path)
    pure (p ++ path)

/-- `build_rooted_abs_path`, with its assertions. -/
def buildRootedAbsPath (root path : Path) : Option Path := do
  debugAssert (startsWithSlash root)
  debugAssert (endsWithSlash root)
  if path = ['/'] then
    pure root
  else
    debugAssert (!startsWithSlash path)
    pure (root ++ path)

/-- `build_rel_path`, with its assertions. -/
def buildRelPath (root path : Path) : Option Path := do
  debugAssert (root != path)
  if startsWithSlash path then
    debugAssert (root.isPrefixOf path)
    sliceFrom (byteLength root) path
  else
    let inner ← sliceFrom 1 root
    debugAssert (inner.isPrefixOf path)
    sliceFrom (byteLength root - 1) path

end Checked

/-- Why a build stops. -/
inductive Panic where
  | slice
  | unwrap
  | assertion
deriving DecidableEq

theorem Panic.bind_eq_ok_iff {α β : Type} {first : Except Panic α}
    {next : α → Except Panic β} {result : β} :
    first >>= next = .ok result ↔
      ∃ value, first = .ok value ∧ next value = .ok result := by
  cases first with
  | error panic => simp [bind, Except.bind]
  | ok value => simp [bind, Except.bind]

/-- Assert what the path starts with, in debug builds, and cut it off. -/
def cutFrom (debug : Bool) (start : Path) (skipped : Nat) (path : Path) :
    Except Panic Path :=
  if debug && !start.isPrefixOf path then
    .error .assertion
  else
    match sliceFrom skipped path with
    | some rest => .ok rest
    | none => .error .slice

/-- `build_rel_path`, in a build with assertions or without. -/
def relPath (debug : Bool) (root path : Path) : Except Panic Path :=
  if debug && root == path then
    .error .assertion
  else if startsWithSlash path then
    cutFrom debug root (byteLength root) path
  else
    cutFrom debug (root.drop 1) (byteLength root - 1) path

/-! ## Where no assertion fails -/

theorem Checked.buildAbsPath_eq_some {root path abs : Path}
    (built : Checked.buildAbsPath root path = some abs) :
    Path.buildAbsPath root path = abs := by
  rw [Checked.buildAbsPath, debugAssert_bind_eq_some,
    debugAssert_bind_eq_some] at built
  obtain ⟨starts, -, cut⟩ := built
  obtain ⟨p, cut, rest⟩ := Option.bind_eq_some_iff.mp cut
  obtain ⟨inner, rfl⟩ : ∃ inner, root = '/' :: inner := by
    apply List.head?_eq_some_iff.mp
    exact beq_iff_eq.mp starts
  have inner_eq : some inner = some p :=
    (sliceFrom_append ['/'] inner).symm.trans cut
  cases inner_eq
  rw [Path.buildAbsPath]
  by_cases top : path = ['/']
  · rw [if_pos top] at rest ⊢
    exact Option.some.inj rest
  · rw [if_neg top] at rest ⊢
    exact Option.some.inj (debugAssert_bind_eq_some.mp rest).2

theorem sliceFrom_of_prefix {start path rest : Path} (starts : start <+: path)
    (cut : sliceFrom (byteLength start) path = some rest) :
    path.drop start.length = rest := by
  obtain ⟨behind, rfl⟩ := starts
  rw [sliceFrom_append] at cut
  rw [List.drop_left]
  exact Option.some.inj cut

theorem Checked.buildRelPath_eq_some {root path rel : Path}
    (built : Checked.buildRelPath root path = some rel) :
    Path.buildRelPath root path = rel := by
  rw [Checked.buildRelPath, debugAssert_bind_eq_some] at built
  obtain ⟨-, built⟩ := built
  rw [Path.buildRelPath]
  by_cases absolute : startsWithSlash path = true
  · rw [if_pos absolute, debugAssert_bind_eq_some] at built
    obtain ⟨starts, cut⟩ := built
    rw [if_pos absolute]
    exact sliceFrom_of_prefix (List.isPrefixOf_iff_prefix.mp starts) cut
  · rw [if_neg absolute] at built ⊢
    obtain ⟨inner, first, rest⟩ := Option.bind_eq_some_iff.mp built
    obtain ⟨starts, cut⟩ := debugAssert_bind_eq_some.mp rest
    obtain ⟨before, rfl, single⟩ := sliceFrom_eq_some_iff.mp first
    have short : (before ++ inner).length - 1 = inner.length := by
      rw [List.length_append, length_of_byteLength_eq_one single]
      omega
    rw [byteLength_append, single, Nat.add_sub_cancel_left] at cut
    rw [short]
    exact sliceFrom_of_prefix (List.isPrefixOf_iff_prefix.mp starts) cut

namespace Root

theorem startsWithSlash_path (root : Root) :
    startsWithSlash root.path = true := rfl

theorem endsWithSlash_path (root : Root) :
    endsWithSlash root.path = true := by
  rcases root.closed with empty | closed
  · rw [path, empty]
    rfl
  · obtain ⟨stem, same⟩ := endsWithSlash_iff.mp closed
    rw [endsWithSlash_iff, path, same]
    exact ⟨'/' :: stem, rfl⟩

theorem sliceFrom_path (root : Root) :
    sliceFrom 1 root.path = some root.inner :=
  sliceFrom_append ['/'] root.inner

variable (root : Root) {path : Path}

theorem checked_buildAbsPath
    (proper : path = ['/'] ∨ startsWithSlash path = false) :
    Checked.buildAbsPath root.path path =
      some (root.inner ++ dirPrefix path) := by
  by_cases top : path = ['/']
  · simp [Checked.buildAbsPath, debugAssert, root.startsWithSlash_path,
      root.endsWithSlash_path, root.sliceFrom_path, top, dirPrefix]
  · have relative := proper.resolve_left top
    simp [Checked.buildAbsPath, debugAssert, root.startsWithSlash_path,
      root.endsWithSlash_path, root.sliceFrom_path, top, relative, dirPrefix]

theorem checked_buildRootedAbsPath
    (proper : path = ['/'] ∨ startsWithSlash path = false) :
    Checked.buildRootedAbsPath root.path path =
      some (root.path ++ dirPrefix path) := by
  by_cases top : path = ['/']
  · simp [Checked.buildRootedAbsPath, debugAssert, root.startsWithSlash_path,
      root.endsWithSlash_path, top, dirPrefix]
  · have relative := proper.resolve_left top
    simp [Checked.buildRootedAbsPath, debugAssert, root.startsWithSlash_path,
      root.endsWithSlash_path, top, relative, dirPrefix]

/-- What follows the root comes back, where the root has its leading `/`. -/
theorem checked_buildRelPath_path (filled : path ≠ []) :
    Checked.buildRelPath root.path (root.path ++ path) = some path := by
  have other : root.path ≠ root.path ++ path := by
    simpa using filled
  have absolute : startsWithSlash (root.path ++ path) = true := rfl
  have starts : root.path.isPrefixOf (root.path ++ path) = true :=
    List.isPrefixOf_iff_prefix.mpr (List.prefix_append _ _)
  simp [Checked.buildRelPath, debugAssert, other, absolute, starts,
    sliceFrom_append]

/-- And where it does not have it. -/
theorem checked_buildRelPath_inner (relative : startsWithSlash path = false) :
    Checked.buildRelPath root.path (root.inner ++ path) = some path := by
  have inside : startsWithSlash (root.inner ++ path) = false := by
    cases inner : root.inner with
    | nil => exact relative
    | cons c rest =>
        rw [startsWithSlash_append (List.cons_ne_nil c rest), ← inner]
        exact root.relative
  have other : root.path ≠ root.inner ++ path := by
    intro same
    rw [← same] at inside
    cases inside
  have skipped : byteLength root.path - 1 = byteLength root.inner := by
    have first : '/'.utf8Size = 1 := rfl
    rw [Root.path, byteLength_cons, first, Nat.add_sub_cancel_left]
  simp [Checked.buildRelPath, debugAssert, other, inside, skipped,
    root.sliceFrom_path, sliceFrom_append]

end Root

/-! ## Builds with and without assertions -/

theorem cutFrom_eq_ok_iff {start path rest : Path} {skipped : Nat} :
    cutFrom true start skipped path = .ok rest ↔
      start.isPrefixOf path = true ∧ sliceFrom skipped path = some rest := by
  rw [cutFrom, Bool.true_and]
  cases starts : start.isPrefixOf path with
  | false => simp
  | true =>
      cases cut : sliceFrom skipped path with
      | none => simp
      | some rest => simp

/-- A debug build returns what the function with its assertions does. -/
theorem relPath_eq_ok_iff {root : Root} {path rel : Path} :
    relPath true root.path path = .ok rel ↔
      Checked.buildRelPath root.path path = some rel := by
  rw [relPath, Checked.buildRelPath, Bool.true_and, debugAssert_bind_eq_some]
  by_cases same : root.path = path
  · simp [same]
  · have other : (root.path == path) = false := beq_eq_false_iff_ne.mpr same
    have distinct : (root.path != path) = true := bne_iff_ne.mpr same
    rw [other, if_neg Bool.false_ne_true, distinct]
    by_cases absolute : startsWithSlash path = true
    · rw [if_pos absolute, if_pos absolute, cutFrom_eq_ok_iff,
        debugAssert_bind_eq_some]
      simp
    · rw [if_neg absolute, if_neg absolute, cutFrom_eq_ok_iff,
        root.sliceFrom_path, Option.bind_eq_bind, Option.bind_some,
        debugAssert_bind_eq_some]
      simp [Root.path]

/-- What is below the root is taken back, where the path has no `/` of the
root at its start. -/
theorem Root.relPath_inner (root : Root) {rel : Path}
    (relative : startsWithSlash (root.inner ++ rel) = false) (debug : Bool) :
    relPath debug root.path (root.inner ++ rel) = .ok rel := by
  have other : (root.path == root.inner ++ rel) = false := by
    rw [beq_eq_false_iff_ne]
    intro same
    rw [← same] at relative
    cases relative
  have skipped : byteLength root.path - 1 = byteLength root.inner := by
    have first : '/'.utf8Size = 1 := rfl
    rw [Root.path, byteLength_cons, first, Nat.add_sub_cancel_left]
  have starts : root.inner.isPrefixOf (root.inner ++ rel) = true :=
    List.isPrefixOf_iff_prefix.mpr (List.prefix_append _ _)
  have dropped : root.path.drop 1 = root.inner := rfl
  simp [relPath, other, relative, dropped, cutFrom, skipped, starts,
    sliceFrom_append]

/-! ## There and back -/

theorem Path.dirPrefix_of_relative {path : Path}
    (relative : startsWithSlash path = false) : dirPrefix path = path := by
  have below : path ≠ ['/'] := by
    intro top
    rw [top] at relative
    cases relative
  rw [dirPrefix, if_neg below]

/-- What `normalize_path` returns. -/
def Path.IsNormalized (path : Path) : Prop :=
  ∃ given, normalizePath given = path

namespace Path.IsNormalized

variable {path : Path}

theorem exists_append (normalized : path.IsNormalized) (below : path ≠ ['/']) :
    ∃ dir name, IsDir dir ∧ IsName name ∧ path = dir ++ name := by
  obtain ⟨given, rfl⟩ := normalized
  exact (normalizePath_cases given).resolve_left below

theorem cases (normalized : path.IsNormalized) :
    path = ['/'] ∨ startsWithSlash path = false ∧ path ≠ [] := by
  by_cases top : path = ['/']
  · exact .inl top
  · obtain ⟨dir, name, isDir, isName, rfl⟩ := normalized.exists_append top
    refine .inr ⟨startsWithSlash_append_name isDir isName, ?_⟩
    simp [isName.ne_nil]

theorem proper (normalized : path.IsNormalized) :
    path = ['/'] ∨ startsWithSlash path = false := by
  rcases normalized.cases with top | ⟨relative, -⟩
  · exact .inl top
  · exact .inr relative

/-- No two normalized paths have the same place below a root. -/
theorem eq_of_dirPrefix_eq {other : Path} (left : path.IsNormalized)
    (right : other.IsNormalized) (same : dirPrefix path = dirPrefix other) :
    path = other := by
  rcases left.cases with rfl | ⟨relative, filled⟩
  · rcases right.cases with rfl | ⟨relative, filled⟩
    · rfl
    · rw [dirPrefix_of_relative relative] at same
      exact absurd same.symm filled
  · rw [dirPrefix_of_relative relative] at same
    rcases right.cases with rfl | ⟨other, -⟩
    · exact absurd same filled
    · rwa [dirPrefix_of_relative other] at same

end Path.IsNormalized

/-- Normalized paths can be put below the root and taken back, and no
assertion fails.  The root itself cannot be taken back. -/
structure Path.RootsReversibly (root : Path) : Prop where
  abs_back : ∀ path : Path, path.IsNormalized → path ≠ ['/'] →
    ∃ abs, Checked.buildAbsPath root path = some abs ∧
      Checked.buildRelPath root abs = some path
  rooted_back : ∀ path : Path, path.IsNormalized → path ≠ ['/'] →
    ∃ abs, Checked.buildRootedAbsPath root path = some abs ∧
      Checked.buildRelPath root abs = some path
  under_root : ∀ path : Path, path.IsNormalized →
    ∃ inner abs, root = '/' :: inner ∧
      Checked.buildAbsPath root path = some abs ∧ inner <+: abs
  injective : ∀ left right : Path, left.IsNormalized → right.IsNormalized →
    Checked.buildAbsPath root left = Checked.buildAbsPath root right →
    left = right

/-- What `normalize_root` returns is a root that paths can be put below. -/
theorem Path.rootsReversibly_normalizeRoot (v : Path) :
    RootsReversibly (normalizeRoot v) := by
  obtain ⟨root, same⟩ := Root.exists_path_eq_normalizeRoot v
  rw [same]
  constructor
  · intro path normalized below
    obtain ⟨relative, -⟩ := normalized.cases.resolve_left below
    refine ⟨_, root.checked_buildAbsPath normalized.proper, ?_⟩
    rw [dirPrefix_of_relative relative]
    exact root.checked_buildRelPath_inner relative
  · intro path normalized below
    obtain ⟨relative, filled⟩ := normalized.cases.resolve_left below
    refine ⟨_, root.checked_buildRootedAbsPath normalized.proper, ?_⟩
    rw [dirPrefix_of_relative relative]
    exact root.checked_buildRelPath_path filled
  · intro path normalized
    exact ⟨root.inner, _, rfl, root.checked_buildAbsPath normalized.proper,
      List.prefix_append _ _⟩
  · intro left right leftNormalized rightNormalized same
    rw [root.checked_buildAbsPath leftNormalized.proper,
      root.checked_buildAbsPath rightNormalized.proper] at same
    exact leftNormalized.eq_of_dirPrefix_eq rightNormalized
      (List.append_cancel_left (Option.some.inj same))

end OpenDal
