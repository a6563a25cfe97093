import Mathlib.Data.List.Basic
import Mathlib.Data.List.DropRight

/-!
# Paths

A path is the list of its characters, so that a prefix of a path is a prefix
of the list.
-/

namespace OpenDal

abbrev Path := List Char

namespace Path

/-- `char::is_whitespace`: the Unicode property `White_Space`. -/
def isWhitespace (c : Char) : Bool :=
  let code := c.toNat
  (0x9 ≤ code && code ≤ 0xD) || code == 0x20 || code == 0x85 ||
    code == 0xA0 || code == 0x1680 || (0x2000 ≤ code && code ≤ 0x200A) ||
    code == 0x2028 || code == 0x2029 || code == 0x202F || code == 0x205F ||
    code == 0x3000

/-- `str::trim`. -/
def trim (path : Path) : Path :=
  (path.dropWhile isWhitespace).rdropWhile isWhitespace

/-- `str::ends_with('/')`. -/
def endsWithSlash (path : Path) : Bool :=
  path.getLast? == some '/'

/-- Make sure all operations are constructed by normalized path.  A path that
ends with `/` is the path of a directory. -/
def normalizePath (path : Path) : Path :=
  -- all whitespace and then all leading `/` are trimmed, each of them once
  let path := (trim path).dropWhile (· == '/')
  if path.isEmpty then
    ['/']
  else
    let segments := (path.splitOn '/').filter fun segment => !segment.isEmpty
    let p := ['/'].intercalate segments
    if endsWithSlash path then p ++ ['/'] else p

/-- `str::rfind('/')`. -/
def rfindSlash (path : Path) : Option Nat :=
  (path.reverse.findIdx? (· == '/')).map fun idx => path.length - 1 - idx

/-- Get parent from path. -/
def getParent (path : Path) : Path :=
  if path = ['/'] then
    ['/']
  else if !endsWithSlash path then
    match rfindSlash path with
    | some v => path.take (v + 1)
    | none => ['/']
  else
    -- the `/` before the last one
    match (rfindSlash path.dropLast).map (· + 1) with
    | some v => path.take v
    | none => ['/']

/-! ## The parent of a path -/

theorem endsWithSlash_iff {path : Path} :
    endsWithSlash path = true ↔ ∃ stem, path = stem ++ ['/'] := by
  rw [endsWithSlash, beq_iff_eq, List.getLast?_eq_some_iff]

theorem rfindSlash_append (front : Path) {back : Path} (last : '/' ∉ back) :
    rfindSlash (front ++ '/' :: back) = some front.length := by
  have found : (back.reverse ++ '/' :: front.reverse).findIdx?
      (· == '/') = some back.length := by
    rw [List.findIdx?_append, List.findIdx?_eq_none_iff.mpr]
    · simp [List.findIdx?_cons]
    · intro c member
      rw [beq_eq_false_iff_ne]
      intro same
      subst same
      exact last (List.mem_reverse.mp member)
  simp only [rfindSlash, List.reverse_append, List.reverse_cons,
    List.append_assoc, List.singleton_append, found, Option.map_some,
    List.length_append, List.length_cons, Option.some.injEq]
  omega

theorem rfindSlash_none {path : Path} (none : '/' ∉ path) :
    rfindSlash path = Option.none := by
  rw [rfindSlash, List.findIdx?_eq_none_iff.mpr]
  · rfl
  · intro c member
    rw [beq_eq_false_iff_ne]
    intro same
    subst same
    exact none (List.mem_reverse.mp member)

theorem exists_last_slash (path : Path) :
    '/' ∉ path ∨ ∃ front back, path = front ++ '/' :: back ∧ '/' ∉ back := by
  by_cases member : '/' ∈ path
  · obtain ⟨back, front, split, last⟩ :=
      List.eq_append_cons_of_mem (List.mem_reverse.mpr member)
    refine .inr ⟨front.reverse, back.reverse, ?_, by simpa using last⟩
    have reversed := congrArg List.reverse split
    simpa using reversed
  · exact .inl member

theorem take_slash (front back : Path) :
    (front ++ '/' :: back).take (front.length + 1) = front ++ ['/'] := by
  rw [List.take_length_add_append]
  rfl

/-- The directory of an entry is what stands before its name, and the root
where nothing does.  `stem` is the path without a trailing `/`. -/
theorem getParent_spec {path : Path} (inner : path ≠ ['/']) :
    ∃ stem, (path = stem ∨ path = stem ++ ['/']) ∧
      (endsWithSlash path = true → path = stem ++ ['/']) ∧
      (('/' ∉ stem ∧ getParent path = ['/']) ∨
        ∃ front back, stem = front ++ '/' :: back ∧ '/' ∉ back ∧
          getParent path = front ++ ['/']) := by
  by_cases slash : endsWithSlash path = true
  · obtain ⟨stem, rfl⟩ := endsWithSlash_iff.mp slash
    refine ⟨stem, .inr rfl, fun _ => rfl, ?_⟩
    rcases exists_last_slash stem with none | ⟨front, back, rfl, last⟩
    · refine .inl ⟨none, ?_⟩
      simp [getParent, inner, slash, rfindSlash_none none]
    · refine .inr ⟨front, back, rfl, last, ?_⟩
      have found := rfindSlash_append front last
      simp only [getParent, if_neg inner, slash, List.dropLast_concat, found]
      rw [List.append_assoc, List.cons_append]
      exact take_slash front _
  · refine ⟨path, .inl rfl, fun other => absurd other slash, ?_⟩
    rcases exists_last_slash path with none | ⟨front, back, rfl, last⟩
    · refine .inl ⟨none, ?_⟩
      simp [getParent, inner, slash, rfindSlash_none none]
    · refine .inr ⟨front, back, rfl, last, ?_⟩
      have found := rfindSlash_append front last
      simp only [getParent, if_neg inner, slash, found]
      exact take_slash front back

theorem endsWithSlash_getParent (path : Path) :
    endsWithSlash (getParent path) = true := by
  by_cases root : path = ['/']
  · simp [getParent, root, endsWithSlash]
  · obtain ⟨stem, _, _, ⟨_, same⟩ | ⟨front, back, _, _, same⟩⟩ :=
      getParent_spec root
    · simp [same, endsWithSlash]
    · simp [same, endsWithSlash]

theorem length_getParent_lt {path : Path} (inner : path ≠ ['/'])
    (slash : endsWithSlash path = true) :
    (getParent path).length < path.length := by
  obtain ⟨stem, _, isDir, parent⟩ := getParent_spec inner
  have split := isDir slash
  have total := congrArg List.length split
  rcases parent with ⟨_, same⟩ | ⟨front, back, rfl, _, same⟩
  · have nonempty : stem ≠ [] := by
      intro equal
      subst equal
      exact inner split
    have positive := List.length_pos_iff.mpr nonempty
    rw [List.length_append] at total
    rw [same, total, List.length_singleton]
    omega
  · rw [same, total]
    simp only [List.length_append, List.length_cons]
    omega

theorem length_getParent_lt_of_ne {path : Path}
    (below : getParent path ≠ ['/']) :
    (getParent path).length < path.length := by
  have inner : path ≠ ['/'] := by
    intro same
    exact below (by simp [same, getParent])
  by_cases slash : endsWithSlash path = true
  · exact length_getParent_lt inner slash
  · obtain ⟨stem, orDir, _, ⟨_, same⟩ | ⟨front, back, split, _, same⟩⟩ :=
      getParent_spec inner
    · exact absurd same below
    · have file : path = front ++ '/' :: back := by
        rcases orDir with rfl | rfl
        · exact split
        · exact absurd (endsWithSlash_iff.mpr ⟨stem, rfl⟩) slash
      have filled : back ≠ [] := by
        intro empty
        subst empty
        exact slash (endsWithSlash_iff.mpr ⟨front, file⟩)
      have positive := List.length_pos_iff.mpr filled
      rw [same, file]
      simp only [List.length_append, List.length_cons, List.length_nil]
      omega

/-- What the paths of all entries below a directory start with, which is
nothing for the root. -/
def dirPrefix (dir : Path) : Path :=
  if dir = ['/'] then [] else dir

theorem dirPrefix_getParent {path : Path} (inner : path ≠ ['/']) :
    dirPrefix (getParent path) <+: path := by
  obtain ⟨stem, orDir, _, ⟨_, same⟩ | ⟨front, back, split, _, same⟩⟩ :=
    getParent_spec inner
  · simp [same, dirPrefix]
  · have reached : front ++ ['/'] <+: path := by
      rcases orDir with rfl | rfl
      · exact ⟨back, by simp [split]⟩
      · exact ⟨back ++ ['/'], by simp [split]⟩
    rw [same, dirPrefix]
    split
    · exact List.nil_prefix
    · exact reached

/-- A directory whose path an entry starts with is its parent or above it. -/
theorem dirPrefix_prefix_getParent {dir path : Path}
    (slash : endsWithSlash dir = true) (inner : path ≠ ['/'])
    (below : dirPrefix dir <+: path) (different : path ≠ dir) :
    dirPrefix dir <+: getParent path := by
  by_cases root : dir = ['/']
  · simp [dirPrefix, root]
  · simp only [dirPrefix, if_neg root] at below ⊢
    obtain ⟨name, rfl⟩ := endsWithSlash_iff.mp slash
    obtain ⟨stem, orDir, _, parent⟩ := getParent_spec inner
    have within : name ++ ['/'] <+: stem := by
      rcases orDir with rfl | rfl
      · exact below
      · rcases List.prefix_concat_iff.mp below with same | shorter
        · exact absurd same.symm different
        · exact shorter
    rcases parent with ⟨none, _⟩ | ⟨front, back, split, last, same⟩
    · exact absurd (within.subset (by simp)) none
    · rw [same]
      have reached : front ++ ['/'] <+: stem := ⟨back, by simp [split]⟩
      rcases List.prefix_or_prefix_of_prefix within reached with
        shorter | ⟨rest, longer⟩
      · exact shorter
      · -- a longer one would have its last `/` in the name
        have tail : rest <+: back := by
          rw [← longer, split, ← List.singleton_append (l := back),
            ← List.append_assoc] at within
          exact (List.prefix_append_right_inj _).mp within
        rcases List.eq_nil_or_concat rest with rfl | ⟨init, c, rfl⟩
        · rw [List.append_nil] at longer
          exact longer ▸ List.prefix_refl _
        · rw [List.concat_eq_append] at tail longer
          rw [← List.append_assoc] at longer
          have slashes := List.append_inj_right' longer rfl
          rw [slashes] at tail
          exact absurd (tail.subset (by simp)) last

end Path

end OpenDal
