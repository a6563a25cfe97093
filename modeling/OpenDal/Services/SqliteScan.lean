import OpenDal.LikePattern
import OpenDal.Raw.RootedMap

/-!
# Scans of a table in SQLite

The adapter keeps keys and values in a table, and scans the keys that are
`LIKE` the prefix with a `%` behind it.  The prefix gets into the pattern as
it is: its `%`, `_` and letters match other characters too.  So a scan is the
scan for a prefix as long as the prefix has none of them, and a listing stays
below the root as long as the root has none.
-/

namespace OpenDal

open Path LikePattern

namespace Sqlite

/-- The rows of the table, one for each key. -/
structure Table where
  rows : List (Path × Buffer)

namespace Table

def keys (table : Table) : List Path :=
  table.rows.map Prod.fst

/-- `SELECT value … WHERE key = $1 LIMIT 1`. -/
def get (table : Table) (path : Path) : Option Buffer :=
  (table.rows.find? fun row => row.1 = path).map Prod.snd

/-- `DELETE … WHERE key = $1`. -/
def delete (table : Table) (path : Path) : Table :=
  ⟨table.rows.filter fun row => row.1 ≠ path⟩

/-- `INSERT OR REPLACE`. -/
def set (table : Table) (path : Path) (value : Buffer) : Table :=
  ⟨(table.delete path).rows ++ [(path, value)]⟩

/-- `SELECT key … WHERE key LIKE $1`, with the prefix and a `%`. -/
def scan (table : Table) (path : Path) : List Path :=
  table.keys.filter (like (path ++ ['%']))

end Table

instance : Adapter Table Buffer where
  get table path := (.ok (table.get path), table)
  set table path value := (.ok (), table.set path value)
  delete table path := (.ok (), table.delete path)
  scan table path := (.ok (table.scan path), table)

end Sqlite

/-! ## Paths below the root -/

/-- What `build_rel_path` asserts of the path. -/
def Root.Holds (root : Root) (key : Path) : Prop :=
  if startsWithSlash key then root.path <+: key else root.inner <+: key

theorem Root.holds_of_inner {root : Root} {key : Path}
    (below : root.inner <+: key) : root.Holds key := by
  rw [Holds]
  split
  · next starts =>
      obtain ⟨rest, rfl⟩ := below
      by_cases top : root.inner = []
      · rw [Root.path, top]
        rw [top, List.nil_append] at starts
        rw [List.nil_append]
        cases rest with
        | nil => cases starts
        | cons c rest =>
            have slash : c = '/' := by simpa [startsWithSlash] using starts
            rw [slash]
            exact List.prefix_append ['/'] rest
      · rw [startsWithSlash_append top, root.relative] at starts
        cases starts
  · exact below

/-- The keys for which the lister of this path calls `build_rel_path`. -/
def Kv.listedKeys {S V : Type} [Adapter S V] (root : Root) (kv : S)
    (path : Path) : List Path :=
  match Adapter.scan kv (buildAbsPath root.path path) with
  | (.error _, _) => []
  | (.ok res, _) => res

namespace Sqlite

/-- In every table the scan finds the keys that start with the prefix. -/
def ScansPrefix (path : Path) : Prop :=
  ∀ table : Table, Adapter.scan table path =
    (.ok (table.keys.filter path.isPrefixOf), table)

/-- In every table the listing of the path is about keys below the root. -/
def ListsBelow (root : Root) (path : Path) : Prop :=
  ∀ table : Table, ∀ key ∈ Kv.listedKeys root table path, root.Holds key

/-! ## Matching a prefix -/

variable {path key : Path}

theorem like_prefix_iff (literal : ∀ c ∈ path, IsLiteral c) :
    like (path ++ ['%']) key = true ↔ path <+: key := by
  rw [like_literal_append literal]
  constructor
  · rintro ⟨rest, rfl, -⟩
    exact List.prefix_append path rest
  · rintro ⟨rest, rfl⟩
    exact ⟨rest, rfl, like_anything⟩

/-- Another text of the same length is scanned for as well. -/
theorem exists_like_other (special : ∃ c ∈ path, ¬ IsLiteral c) :
    ∃ other : Path, other.length = path.length ∧ other ≠ path ∧
      (startsWithSlash path = false → startsWithSlash other = false) ∧
      ∀ more, like (path ++ more ++ ['%']) (other ++ more) = true := by
  obtain ⟨front, c, item, back, rfl, different, letter, matched⟩ :=
    exists_like_of_not_literal special
  refine ⟨front ++ item :: back, by simp, ?_, ?_, ?_⟩
  · intro same
    exact different (List.cons.inj (List.append_cancel_left same)).1
  · intro relative
    cases front with
    | nil =>
        have noSlash : item ≠ '/' := by
          rintro rfl
          cases letter
        simp [startsWithSlash, noSlash]
    | cons first front => exact relative
  · intro more
    have whole := like_append (like_append matched (like_self more))
      (@like_anything [])
    rw [List.append_nil] at whole
    exact whole

theorem eq_of_prefix_append {other more : Path}
    (length : other.length = path.length)
    (starts : path <+: other ++ more) : other = path := by
  have short : path <+: other :=
    List.prefix_of_prefix_length_le starts (List.prefix_append other more)
      (Nat.le_of_eq length.symm)
  exact (short.eq_of_length length.symm).symm

theorem scansPrefix_iff (path : Path) :
    ScansPrefix path ↔ ∀ c ∈ path, IsLiteral c := by
  constructor
  · intro scans
    by_contra some
    have special : ∃ c ∈ path, ¬ IsLiteral c := by
      simpa only [not_forall, exists_prop] using some
    obtain ⟨other, length, different, -, matched⟩ :=
      exists_like_other special
    have found := matched []
    rw [List.append_nil, List.append_nil] at found
    have scanned := congrArg Prod.fst (scans ⟨[(other, Buffer.new)]⟩)
    have keys := Except.ok.inj scanned
    have member : other ∈ Table.scan ⟨[(other, Buffer.new)]⟩ path :=
      List.mem_filter.mpr ⟨List.mem_singleton.mpr rfl, found⟩
    rw [keys, List.mem_filter, List.isPrefixOf_iff_prefix] at member
    apply different
    apply eq_of_prefix_append length
    rw [List.append_nil]
    exact member.2
  · intro literal table
    have same : table.scan path = table.keys.filter path.isPrefixOf := by
      apply List.filter_congr
      intro key _
      rw [Bool.eq_iff_iff, like_prefix_iff literal,
        List.isPrefixOf_iff_prefix]
    show (Except.ok (table.scan path), table) = _
    rw [same]

theorem listsBelow_iff (root : Root) (path : Path) :
    ListsBelow root path ↔ ∀ c ∈ root.inner, IsLiteral c := by
  constructor
  · intro below
    by_contra some
    have special : ∃ c ∈ root.inner, ¬ IsLiteral c := by
      simpa only [not_forall, exists_prop] using some
    obtain ⟨other, length, different, relative, matched⟩ :=
      exists_like_other special
    have holds := below ⟨[(other ++ dirPrefix path, Buffer.new)]⟩
      (other ++ dirPrefix path) (by
        apply List.mem_filter.mpr
        refine ⟨List.mem_singleton.mpr rfl, ?_⟩
        rw [root.buildAbsPath_dir]
        exact matched (dirPrefix path))
    have filled : other ≠ [] := by
      intro empty
      rw [empty] at length
      obtain ⟨c, member, -⟩ := special
      rw [List.eq_nil_of_length_eq_zero length.symm] at member
      cases member
    rw [Root.Holds, startsWithSlash_append filled,
      relative root.relative] at holds
    exact different (eq_of_prefix_append length holds)
  · intro literal table key member
    obtain ⟨-, matched⟩ := List.mem_filter.mp member
    rw [root.buildAbsPath_dir, List.append_assoc,
      like_literal_append literal] at matched
    obtain ⟨rest, rfl, -⟩ := matched
    exact Root.holds_of_inner (List.prefix_append _ rest)

/-- A scan is the scan for the prefix, and a listing stays below the root,
exactly as long as every character stands for itself. -/
theorem scan_exact_iff (path : Path) (root : Root) (dir : Path) :
    (ScansPrefix path ↔ ∀ c ∈ path, IsLiteral c) ∧
    (ListsBelow root dir ↔ ∀ c ∈ root.inner, IsLiteral c) :=
  ⟨scansPrefix_iff path, listsBelow_iff root dir⟩

/-- The scan for `data/` finds `DATA/f`. -/
theorem not_scansPrefix_data :
    ¬ ScansPrefix ['d', 'a', 't', 'a', '/'] := by
  intro scans
  have scanned := scans ⟨[(['D', 'A', 'T', 'A', '/', 'f'], Buffer.new)]⟩
  have keys := Except.ok.inj (congrArg Prod.fst scanned)
  cases keys

end Sqlite

end OpenDal
