import OpenDal.Raw.PathWalk
import OpenDal.Types.Entry

/-!
# The lister of the file system

The entries of a directory come from the operating system with their names as
they are.  What is left of the path behind the root becomes the path of an
entry: its `\` are replaced by `/`, and the result is normalized.

The directories here are those of Unix, where `\` and whitespace are
characters of a name like all the others.
-/

namespace OpenDal

open Path

instance (segment : Path) : Decidable (IsSegment segment) :=
  inferInstanceAs (Decidable (segment ≠ [] ∧ '/' ∉ segment))

/-- The names that a file can have. -/
structure FileName where
  text : Path
  isSegment : IsSegment text
  terminated : '\x00' ∉ text
  real : text ≠ ['.'] ∧ text ≠ ['.', '.']

def FileName.texts (names : List FileName) : List Path :=
  names.map FileName.text

/-- An entry of a directory, with the answer to `file_type`. -/
structure DirEntry where
  path : List Path
  fileType : Except StdErrorKind EntryMode

structure FsLister where
  root : List Path
  currentPath : Option Path
  rd : List (Except StdErrorKind DirEntry)

namespace FsLister

/-- `Path::to_string_lossy` of a relative path. -/
def toStringLossy (path : List Path) : Path :=
  ['/'].intercalate path

/-- `str::replace('\\', "/")`. -/
def replaceBackslash (path : Path) : Path :=
  path.map fun c => if c = '\\' then '/' else c

/-- `None` when the path does not start with the root. -/
def relPath (root : List Path) (de : DirEntry) : Option Path :=
  (de.path.dropPrefix? root).map fun rest =>
    normalizePath (replaceBackslash (toStringLossy rest))

def entry (relPath : Path) : EntryMode → Entry
  | .dir => ⟨relPath ++ ['/'], .new .dir⟩
  | .file => ⟨relPath, .new .file⟩
  | .unknown => ⟨relPath, .new .unknown⟩

/-- `None` is the panic of `expect`. -/
def next (lister : FsLister) :
    Option (Except Error (Option Entry)) × FsLister :=
  match lister.currentPath with
  -- since list should return path itself, we return it first
  | some path =>
      (some (.ok (some ⟨path, .new .dir⟩)), { lister with currentPath := none })
  | none =>
      match lister.rd with
      | [] => (some (.ok none), lister)
      | .error kind :: rd =>
          (some (.error (newStdIoError kind)), { lister with rd })
      | .ok de :: rd =>
          match relPath lister.root de with
          | none => (none, { lister with rd })
          | some path =>
              match de.fileType with
              | .error kind =>
                  (some (.error (newStdIoError kind)), { lister with rd })
              | .ok mode =>
                  (some (.ok (some (entry path mode))), { lister with rd })

/-! ## The entry of a file -/

section Files

variable (root dir : List FileName) (name : FileName) (mode : EntryMode)

/-- The position of the file in the tree. -/
def file : List Path :=
  FileName.texts (root ++ dir ++ [name])

/-- The path of the file below the root. -/
def relative : Path :=
  toStringLossy (FileName.texts (dir ++ [name]))

/-- A lister of the directory, with the file as its next entry. -/
def before (rd : List (Except StdErrorKind DirEntry)) : FsLister where
  root := FileName.texts root
  currentPath := none
  rd := .ok ⟨file root dir name, .ok mode⟩ :: rd

/-- The entry that is returned for the file denotes the file. -/
def LeadsBack : Prop :=
  ∀ rd, ∃ entry lister,
    (before root dir name mode rd).next = (some (.ok (some entry)), lister) ∧
      denotes (FileName.texts root) (normalizePath entry.path) =
        file root dir name

/-- The entries of two files are returned with one path. -/
def SamePath (otherDir : List FileName) (otherName : FileName)
    (otherMode : EntryMode) : Prop :=
  ∃ rd otherRd entry otherEntry,
    (before root dir name mode rd).next.1 = some (.ok (some entry)) ∧
      (before root otherDir otherName otherMode otherRd).next.1 =
        some (.ok (some otherEntry)) ∧
      entry.path = otherEntry.path

/-- Neither the replacement nor the trimming has anything to do. -/
def Plain : Prop :=
  '\\' ∉ relative dir name ∧ trim (relative dir name) = relative dir name

end Files

/-! ## What the replacement loses -/

theorem replaceBackslash_of_not_mem {path : Path} (clean : '\\' ∉ path) :
    replaceBackslash path = path := by
  induction path with
  | nil => rfl
  | cons c rest induction =>
      have other : c ≠ '\\' := by
        intro same
        exact clean (by simp [same])
      have later := induction fun member =>
        clean (List.mem_cons_of_mem c member)
      rw [replaceBackslash, List.map_cons, if_neg other]
      exact congrArg (c :: ·) later

theorem weight_replaceBackslash (path : Path) :
    weight (replaceBackslash path) + path.count '\\' = weight path := by
  induction path with
  | nil => rfl
  | cons c rest induction =>
      have split : weight (c :: rest) = weight [c] + weight rest :=
        weight_append [c] rest
      have replaced : weight (replaceBackslash (c :: rest)) =
          weight (replaceBackslash [c]) + weight (replaceBackslash rest) :=
        weight_append (replaceBackslash [c]) (replaceBackslash rest)
      have counted : (c :: rest).count '\\' =
          [c].count '\\' + rest.count '\\' := by
        rw [← List.count_append]
        rfl
      have single : weight (replaceBackslash [c]) + [c].count '\\' =
          weight [c] := by
        by_cases backslash : c = '\\'
        · subst backslash
          decide
        · rw [replaceBackslash_of_not_mem (by simpa using Ne.symm backslash),
            List.count_eq_zero.mpr (by simpa using Ne.symm backslash)]
          rfl
      omega

/-! ## The entry of a file -/

variable {root dir : List FileName} {name : FileName} {mode : EntryMode}

theorem isSegment_texts {names : List FileName} :
    ∀ text ∈ FileName.texts names, IsSegment text := by
  intro text member
  obtain ⟨name, _, rfl⟩ := List.mem_map.mp member
  exact name.isSegment

theorem real_texts {names : List FileName} :
    ∀ text ∈ FileName.texts names, text ≠ ['.'] ∧ text ≠ ['.', '.'] := by
  intro text member
  obtain ⟨name, _, rfl⟩ := List.mem_map.mp member
  exact name.real

theorem texts_ne_nil (dir : List FileName) (name : FileName) :
    FileName.texts (dir ++ [name]) ≠ [] := by
  simp [FileName.texts]

theorem components_relative (dir : List FileName) (name : FileName) :
    components (relative dir name) = FileName.texts (dir ++ [name]) :=
  components_intercalate isSegment_texts

theorem file_eq_append (root dir : List FileName) (name : FileName) :
    file root dir name =
      FileName.texts root ++ FileName.texts (dir ++ [name]) := by
  simp [file, FileName.texts]

theorem relPath_file (root dir : List FileName) (name : FileName)
    (fileType : Except StdErrorKind EntryMode) :
    relPath (FileName.texts root) ⟨file root dir name, fileType⟩ =
      some (normalizePath (replaceBackslash (relative dir name))) := by
  have stripped : (file root dir name).dropPrefix? (FileName.texts root) =
      some (FileName.texts (dir ++ [name])) := by
    rw [file_eq_append]
    exact List.dropPrefix?_append_of_beq _ (beq_self_eq_true _)
  simp only [relPath, stripped]
  rfl

theorem next_before (root dir : List FileName) (name : FileName)
    (mode : EntryMode) (rd : List (Except StdErrorKind DirEntry)) :
    (before root dir name mode rd).next =
      (some (.ok (some (entry
        (normalizePath (replaceBackslash (relative dir name))) mode))),
      { root := FileName.texts root, currentPath := none, rd }) := by
  simp only [next, before, relPath_file]

/-- The path of an entry has no more than the `/` behind it to lose or to
keep. -/
theorem path_entry_cases (path : Path) (mode : EntryMode) :
    (entry path mode).path = path ∨
      (entry path mode).path = path ++ ['/'] := by
  cases mode with
  | dir => exact .inr rfl
  | file => exact .inl rfl
  | unknown => exact .inl rfl

theorem leadsBack_iff_walk :
    LeadsBack root dir name mode ↔
      walk (FileName.texts root) (trim (entry
        (normalizePath (replaceBackslash (relative dir name))) mode).path) =
        file root dir name := by
  constructor
  · intro leads
    obtain ⟨found, lister, ran, back⟩ := leads []
    rw [next_before] at ran
    cases ran
    rwa [denotes_normalizePath] at back
  · intro back rd
    refine ⟨_, _, next_before root dir name mode rd, ?_⟩
    rwa [denotes_normalizePath]

/-- Every character that is replaced or trimmed is missing from the position
that the entry denotes. -/
theorem LeadsBack.plain (leads : LeadsBack root dir name mode) :
    Plain dir name := by
  have back := leadsBack_iff_walk.mp leads
  generalize replaced : replaceBackslash (relative dir name) = path at back
  have reached := size_walk_le (FileName.texts root)
    (trim (entry (normalizePath path) mode).path)
  have whole : size (file root dir name) =
      size (FileName.texts root) + weight (relative dir name) := by
    rw [file_eq_append, size_append, ← components_relative, size_components]
  have entered : weight (entry (normalizePath path) mode).path =
      weight (trim path) := by
    rcases path_entry_cases (normalizePath path) mode with same | same
    · rw [same, weight_normalizePath]
    · rw [same, weight_append, weight_normalizePath]
      rfl
  have outer := weight_trim_le (entry (normalizePath path) mode).path
  have inner := weight_trim_le path
  have lost := weight_replaceBackslash (relative dir name)
  rw [replaced] at lost
  rw [back, whole] at reached
  have none : (relative dir name).count '\\' = 0 := by omega
  have clean : '\\' ∉ relative dir name := List.count_eq_zero.mp none
  have same : path = relative dir name := by
    rw [← replaced]
    exact replaceBackslash_of_not_mem clean
  refine ⟨clean, ?_⟩
  rw [← same]
  apply trim_eq_of_weight
  omega

theorem Plain.leadsBack (plain : Plain dir name) (root : List FileName)
    (mode : EntryMode) : LeadsBack root dir name mode := by
  obtain ⟨clean, trimmed⟩ := plain
  apply leadsBack_iff_walk.mpr
  have filled : relative dir name ≠ [] := by
    intro empty
    have none := components_relative dir name
    rw [empty] at none
    exact texts_ne_nil dir name none.symm
  have kept : normalizePath (relative dir name) = relative dir name :=
    normalizePath_intercalate (texts_ne_nil dir name) isSegment_texts trimmed
  have found : components (trim (entry (relative dir name) mode).path) =
      FileName.texts (dir ++ [name]) := by
    rcases path_entry_cases (relative dir name) mode with same | same
    · rw [same, trimmed, components_relative]
    · rw [same, trim_append_slash filled trimmed, components_append_slash,
        components_relative]
  rw [replaceBackslash_of_not_mem clean, kept, walk, found,
    foldl_enter real_texts, file_eq_append]

theorem LeadsBack.eq_of_samePath {otherDir : List FileName}
    {otherName : FileName} {otherMode : EntryMode}
    (leads : LeadsBack root dir name mode)
    (otherLeads : LeadsBack root otherDir otherName otherMode)
    (samePath : SamePath root dir name mode otherDir otherName otherMode) :
    file root dir name = file root otherDir otherName := by
  obtain ⟨rd, otherRd, found, otherFound, ran, otherRan, same⟩ := samePath
  obtain ⟨_, _, next, back⟩ := leads rd
  obtain ⟨_, _, otherNext, otherBack⟩ := otherLeads otherRd
  rw [next] at ran
  rw [otherNext] at otherRan
  cases ran
  cases otherRan
  rw [← back, same, otherBack]

/-- The entry of a file leads back to it exactly when no name on the way from
the root has a `\`, and the path neither starts nor ends with whitespace; no
two such files are listed under one path. -/
theorem leadsBack_iff (root dir : List FileName) (name : FileName)
    (mode : EntryMode) :
    (LeadsBack root dir name mode ↔ Plain dir name) ∧
      ∀ otherDir otherName otherMode, Plain dir name →
        Plain otherDir otherName →
        file root dir name ≠ file root otherDir otherName →
        ¬SamePath root dir name mode otherDir otherName otherMode := by
  constructor
  · constructor
    · exact LeadsBack.plain
    · intro plain
      exact plain.leadsBack root mode
  · intro otherDir otherName otherMode plain otherPlain different samePath
    apply different
    apply LeadsBack.eq_of_samePath _ _ samePath
    · exact plain.leadsBack root mode
    · exact otherPlain.leadsBack root otherMode

/-- `a/b c` and `a/d`. -/
theorem leadsBack_iff_nested :
    LeadsBack [⟨['r'], by decide, by decide, by decide⟩]
        [⟨['a'], by decide, by decide, by decide⟩]
        ⟨['b', ' ', 'c'], by decide, by decide, by decide⟩ .file ∧
      ¬SamePath [⟨['r'], by decide, by decide, by decide⟩]
        [⟨['a'], by decide, by decide, by decide⟩]
        ⟨['b', ' ', 'c'], by decide, by decide, by decide⟩ .file
        [⟨['a'], by decide, by decide, by decide⟩]
        ⟨['d'], by decide, by decide, by decide⟩ .dir := by
  constructor
  · exact (leadsBack_iff _ _ _ _).1.mpr ⟨by decide, by decide⟩
  · exact (leadsBack_iff _ _ _ _).2 _ _ _ ⟨by decide, by decide⟩
      ⟨by decide, by decide⟩ (by decide)

/-- The entry of `a\b` leads to `b` in the directory `a`, and the file that is
named `a` and a space is listed like the file `a`. -/
theorem leadsBack_fails :
    (¬∀ root dir name mode, LeadsBack root dir name mode) ∧
      ∃ root dir name mode otherDir otherName otherMode,
        file root dir name ≠ file root otherDir otherName ∧
          SamePath root dir name mode otherDir otherName otherMode := by
  constructor
  · intro leads
    obtain ⟨found, lister, ran, back⟩ := leads [] []
      ⟨['a', '\\', 'b'], by decide, by decide, by decide⟩ .file []
    cases ran
    exact absurd back (by decide)
  · exact ⟨[], [], ⟨['a'], by decide, by decide, by decide⟩, .file,
      [], ⟨['a', ' '], by decide, by decide, by decide⟩, .file,
      by decide, [], [], _, _, rfl, rfl, by decide⟩

end FsLister

end OpenDal
