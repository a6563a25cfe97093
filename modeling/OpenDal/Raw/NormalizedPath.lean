import OpenDal.Raw.PathWalk

/-!
# Normalized paths and roots

`normalize_path` trims whitespace and then the leading `/`, each of them once.
Whitespace that stands behind the leading `/` becomes leading whitespace of
what it returns, and a second call trims it.

`normalize_root` joins the segments of its argument as they are.  The
whitespace around it, which its rules trim as those of `normalize_path` do,
stays.
-/

namespace OpenDal

namespace Path

/-! ## Paths without `//` -/

/-- Nothing has to be done about the `/` of the path. -/
structure Tidy (path : Path) : Prop where
  relative : startsWithSlash path = false
  single : ¬ ['/', '/'] <:+: path

theorem tidy_nil : Tidy [] where
  relative := rfl
  single := by simp

theorem Tidy.slash_cons {path : Path} (tidy : Tidy path) :
    ¬ ['/', '/'] <:+: '/' :: path := by
  intro inside
  rcases List.infix_cons_iff.mp inside with starts | later
  · obtain ⟨rest, same⟩ := (List.cons_prefix_cons.mp starts).2
    have absolute := tidy.relative
    rw [← same] at absolute
    cases absolute
  · exact tidy.single later

theorem not_infix_append {segment path : Path} (clean : '/' ∉ segment)
    (single : ¬ ['/', '/'] <:+: path) :
    ¬ ['/', '/'] <:+: segment ++ path := by
  induction segment with
  | nil => exact single
  | cons c segment induction =>
      have later := induction fun member =>
        clean (List.mem_cons_of_mem c member)
      intro inside
      rcases List.infix_cons_iff.mp inside with starts | inside
      · have first := (List.cons_prefix_cons.mp starts).1
        exact clean (by simp [← first])
      · exact later inside

theorem tidy_segment {segment : Path} (isSegment : IsSegment segment) :
    Tidy segment where
  relative := startsWithSlash_segment isSegment
  single := by
    have alone := not_infix_append isSegment.2 tidy_nil.single
    rwa [List.append_nil] at alone

theorem Tidy.segment_append {segment path : Path}
    (isSegment : IsSegment segment) (tidy : Tidy path) :
    Tidy (segment ++ '/' :: path) where
  relative := by
    rw [startsWithSlash_append isSegment.1]
    exact startsWithSlash_segment isSegment
  single := not_infix_append isSegment.2 tidy.slash_cons

theorem Tidy.flatMap_append {segments : List Path} {path : Path}
    (clean : ∀ segment ∈ segments, IsSegment segment) (tidy : Tidy path) :
    Tidy (segments.flatMap (· ++ ['/']) ++ path) := by
  induction segments with
  | nil => exact tidy
  | cons segment segments induction =>
      have rest := induction fun other member =>
        clean other (List.mem_cons_of_mem segment member)
      have whole := rest.segment_append (clean segment List.mem_cons_self)
      simpa using whole

theorem IsDir.tidy_append {dir path : Path} (isDir : IsDir dir)
    (tidy : Tidy path) : Tidy (dir ++ path) := by
  have clean : ∀ segment ∈ components dir, IsSegment segment :=
    fun _ => isSegment_of_mem_components
  have whole := tidy.flatMap_append clean
  rwa [flatMap_components isDir] at whole

theorem tidy_append_name {dir name : Path} (isDir : IsDir dir)
    (isName : IsName name) : Tidy (dir ++ name) := by
  apply isDir.tidy_append
  cases isName with
  | file isSegment => exact tidy_segment isSegment
  | dir isSegment => exact tidy_nil.segment_append isSegment

/-! ## Whitespace -/

theorem head?_trim {path : Path} {c : Char}
    (first : (trim path).head? = some c) : isWhitespace c = false := by
  obtain ⟨rest, same⟩ := List.head?_eq_some_iff.mp first
  obtain ⟨back, whole⟩ : trim path <+: path.dropWhile isWhitespace :=
    List.rdropWhile_prefix _ _
  rw [same, List.cons_append] at whole
  have kept := List.head?_dropWhile_not isWhitespace path
  rw [← whole] at kept
  exact kept

theorem getLast?_trim {path : Path} {c : Char}
    (last : (trim path).getLast? = some c) : isWhitespace c = false := by
  have filled : trim path ≠ [] := by
    intro empty
    rw [empty] at last
    cases last
  have kept := List.rdropWhile_last_not isWhitespace
    (path.dropWhile isWhitespace) filled
  rw [List.getLast?_eq_some_getLast filled, Option.some.injEq] at last
  rw [← last]
  exact Bool.not_eq_true _ ▸ kept

theorem trim_eq_self {path : Path}
    (first : ∀ c, path.head? = some c → isWhitespace c = false)
    (last : ∀ c, path.getLast? = some c → isWhitespace c = false) :
    trim path = path := by
  have front : path.dropWhile isWhitespace = path := by
    cases path with
    | nil => rfl
    | cons c rest =>
        apply List.dropWhile_cons_of_neg
        simp [first c rfl]
  rw [trim, front, List.rdropWhile_eq_self_iff]
  intro filled blank
  rw [last _ (List.getLast?_eq_some_getLast filled)] at blank
  cases blank

/-- Whitespace and leading `/` aside the path starts with whitespace, behind
which there is something else. -/
def HidesBlank (path : Path) : Prop :=
  ∃ blank slashes c rest,
    path = blank ++ '/' :: (slashes ++ c :: rest) ∧
      (∀ b ∈ blank, isWhitespace b = true) ∧ (∀ s ∈ slashes, s = '/') ∧
      isWhitespace c = true ∧ ∃ d ∈ rest, isWhitespace d = false

theorem rdropWhile_append_of_mem {p : Char → Bool} {left right : Path}
    {d : Char} (member : d ∈ right) (kept : p d = false) :
    (left ++ right).rdropWhile p = left ++ right.rdropWhile p := by
  have filled : ¬ (right.reverse.dropWhile p).isEmpty = true := by
    rw [List.isEmpty_iff, List.dropWhile_eq_nil_iff]
    intro dropped
    rw [dropped d (List.mem_reverse.mpr member)] at kept
    cases kept
  rw [List.rdropWhile, List.reverse_append, List.dropWhile_append,
    if_neg filled, List.reverse_append, List.reverse_reverse]
  rfl

theorem HidesBlank.trimmed_eq {path : Path} (hides : HidesBlank path) :
    ∃ c rest, trimmed path = c :: rest ∧ isWhitespace c = true := by
  obtain ⟨blank, slashes, c, rest, rfl, isBlank, isSlash, white, d, member,
    kept⟩ := hides
  refine ⟨c, rest.rdropWhile isWhitespace, ?_, white⟩
  have other : c ≠ '/' := by
    intro same
    rw [same] at white
    cases white
  have front : (blank ++ '/' :: (slashes ++ c :: rest)).dropWhile
      isWhitespace = '/' :: slashes ++ [c] ++ rest := by
    rw [List.dropWhile_append, List.dropWhile_eq_nil_iff.mpr isBlank]
    simp [show isWhitespace '/' = false from rfl]
  rw [trimmed, trim, front, rdropWhile_append_of_mem member kept]
  have slash : ∀ s ∈ '/' :: slashes, (s == '/') = true := by
    intro s inside
    rcases List.mem_cons.mp inside with same | later
    · simp [same]
    · simp [isSlash s later]
  rw [List.append_assoc, List.dropWhile_append,
    List.dropWhile_eq_nil_iff.mpr slash]
  simp [other]

theorem hidesBlank_of_trimmed {path : Path} {c : Char} {rest : Path}
    (same : trimmed path = c :: rest) (white : isWhitespace c = true) :
    HidesBlank path := by
  have front : path.takeWhile isWhitespace ++ path.dropWhile isWhitespace =
      path := List.takeWhile_append_dropWhile
  obtain ⟨back, middle⟩ : trim path <+: path.dropWhile isWhitespace :=
    List.rdropWhile_prefix _ _
  have cut : (trim path).takeWhile (· == '/') ++ trimmed path = trim path :=
    List.takeWhile_append_dropWhile
  have isSlash : ∀ s ∈ (trim path).takeWhile (· == '/'), s = '/' := by
    intro s member
    simpa using List.mem_takeWhile_imp member
  rw [same] at cut
  generalize (trim path).takeWhile (· == '/') = slashes at cut isSlash
  cases slashes with
  | nil =>
      have first : (trim path).head? = some c := by
        rw [← cut]
        rfl
      rw [head?_trim first] at white
      cases white
  | cons s slashes =>
      have slash : s = '/' := isSlash s List.mem_cons_self
      refine ⟨path.takeWhile isWhitespace, slashes, c, rest ++ back, ?_, ?_, ?_,
        white, ?_⟩
      · rw [← slash]
        calc
          path = path.takeWhile isWhitespace ++
              ((s :: slashes ++ c :: rest) ++ back) := by
            rw [cut, middle, front]
          _ = _ := by simp
      · intro b member
        exact List.mem_takeWhile_imp member
      · intro s member
        exact isSlash s (List.mem_cons_of_mem _ member)
      · rcases List.eq_nil_or_concat rest with rfl | ⟨init, d, rfl⟩
        · have last : (trim path).getLast? = some c := by
            rw [← cut]
            exact List.getLast?_concat
          rw [getLast?_trim last] at white
          cases white
        · have last : (trim path).getLast? = some d := by
            rw [← cut, List.concat_eq_append, ← List.cons_append,
              ← List.append_assoc]
            exact List.getLast?_concat
          exact ⟨d, by simp, getLast?_trim last⟩

/-! ## `normalize_path` -/

theorem normalizePath_of_nil {path : Path} (empty : trimmed path = []) :
    normalizePath path = ['/'] := by
  rw [trimmed] at empty
  simp [normalizePath, empty]

theorem startsWithSlash_trimmed (path : Path) :
    startsWithSlash (trimmed path) = false := by
  have kept := List.head?_dropWhile_not (· == '/') (trim path)
  cases same : trimmed path with
  | nil => rfl
  | cons c rest =>
      rw [trimmed] at same
      rw [same] at kept
      simpa [startsWithSlash] using kept

theorem head?_normalizePath {path : Path} (filled : trimmed path ≠ []) :
    (normalizePath path).head? = (trimmed path).head? := by
  have relative := startsWithSlash_trimmed path
  rw [normalizePath_of_trimmed filled]
  obtain ⟨c, rest, same⟩ := List.exists_cons_of_ne_nil filled
  rw [same] at relative ⊢
  have other : c ≠ '/' := by
    intro slash
    rw [slash] at relative
    cases relative
  obtain ⟨first, others, split⟩ := exists_components_cons other rest
  rw [split]
  cases others with
  | nil => simp
  | cons second others => simp [List.intercalate_cons_cons]

theorem getLast?_normalizePath {path : Path} (filled : trimmed path ≠ []) :
    (normalizePath path).getLast? = (trimmed path).getLast? := by
  rw [normalizePath_of_trimmed filled]
  by_cases slash : endsWithSlash (trimmed path) = true
  · rw [if_pos slash, List.getLast?_concat]
    exact (beq_iff_eq.mp slash).symm
  · rw [if_neg slash, List.append_nil]
    rcases exists_last_slash (trimmed path) with
      clean | ⟨front, back, split, clean⟩
    · rw [components_segment ⟨filled, clean⟩, List.intercalate_singleton]
    · have isSegment : IsSegment back := by
        refine ⟨?_, clean⟩
        intro empty
        apply slash
        rw [split, empty, endsWithSlash_iff]
        exact ⟨front, rfl⟩
      rw [split, components_append_cons, components_segment isSegment,
        intercalate_concat, List.getLast?_append_of_ne_nil _ isSegment.1,
        List.getLast?_append_of_ne_nil _ (by simp),
        List.getLast?_cons_of_ne_nil isSegment.1]

theorem getLast?_trimmed {path : Path} (filled : trimmed path ≠ []) :
    (trimmed path).getLast? = (trim path).getLast? := by
  have cut : (trim path).takeWhile (· == '/') ++ trimmed path = trim path :=
    List.takeWhile_append_dropWhile
  rw [← cut, List.getLast?_append_of_ne_nil _ filled]

/-- Normalizing trims all whitespace, unless some of it stands behind the
leading `/`. -/
theorem trim_normalizePath {path : Path}
    (first : ∀ c rest, trimmed path = c :: rest → isWhitespace c = false) :
    trim (normalizePath path) = normalizePath path := by
  by_cases empty : trimmed path = []
  · rw [normalizePath_of_nil empty]
    rfl
  · apply trim_eq_self
    · intro c same
      rw [head?_normalizePath empty] at same
      obtain ⟨rest, same⟩ := List.head?_eq_some_iff.mp same
      exact first c rest same
    · intro c last
      rw [getLast?_normalizePath empty, getLast?_trimmed empty] at last
      exact getLast?_trim last

/-- What the rules say of the result of `normalize_path`, and that a second
call leaves it as it is. -/
structure IsCanonical (path : Path) : Prop where
  form : normalizePath path = ['/'] ∨
    normalizePath path ≠ [] ∧
      startsWithSlash (normalizePath path) = false ∧
      ¬ ['/', '/'] <:+: normalizePath path ∧
      trim (normalizePath path) = normalizePath path ∧
      endsWithSlash (normalizePath path) = endsWithSlash (trim path)
  stable : normalizePath (normalizePath path) = normalizePath path

theorem isCanonical_of_trim {path : Path}
    (bare : trim (normalizePath path) = normalizePath path) :
    IsCanonical path := by
  rcases normalizePath_cases path with root | ⟨dir, name, isDir, isName, same⟩
  · refine ⟨.inl root, ?_⟩
    rw [root]
    rfl
  · have tidy := tidy_append_name isDir isName
    have filled : trimmed path ≠ [] := by
      intro empty
      have root := normalizePath_of_nil empty
      rw [same] at root
      exact append_name_ne_slash isDir isName root
    have slash : endsWithSlash (normalizePath path) =
        endsWithSlash (trim path) := by
      rw [endsWithSlash, endsWithSlash, getLast?_normalizePath filled,
        getLast?_trimmed filled]
    rw [same] at bare slash
    constructor
    · right
      rw [same]
      exact ⟨List.append_ne_nil_of_right_ne_nil _ isName.ne_nil,
        tidy.relative, tidy.single, bare, slash⟩
    · rw [same]
      exact normalizePath_append_name isDir isName bare

/-- A second call trims what the first one has left. -/
theorem trim_of_stable {path : Path}
    (stable : normalizePath (normalizePath path) = normalizePath path) :
    trim (normalizePath path) = normalizePath path := by
  apply trim_eq_of_weight
  rw [← weight_normalizePath, stable]

/-- The results of `normalize_path` are as its rules say, and stay as they
are, unless whitespace stands behind the leading `/`. -/
theorem isCanonical_iff (path : Path) :
    IsCanonical path ↔ ¬ HidesBlank path := by
  constructor
  · intro canonical hides
    obtain ⟨c, rest, same, white⟩ := hides.trimmed_eq
    have filled : trimmed path ≠ [] := by simp [same]
    have first : (trim (normalizePath path)).head? = some c := by
      rw [trim_of_stable canonical.stable, head?_normalizePath filled, same]
      rfl
    rw [head?_trim first] at white
    cases white
  · intro shows
    apply isCanonical_of_trim
    apply trim_normalizePath
    intro c rest same
    by_contra white
    apply shows
    exact hidesBlank_of_trimmed same (by simpa using white)

/-- Of `/ a` only the `/` is trimmed, and of the result the blank. -/
theorem not_isCanonical_blank : ¬ IsCanonical "/ a".toList := by
  intro canonical
  exact absurd canonical.stable (by decide)

/-! ## `normalize_root` -/

theorem components_normalizeRoot (v : Path) :
    components (normalizeRoot v) = components v := by
  have clean : ∀ segment ∈ components v, IsSegment segment :=
    fun _ => isSegment_of_mem_components
  rw [normalizeRoot_eq, components_slash_cons, components_flatMap clean]

/-- What the rules say of the result of `normalize_root`, that a second call
leaves it as it is, and that it has the segments that `normalize_path` has. -/
structure FollowsRules (v : Path) : Prop where
  form : normalizeRoot v =
    '/' :: (components (trim v)).flatMap (· ++ ['/'])
  stable : normalizeRoot (normalizeRoot v) = normalizeRoot v
  single : ¬ ['/', '/'] <:+: normalizeRoot v
  agrees : components (normalizeRoot v) = components (normalizePath v)

/-- `normalize_root` follows its rules for what has no whitespace around it,
and for nothing else. -/
theorem followsRules_iff (v : Path) : FollowsRules v ↔ trim v = v := by
  constructor
  · intro follows
    have same := follows.agrees
    rw [components_normalizeRoot, components_normalizePath] at same
    apply trim_eq_of_weight
    rw [← size_components v, same, size_components]
  · intro bare
    have clean : ∀ segment ∈ components v, IsSegment segment :=
      fun _ => isSegment_of_mem_components
    have tidy := tidy_nil.flatMap_append clean
    rw [List.append_nil] at tidy
    constructor
    · rw [normalizeRoot_eq, bare]
    · rw [normalizeRoot_eq (normalizeRoot v), components_normalizeRoot,
        ← normalizeRoot_eq]
    · rw [normalizeRoot_eq]
      exact tidy.slash_cons
    · rw [components_normalizeRoot, components_normalizePath, bare]

/-- The blank in front of `a` stays. -/
theorem not_followsRules_blank : ¬ FollowsRules " a".toList := by
  intro follows
  exact absurd follows.form (by decide)

end Path

end OpenDal
