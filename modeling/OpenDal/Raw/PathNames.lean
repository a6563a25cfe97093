import OpenDal.Raw.Root

/-!
# The names on the way to a path

A path of a backend is the way down from the root of the service: the names of
the directories, each with its `/`, and the name of what the path leads to.
`names` lists them, and for the paths that a backend builds out of normalized
ones the functions that take a path apart agree with that list.
-/

namespace OpenDal

namespace Path

/-- Get basename from path. -/
def getBasename (path : Path) : Path :=
  if path = ['/'] then
    ['/']
  else if !endsWithSlash path then
    (path.splitOn '/').getLastD []
  else
    match (rfindSlash path.dropLast).map (· + 1) with
    | some v => path.drop v
    | none => path

/-- The non-empty components of a path. -/
def components (path : Path) : List Path :=
  (path.splitOn '/').filter fun component => !component.isEmpty

/-- Cut a path after each `/`. -/
def pieces : Path → List Path
  | [] => []
  | c :: rest =>
      if c = '/' then
        ['/'] :: pieces rest
      else
        match pieces rest with
        | [] => [[c]]
        | piece :: others => (c :: piece) :: others

/-- The names from the root down to the path. -/
def names (path : Path) : List Path :=
  if path = ['/'] then [] else pieces path

/-! ## Pieces -/

theorem flatten_pieces (path : Path) : (pieces path).flatten = path := by
  induction path with
  | nil => rfl
  | cons c rest induction =>
      unfold pieces
      split
      · rename_i slash
        simp [induction, slash]
      · cases cut : pieces rest with
        | nil =>
            rw [cut] at induction
            simp [← induction]
        | cons piece others =>
            rw [cut] at induction
            simp [← induction]

theorem pieces_append_cons (front back : Path) :
    pieces (front ++ '/' :: back) =
      pieces (front ++ ['/']) ++ pieces back := by
  induction front with
  | nil => simp [pieces]
  | cons c front induction =>
      simp only [List.cons_append, pieces, induction]
      split
      · rfl
      · cases cut : pieces (front ++ ['/']) with
        | nil =>
            have joined := flatten_pieces (front ++ ['/'])
            simp [cut] at joined
        | cons piece others => simp

theorem pieces_segment {segment : Path} (isSegment : IsSegment segment) :
    pieces segment = [segment] := by
  obtain ⟨filled, clean⟩ := isSegment
  induction segment with
  | nil => exact absurd rfl filled
  | cons c rest induction =>
      have other : c ≠ '/' := by
        intro same
        exact clean (by simp [same])
      cases rest with
      | nil => simp [pieces, other]
      | cons d rest =>
          have later := induction (by simp) fun member =>
            clean (List.mem_cons_of_mem c member)
          rw [pieces, later]
          simp [other]

theorem pieces_segment_slash {segment : Path} (clean : '/' ∉ segment) :
    pieces (segment ++ ['/']) = [segment ++ ['/']] := by
  induction segment with
  | nil => simp [pieces]
  | cons c rest induction =>
      have other : c ≠ '/' := by
        intro same
        exact clean (by simp [same])
      have later := induction fun member =>
        clean (List.mem_cons_of_mem c member)
      rw [List.cons_append, pieces, later]
      simp [other]

/-- Only the last piece may lack its `/`. -/
theorem endsWithSlash_of_mem_dropLast_pieces {path piece : Path}
    (member : piece ∈ (pieces path).dropLast) : endsWithSlash piece = true := by
  induction path generalizing piece with
  | nil => simp [pieces] at member
  | cons c rest induction =>
      unfold pieces at member
      split at member
      · cases cut : pieces rest with
        | nil => simp [cut] at member
        | cons first others =>
            rw [cut, List.dropLast_cons_of_ne_nil (by simp),
              List.mem_cons] at member
            rcases member with rfl | later
            · rfl
            · exact induction (by rwa [cut])
      · cases cut : pieces rest with
        | nil => simp [cut] at member
        | cons first others =>
            rw [cut] at member induction
            cases others with
            | nil => simp at member
            | cons second others =>
                simp only [List.dropLast_cons_cons, List.mem_cons]
                  at member induction
                rcases member with rfl | later
                · have ends : endsWithSlash first = true :=
                    induction (.inl rfl)
                  obtain ⟨stem, rfl⟩ := endsWithSlash_iff.mp ends
                  exact endsWithSlash_iff.mpr ⟨c :: stem, rfl⟩
                · exact induction (.inr later)

/-! ## Directories and what is in them -/

/-- The paths of directories, without the leading `/`. -/
inductive IsDir : Path → Prop where
  | root : IsDir []
  | child {dir segment : Path} (parent : IsDir dir)
      (isSegment : IsSegment segment) : IsDir (dir ++ (segment ++ ['/']))

/-- The name of a file or, with its `/`, of a directory. -/
inductive IsName : Path → Prop where
  | file {segment : Path} (isSegment : IsSegment segment) : IsName segment
  | dir {segment : Path} (isSegment : IsSegment segment) :
      IsName (segment ++ ['/'])

/-- The path under which a directory is known, which is `/` for the root. -/
def dirKey (dir : Path) : Path :=
  if dir = [] then ['/'] else dir

@[simp] theorem dirKey_nil : dirKey [] = ['/'] := rfl

theorem dirKey_of_ne_nil {dir : Path} (filled : dir ≠ []) :
    dirKey dir = dir := by
  simp [dirKey, filled]

theorem IsDir.eq_nil_or_slash {dir : Path} (isDir : IsDir dir) :
    dir = [] ∨ ∃ front, dir = front ++ ['/'] := by
  cases isDir with
  | root => exact .inl rfl
  | child parent isSegment =>
      exact .inr ⟨_, (List.append_assoc _ _ _).symm⟩

theorem IsName.ne_nil {name : Path} (isName : IsName name) : name ≠ [] := by
  cases isName with
  | file isSegment => exact isSegment.1
  | dir isSegment => simp

theorem IsName.ne_slash {name : Path} (isName : IsName name) :
    name ≠ ['/'] := by
  intro same
  cases isName with
  | file isSegment => exact isSegment.2 (by simp [same])
  | dir isSegment =>
      have short := congrArg List.length same
      have positive := List.length_pos_iff.mpr isSegment.1
      simp at short
      exact isSegment.1 short

theorem pieces_name {name : Path} (isName : IsName name) :
    pieces name = [name] := by
  cases isName with
  | file isSegment => exact pieces_segment isSegment
  | dir isSegment => exact pieces_segment_slash isSegment.2

theorem append_name_ne_slash {dir name : Path} (isDir : IsDir dir)
    (isName : IsName name) : dir ++ name ≠ ['/'] := by
  intro same
  rcases isDir.eq_nil_or_slash with rfl | ⟨front, rfl⟩
  · exact isName.ne_slash same
  · have short := congrArg List.length same
    have positive := List.length_pos_iff.mpr isName.ne_nil
    simp only [List.length_append, List.length_singleton] at short
    omega

theorem IsDir.ne_slash {dir : Path} (isDir : IsDir dir) : dir ≠ ['/'] := by
  cases isDir with
  | root => simp
  | child parent isSegment =>
      exact append_name_ne_slash parent (.dir isSegment)

theorem names_of_isDir {dir : Path} (isDir : IsDir dir) :
    names dir = pieces dir := by
  simp [names, isDir.ne_slash]

@[simp] theorem names_dirKey {dir : Path} (isDir : IsDir dir) :
    names (dirKey dir) = names dir := by
  by_cases empty : dir = []
  · subst empty
    rfl
  · rw [dirKey_of_ne_nil empty]

theorem names_append {dir name : Path} (isDir : IsDir dir)
    (isName : IsName name) : names (dir ++ name) = names dir ++ [name] := by
  rw [names_of_isDir isDir, names,
    if_neg (append_name_ne_slash isDir isName)]
  rcases isDir.eq_nil_or_slash with rfl | ⟨front, rfl⟩
  · rw [List.nil_append, pieces_name isName]
    rfl
  · rw [List.append_assoc, List.singleton_append, pieces_append_cons,
      pieces_name isName]

theorem isDir_prefix_names {dir name : Path} (isDir : IsDir dir)
    (isName : IsName name) : names dir <+: names (dir ++ name) := by
  rw [names_append isDir isName]
  exact List.prefix_append _ _

/-! ## Taking a path apart -/

theorem endsWithSlash_append (front : Path) {back : Path}
    (filled : back ≠ []) :
    endsWithSlash (front ++ back) = endsWithSlash back := by
  rw [endsWithSlash, endsWithSlash, List.getLast?_append_of_ne_nil _ filled]

theorem endsWithSlash_segment {segment : Path}
    (isSegment : IsSegment segment) : endsWithSlash segment = false := by
  by_contra ends
  obtain ⟨stem, rfl⟩ := endsWithSlash_iff.mp (by simpa using ends)
  exact isSegment.2 (by simp)

theorem rfindSlash_segment {dir segment : Path} (isDir : IsDir dir)
    (clean : '/' ∉ segment) :
    (dir = [] ∧ rfindSlash (dir ++ segment) = none) ∨
      (dir ≠ [] ∧ rfindSlash (dir ++ segment) = some (dir.length - 1)) := by
  rcases isDir.eq_nil_or_slash with rfl | ⟨front, rfl⟩
  · exact .inl ⟨rfl, rfindSlash_none clean⟩
  · refine .inr ⟨by simp, ?_⟩
    rw [List.append_assoc, List.singleton_append,
      rfindSlash_append front clean]
    simp

theorem getParent_name {name : Path} (isName : IsName name) :
    getParent name = ['/'] := by
  have inner := isName.ne_slash
  cases isName with
  | file isSegment =>
      simp only [getParent, inner, endsWithSlash_segment isSegment,
        rfindSlash_none isSegment.2]
      simp
  | @dir segment isSegment =>
      have ends : endsWithSlash (segment ++ ['/']) = true :=
        endsWithSlash_iff.mpr ⟨segment, rfl⟩
      simp only [getParent, inner, ends, List.dropLast_concat,
        rfindSlash_none isSegment.2]
      simp

theorem getParent_slash (front : Path) {name : Path}
    (isName : IsName name) :
    getParent (front ++ '/' :: name) = front ++ ['/'] := by
  have inner : front ++ '/' :: name ≠ ['/'] := by
    intro same
    have short := congrArg List.length same
    have positive := List.length_pos_iff.mpr isName.ne_nil
    simp only [List.length_append, List.length_cons, List.length_nil]
      at short
    omega
  have same := endsWithSlash_append (front ++ ['/']) isName.ne_nil
  rw [List.append_assoc, List.singleton_append] at same
  cases isName with
  | file isSegment =>
      rw [endsWithSlash_segment isSegment] at same
      simp only [getParent, if_neg inner, same,
        rfindSlash_append front isSegment.2]
      exact take_slash front name
  | @dir segment isSegment =>
      have ends : endsWithSlash (front ++ '/' :: (segment ++ ['/'])) =
          true := by
        rw [same]
        exact endsWithSlash_iff.mpr ⟨segment, rfl⟩
      have stem : (front ++ '/' :: (segment ++ ['/'])).dropLast =
          front ++ '/' :: segment := by
        rw [← List.cons_append, ← List.append_assoc, List.dropLast_concat]
      simp only [getParent, if_neg inner, ends, stem,
        rfindSlash_append front isSegment.2]
      exact take_slash front _

theorem getParent_append {dir name : Path} (isDir : IsDir dir)
    (isName : IsName name) : getParent (dir ++ name) = dirKey dir := by
  rcases isDir.eq_nil_or_slash with rfl | ⟨front, rfl⟩
  · exact getParent_name isName
  · rw [List.append_assoc, List.singleton_append, getParent_slash front isName]
    exact (dirKey_of_ne_nil (by simp)).symm

theorem getBasename_append {dir name : Path} (isDir : IsDir dir)
    (isName : IsName name) : getBasename (dir ++ name) = name := by
  have inner := append_name_ne_slash isDir isName
  have same := endsWithSlash_append dir isName.ne_nil
  cases isName with
  | file isSegment =>
      rw [endsWithSlash_segment isSegment] at same
      have single := List.splitOn_eq_singleton isSegment.2
      rcases isDir.eq_nil_or_slash with rfl | ⟨front, rfl⟩
      · rw [List.nil_append] at same inner ⊢
        simp [getBasename, inner, same, single]
      · have cut : (front ++ ['/'] ++ name).splitOn '/' =
            front.splitOn '/' ++ [name] := by
          rw [List.append_assoc, List.singleton_append, List.splitOn,
            List.splitOnP_append_cons _ _ (by simp)]
          exact congrArg _ single
        simp only [getBasename, inner, same, if_false, Bool.not_false,
          if_true, cut]
        simp
  | @dir segment isSegment =>
      have ends : endsWithSlash (dir ++ (segment ++ ['/'])) = true := by
        rw [same]
        exact endsWithSlash_iff.mpr ⟨segment, rfl⟩
      have stem : (dir ++ (segment ++ ['/'])).dropLast = dir ++ segment := by
        rw [← List.append_assoc, List.dropLast_concat]
      rcases rfindSlash_segment isDir isSegment.2 with
        ⟨rfl, found⟩ | ⟨filled, found⟩
      · simp only [getBasename, inner, ends, stem, found]
        simp
      · have positive := List.length_pos_iff.mpr filled
        simp only [getBasename, inner, ends, stem, found, if_false,
          Bool.not_true, Option.map_some]
        rw [Nat.sub_add_cancel positive]
        simp

/-! ## Components -/

theorem isSegment_of_mem_components {path segment : Path}
    (member : segment ∈ components path) : IsSegment segment :=
  isSegment_of_mem_filter member

theorem components_append_cons (front back : Path) :
    components (front ++ '/' :: back) =
      components front ++ components back := by
  rw [components, List.splitOn, List.splitOnP_append_cons _ _ (by simp),
    List.filter_append]
  rfl

theorem components_segment {segment : Path} (isSegment : IsSegment segment) :
    components segment = [segment] := by
  rw [components, List.splitOn_eq_singleton isSegment.2]
  simp [isSegment.1]

theorem components_append_slash (front : Path) :
    components (front ++ ['/']) = components front := by
  rw [components_append_cons]
  simp [components]

theorem components_slash_cons (path : Path) :
    components ('/' :: path) = components path :=
  components_append_cons [] path

theorem components_append {dir : Path} (isDir : IsDir dir) (path : Path) :
    components (dir ++ path) = components dir ++ components path := by
  rcases isDir.eq_nil_or_slash with rfl | ⟨front, rfl⟩
  · rfl
  · rw [List.append_assoc, List.singleton_append, components_append_cons,
      components_append_slash]

theorem IsName.exists_segment {name : Path} (isName : IsName name) :
    ∃ segment, IsSegment segment ∧
      (name = segment ∨ name = segment ++ ['/']) ∧
      components name = [segment] := by
  cases isName with
  | file isSegment =>
      exact ⟨name, isSegment, .inl rfl, components_segment isSegment⟩
  | @dir segment isSegment =>
      refine ⟨segment, isSegment, .inr rfl, ?_⟩
      rw [components_append_slash, components_segment isSegment]

theorem components_append_name {dir segment : Path} (isDir : IsDir dir)
    (isSegment : IsSegment segment) :
    components (dir ++ segment) = components dir ++ [segment] := by
  rw [components_append isDir, components_segment isSegment]

theorem components_child {dir segment : Path} (isDir : IsDir dir)
    (isSegment : IsSegment segment) :
    components (dir ++ (segment ++ ['/'])) = components dir ++ [segment] := by
  rw [components_append isDir, components_append_slash,
    components_segment isSegment]

theorem components_dirKey (dir : Path) :
    components (dirKey dir) = components dir := by
  by_cases empty : dir = []
  · subst empty
    rfl
  · rw [dirKey_of_ne_nil empty]

/-- A directory is the row of its components, each with its `/`. -/
theorem flatMap_components {dir : Path} (isDir : IsDir dir) :
    (components dir).flatMap (· ++ ['/']) = dir := by
  induction isDir with
  | root => rfl
  | @child dir segment parent isSegment induction =>
      rw [components_child parent isSegment, List.flatMap_append,
        induction]
      simp

theorem isDir_flatMap {dir : Path} (isDir : IsDir dir)
    {segments : List Path} (clean : ∀ segment ∈ segments, IsSegment segment) :
    IsDir (dir ++ segments.flatMap (· ++ ['/'])) := by
  induction segments generalizing dir with
  | nil => simpa using isDir
  | cons segment segments induction =>
      have first := isDir.child (clean segment List.mem_cons_self)
      have rest := induction first fun other member =>
        clean other (List.mem_cons_of_mem segment member)
      simpa using rest

/-! ## The paths that a backend builds -/

/-- The root of the service, or a name in a directory. -/
inductive IsPath : Path → Prop where
  | root : IsPath []
  | entry {dir name : Path} (isDir : IsDir dir) (isName : IsName name) :
      IsPath (dir ++ name)

theorem IsDir.isPath {dir : Path} (isDir : IsDir dir) : IsPath dir := by
  cases isDir with
  | root => exact .root
  | child parent isSegment => exact .entry parent (.dir isSegment)

theorem IsPath.getParent {path : Path} (isPath : IsPath path) :
    IsPath path.getParent ∨ path.getParent = ['/'] := by
  cases isPath with
  | root => exact .inr rfl
  | @entry dir name isDir isName =>
      rw [getParent_append isDir isName]
      by_cases empty : dir = []
      · exact .inr (by simp [empty])
      · rw [dirKey_of_ne_nil empty]
        exact .inl isDir.isPath

theorem IsPath.names_getParent {path : Path} (isPath : IsPath path) :
    path.getParent.names <+: path.names := by
  cases isPath with
  | root => exact List.prefix_refl _
  | entry isDir isName =>
      rw [getParent_append isDir isName, names_dirKey isDir]
      exact isDir_prefix_names isDir isName

/-- Joined segments are segments with a `/`, up to the last one. -/
theorem intercalate_concat (segments : List Path) (last : Path) :
    ['/'].intercalate (segments ++ [last]) =
      segments.flatMap (· ++ ['/']) ++ last := by
  induction segments with
  | nil => simp
  | cons segment segments induction =>
      have filled : segments ++ [last] ≠ [] := by simp
      obtain ⟨first, rest, split⟩ := List.exists_cons_of_ne_nil filled
      rw [List.cons_append, split, List.intercalate_cons_cons, ← split,
        induction, List.flatMap_cons]
      simp

theorem normalizeRoot_eq (v : Path) :
    normalizeRoot v = '/' :: (components v).flatMap (· ++ ['/']) := by
  have clean : ∀ segment ∈ components v, IsSegment segment :=
    fun _ => isSegment_of_mem_components
  have relative := startsWithSlash_intercalate clean
  have unfolded : normalizeRoot v =
      (let joined := '/' :: ['/'].intercalate (components v)
       if endsWithSlash joined then joined else joined ++ ['/']) := by
    simp only [normalizeRoot]
    rw [show (v.splitOn '/').filter (fun segment => !segment.isEmpty) =
      components v from rfl, relative]
    simp
  rw [unfolded]
  rcases List.eq_nil_or_concat (components v) with none | ⟨front, last, some⟩
  · simp [none, endsWithSlash]
  · have isSegment : IsSegment last := clean last (by simp [some])
    have open' : endsWithSlash ('/' :: ['/'].intercalate (components v)) =
        false := by
      rw [some, List.concat_eq_append, intercalate_concat,
        ← List.cons_append, endsWithSlash_append _ isSegment.1]
      exact endsWithSlash_segment isSegment
    simp only [open', Bool.false_eq_true, if_false]
    rw [some, List.concat_eq_append, intercalate_concat]
    simp

theorem isDir_drop_normalizeRoot (v : Path) :
    IsDir ((normalizeRoot v).drop 1) := by
  have clean : ∀ segment ∈ components v, IsSegment segment :=
    fun _ => isSegment_of_mem_components
  rw [normalizeRoot_eq]
  exact isDir_flatMap .root clean

theorem exists_components_cons {c : Char} (other : c ≠ '/') (rest : Path) :
    ∃ first others, components (c :: rest) = (c :: first) :: others := by
  have different : (c == '/') = false := by simp [other]
  rw [components, List.splitOn_cons_eq_if_modifyHead, different]
  cases split : rest.splitOn '/' with
  | nil => exact absurd split (List.splitOn_ne_nil '/' rest)
  | cons first others =>
      exact ⟨first, others.filter fun component => !component.isEmpty, by simp⟩

theorem components_cons_ne_nil {c : Char} (other : c ≠ '/') (rest : Path) :
    components (c :: rest) ≠ [] := by
  obtain ⟨first, others, same⟩ := exists_components_cons other rest
  rw [same]
  exact List.cons_ne_nil _ _

theorem normalizePath_cases (path : Path) :
    normalizePath path = ['/'] ∨
      ∃ dir name, IsDir dir ∧ IsName name ∧
        normalizePath path = dir ++ name := by
  simp only [normalizePath]
  generalize trimmed : (trim path).dropWhile (· == '/') = rest
  cases rest with
  | nil => exact .inl rfl
  | cons c rest =>
      refine .inr ?_
      have other : c ≠ '/' := by
        have filled : (trim path).dropWhile (· == '/') ≠ [] := by
          simp [trimmed]
        have kept := List.head_dropWhile_not (· == '/') filled
        simpa [trimmed] using kept
      have clean : ∀ segment ∈ components (c :: rest), IsSegment segment :=
        fun _ => isSegment_of_mem_components
      have joined : ((c :: rest).splitOn '/').filter
          (fun segment => !segment.isEmpty) = components (c :: rest) := rfl
      rw [joined]
      rcases List.eq_nil_or_concat (components (c :: rest)) with
        none | ⟨front, last, split⟩
      · exact absurd none (components_cons_ne_nil other rest)
      · rw [List.concat_eq_append] at split
        rw [split] at clean ⊢
        have isDir : IsDir (front.flatMap (· ++ ['/'])) :=
          isDir_flatMap .root fun segment member =>
            clean segment (List.mem_append_left _ member)
        have isSegment : IsSegment last := clean last (by simp)
        rw [intercalate_concat]
        simp only [List.isEmpty_cons, Bool.false_eq_true, if_false]
        by_cases slash : endsWithSlash (c :: rest) = true
        · exact ⟨_, last ++ ['/'], isDir, .dir isSegment, by simp [slash]⟩
        · exact ⟨_, last, isDir, .file isSegment, by simp [slash]⟩

theorem IsDir.append {dir rest : Path} (isDir : IsDir dir)
    (below : IsDir rest) : IsDir (dir ++ rest) := by
  induction below with
  | root => simpa using isDir
  | child parent isSegment induction =>
      rw [← List.append_assoc]
      exact induction.child isSegment

theorem isPath_buildAbsPath (root path : Path) :
    IsPath (buildAbsPath (normalizeRoot root) (normalizePath path)) := by
  have isDir := isDir_drop_normalizeRoot root
  simp only [buildAbsPath]
  split
  · exact isDir.isPath
  · rename_i below
    rcases normalizePath_cases path with same | ⟨dir, name, inner, isName, same⟩
    · exact absurd same below
    · rw [same, ← List.append_assoc]
      exact .entry (isDir.append inner) isName

/-! ## Names and paths -/

theorem flatten_names {path : Path} (inner : path ≠ ['/']) :
    path.names.flatten = path := by
  rw [names, if_neg inner, flatten_pieces]

/-- Below a name there is nothing but what its path is a prefix of, and then
it is the name of a directory. -/
theorem eq_or_prefix_of_names_prefix {dir name key : Path}
    (isDir : IsDir dir) (isName : IsName name)
    (below : (dir ++ name).names <+: key.names) :
    key = dir ++ name ∨
      (endsWithSlash (dir ++ name) = true ∧ dir ++ name <+: key) := by
  have whole := flatten_names (append_name_ne_slash isDir isName)
  have inner : key ≠ ['/'] := by
    intro same
    rw [same, names_append isDir isName] at below
    simp [names] at below
  have wholeKey := flatten_names inner
  obtain ⟨more, split⟩ := below
  rcases List.eq_nil_or_concat more with rfl | ⟨front, last, rfl⟩
  · rw [List.append_nil] at split
    rw [split] at whole
    exact .inl (wholeKey.symm.trans whole)
  · refine .inr ⟨?_, ?_⟩
    · rw [endsWithSlash_append dir isName.ne_nil]
      have keyPieces : key.names = pieces key := by rw [names, if_neg inner]
      rw [names_append isDir isName, keyPieces] at split
      apply endsWithSlash_of_mem_dropLast_pieces
      rw [← split, List.concat_eq_append, ← List.append_assoc,
        List.dropLast_concat]
      simp
    · rw [← whole, ← wholeKey, ← split, List.flatten_append]
      exact List.prefix_append _ _

theorem eq_of_names_eq {dir name key : Path} (isDir : IsDir dir)
    (isName : IsName name) (same : key.names = (dir ++ name).names) :
    key = dir ++ name := by
  have inner : key ≠ ['/'] := by
    intro root
    rw [root, names_append isDir isName] at same
    simp [names] at same
  rw [← flatten_names inner, same,
    flatten_names (append_name_ne_slash isDir isName)]

theorem names_mem_components {dir : Path} (isDir : IsDir dir) {name : Path}
    (member : name ∈ dir.names) :
    ∃ segment ∈ components dir, name = segment ++ ['/'] := by
  induction isDir with
  | root => simp [names, pieces] at member
  | @child dir segment parent isSegment induction =>
      rw [names_append parent (.dir isSegment), List.mem_append,
        List.mem_singleton] at member
      rw [components_child parent isSegment]
      rcases member with earlier | rfl
      · obtain ⟨other, found, same⟩ := induction earlier
        exact ⟨other, List.mem_append_left _ found, same⟩
      · exact ⟨segment, by simp, rfl⟩

/-- Every name on the way to a path is one of its components. -/
theorem IsPath.names_mem_components {path : Path} (isPath : IsPath path)
    {name : Path} (member : name ∈ path.names) :
    ∃ segment ∈ components path, name = segment ∨ name = segment ++ ['/'] := by
  cases isPath with
  | root => simp [names, pieces] at member
  | @entry dir last isDir isName =>
      rw [names_append isDir isName, List.mem_append, List.mem_singleton]
        at member
      cases isName with
      | file isSegment =>
          rw [components_append_name isDir isSegment]
          rcases member with earlier | rfl
          · obtain ⟨other, found, same⟩ :=
              Path.names_mem_components isDir earlier
            exact ⟨other, List.mem_append_left _ found, .inr same⟩
          · exact ⟨name, by simp, .inl rfl⟩
      | @dir segment isSegment =>
          rw [components_child isDir isSegment]
          rcases member with earlier | rfl
          · obtain ⟨other, found, same⟩ :=
              Path.names_mem_components isDir earlier
            exact ⟨other, List.mem_append_left _ found, .inr same⟩
          · exact ⟨segment, by simp, .inr rfl⟩

/-- Segments with a `/` each have no other components. -/
theorem components_flatMap {segments : List Path}
    (clean : ∀ segment ∈ segments, IsSegment segment) :
    components (segments.flatMap (· ++ ['/'])) = segments := by
  induction segments using List.reverseRecOn with
  | nil => rfl
  | append_singleton front last induction =>
      have inFront : ∀ segment ∈ front, IsSegment segment :=
        fun segment member => clean segment (List.mem_append_left _ member)
      have isDir : IsDir (front.flatMap (· ++ ['/'])) :=
        isDir_flatMap .root inFront
      rw [List.flatMap_append, List.flatMap_singleton, ← List.append_assoc,
        components_append_slash, components_append_name isDir
          (clean last (by simp)), induction inFront]

end Path

end OpenDal
