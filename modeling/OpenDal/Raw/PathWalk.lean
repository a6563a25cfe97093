import OpenDal.Raw.PathNames

/-!
# Where a path leads

The operating system goes along the components of a path from one directory to
the next one.  The result is the position in the tree, which is the names on
the way from its root; links are not part of the tree.

Neither a normalization nor a walk makes characters: the names of a position
that is reached have at most as many as the path, apart from its `/`.
-/

namespace OpenDal

namespace Path

/-- The root is its own parent. -/
def enter (position : List Path) (component : Path) : List Path :=
  if component = ['.'] then
    position
  else if component = ['.', '.'] then
    position.dropLast
  else
    position ++ [component]

def walk (position : List Path) (path : Path) : List Path :=
  (components path).foldl enter position

/-- `str::trim_end_matches('/')`. -/
def trimEndSlash (path : Path) : Path :=
  path.rdropWhile (· == '/')

/-- `root.join(path.trim_end_matches('/'))`; an absolute path takes the place
of the root. -/
def denotes (root : List Path) (path : Path) : List Path :=
  let path := trimEndSlash path
  walk (if startsWithSlash path then [] else root) path

/-! ## Components of normalized paths -/

theorem components_trimEndSlash (path : Path) :
    components (trimEndSlash path) = components path := by
  unfold trimEndSlash
  induction path using List.reverseRecOn with
  | nil => rfl
  | append_singleton front c induction =>
      by_cases slash : c = '/'
      · subst slash
        rw [List.rdropWhile_concat_pos _ _ _ (by simp), induction,
          components_append_slash]
      · rw [List.rdropWhile_concat_neg _ _ _ (by simp [slash])]

theorem components_dropWhile_slash (path : Path) :
    components (path.dropWhile (· == '/')) = components path := by
  induction path with
  | nil => rfl
  | cons c rest induction =>
      by_cases slash : c = '/'
      · subst slash
        rw [List.dropWhile_cons_of_pos (by simp), induction,
          components_slash_cons]
      · rw [List.dropWhile_cons_of_neg (by simp [slash])]

theorem components_intercalate {segments : List Path}
    (clean : ∀ segment ∈ segments, IsSegment segment) :
    components (['/'].intercalate segments) = segments := by
  rcases List.eq_nil_or_concat segments with rfl | ⟨front, last, rfl⟩
  · rfl
  · rw [List.concat_eq_append] at clean ⊢
    have inFront : ∀ segment ∈ front, IsSegment segment :=
      fun segment member => clean segment (List.mem_append_left _ member)
    rw [intercalate_concat, components_append_name
      (by simpa using isDir_flatMap .root inFront) (clean last (by simp)),
      components_flatMap inFront]

/-- Of the rules of normalizing only the trimming of whitespace has an effect
on the components. -/
theorem components_normalizePath (path : Path) :
    components (normalizePath path) = components (trim path) := by
  rw [← components_dropWhile_slash (trim path)]
  simp only [normalizePath]
  generalize (trim path).dropWhile (· == '/') = rest
  have clean : ∀ segment ∈ components rest, IsSegment segment :=
    fun _ => isSegment_of_mem_components
  have joined := components_intercalate clean
  cases rest with
  | nil => rfl
  | cons c rest =>
      simp only [List.isEmpty_cons, Bool.false_eq_true, if_false]
      split
      · rw [components_append_slash]
        exact joined
      · exact joined

theorem startsWithSlash_of_isDir {dir : Path} (isDir : IsDir dir) :
    startsWithSlash dir = false := by
  induction isDir with
  | root => rfl
  | @child dir segment parent isSegment induction =>
      cases dir with
      | nil =>
          rw [List.nil_append, startsWithSlash_append isSegment.1]
          exact startsWithSlash_segment isSegment
      | cons c rest =>
          rw [startsWithSlash_append (by simp)]
          exact induction

theorem startsWithSlash_append_name {dir name : Path} (isDir : IsDir dir)
    (isName : IsName name) : startsWithSlash (dir ++ name) = false := by
  cases isName with
  | @dir segment isSegment =>
      exact startsWithSlash_of_isDir (isDir.child isSegment)
  | file isSegment =>
      cases dir with
      | nil => exact startsWithSlash_segment isSegment
      | cons c rest =>
          rw [startsWithSlash_append (by simp)]
          exact startsWithSlash_of_isDir isDir

theorem startsWithSlash_of_isPrefix {front path : Path}
    (isPrefix : front <+: path) (relative : startsWithSlash path = false) :
    startsWithSlash front = false := by
  cases front with
  | nil => rfl
  | cons c front =>
      obtain ⟨back, rfl⟩ := isPrefix
      rw [startsWithSlash_append (by simp)] at relative
      exact relative

theorem startsWithSlash_normalizePath (path : Path) :
    startsWithSlash (trimEndSlash (normalizePath path)) = false := by
  rcases normalizePath_cases path with root | ⟨dir, name, isDir, isName, same⟩
  · rw [root]
    rfl
  · apply startsWithSlash_of_isPrefix (List.rdropWhile_prefix _ _)
    rw [same]
    exact startsWithSlash_append_name isDir isName

theorem denotes_normalizePath (root : List Path) (path : Path) :
    denotes root (normalizePath path) = walk root (trim path) := by
  simp only [denotes, walk, startsWithSlash_normalizePath,
    components_trimEndSlash, components_normalizePath]
  rfl

/-! ## Paths that a normalization keeps -/

/-- What `normalize_path` goes on with when it has trimmed its argument. -/
def trimmed (path : Path) : Path :=
  (trim path).dropWhile (· == '/')

theorem normalizePath_of_trimmed {path : Path} (filled : trimmed path ≠ []) :
    normalizePath path = ['/'].intercalate (components (trimmed path)) ++
      if endsWithSlash (trimmed path) then ['/'] else [] := by
  obtain ⟨c, rest, same⟩ := List.exists_cons_of_ne_nil filled
  have split : ((c :: rest).splitOn '/').filter
      (fun segment => !segment.isEmpty) = components (c :: rest) := rfl
  rw [same]
  rw [trimmed] at same
  simp only [normalizePath, same, split, List.isEmpty_cons,
    Bool.false_eq_true, if_false]
  split
  · rfl
  · exact (List.append_nil _).symm

theorem dropWhile_slash {path : Path}
    (relative : startsWithSlash path = false) :
    path.dropWhile (· == '/') = path := by
  cases path with
  | nil => rfl
  | cons c rest =>
      apply List.dropWhile_cons_of_neg
      intro slash
      rw [beq_iff_eq.mp slash] at relative
      cases relative

theorem trimmed_eq_self {path : Path} (relative : startsWithSlash path = false)
    (same : trim path = path) : trimmed path = path := by
  rw [trimmed, same, dropWhile_slash relative]

/-- A name in a directory is what a path is normalized to that is trimmed to
it. -/
theorem normalizePath_of_trimmed_eq {path dir name : Path} (isDir : IsDir dir)
    (isName : IsName name) (kept : trimmed path = dir ++ name) :
    normalizePath path = dir ++ name := by
  have filled : trimmed path ≠ [] := by
    rw [kept]
    exact List.append_ne_nil_of_right_ne_nil _ isName.ne_nil
  have slash := endsWithSlash_append dir isName.ne_nil
  have whole := flatMap_components isDir
  rw [normalizePath_of_trimmed filled, kept, slash]
  cases isName with
  | file isSegment =>
      rw [components_append_name isDir isSegment, intercalate_concat, whole,
        endsWithSlash_segment isSegment]
      simp
  | @dir segment isSegment =>
      have ends : endsWithSlash (segment ++ ['/']) = true :=
        endsWithSlash_iff.mpr ⟨segment, rfl⟩
      rw [components_child isDir isSegment, intercalate_concat, whole, ends,
        if_pos rfl, List.append_assoc]

/-- A name in a directory stays as it is, unless there is whitespace around
it. -/
theorem normalizePath_append_name {dir name : Path} (isDir : IsDir dir)
    (isName : IsName name) (bare : trim (dir ++ name) = dir ++ name) :
    normalizePath (dir ++ name) = dir ++ name := by
  apply normalizePath_of_trimmed_eq isDir isName
  exact trimmed_eq_self (startsWithSlash_append_name isDir isName) bare

theorem normalizePath_intercalate {segments : List Path}
    (filled : segments ≠ [])
    (clean : ∀ segment ∈ segments, IsSegment segment)
    (trimmed : trim (['/'].intercalate segments) =
      ['/'].intercalate segments) :
    normalizePath (['/'].intercalate segments) =
      ['/'].intercalate segments := by
  rcases List.eq_nil_or_concat segments with none | ⟨front, last, split⟩
  · exact absurd none filled
  · rw [List.concat_eq_append] at split
    rw [split] at clean trimmed ⊢
    have inFront : ∀ segment ∈ front, IsSegment segment :=
      fun segment member => clean segment (List.mem_append_left _ member)
    rw [intercalate_concat] at trimmed ⊢
    exact normalizePath_append_name (isDir_flatMap .root inFront)
      (.file (clean last (by simp))) trimmed

theorem trim_append_slash {path : Path} (filled : path ≠ [])
    (trimmed : trim path = path) :
    trim (path ++ ['/']) = path ++ ['/'] := by
  obtain ⟨c, rest, rfl⟩ := List.exists_cons_of_ne_nil filled
  have kept : ¬isWhitespace c = true := by
    intro dropped
    have shorter := congrArg List.length trimmed
    have back : (trim (c :: rest)).Sublist rest := by
      rw [trim, List.dropWhile_cons_of_pos dropped]
      exact (List.rdropWhile_prefix _ _).sublist.trans
        (List.dropWhile_suffix _).sublist
    have bound := back.length_le
    simp only [List.length_cons] at shorter
    omega
  rw [trim, List.cons_append, List.dropWhile_cons_of_neg kept,
    ← List.cons_append, List.rdropWhile_concat_neg _ _ _ (by decide)]

/-! ## Sizes -/

/-- The characters of a path apart from its `/`. -/
def weight (path : Path) : Nat :=
  path.countP (· != '/')

def size (position : List Path) : Nat :=
  position.flatten.length

theorem weight_append (front back : Path) :
    weight (front ++ back) = weight front + weight back :=
  List.countP_append

@[simp] theorem weight_slash (path : Path) :
    weight ('/' :: path) = weight path := by
  simp [weight]

theorem weight_segment {segment : Path} (clean : '/' ∉ segment) :
    weight segment = segment.length := by
  apply List.countP_eq_length.mpr
  intro c member
  have other : c ≠ '/' := by
    intro same
    exact clean (same ▸ member)
  simpa using other

theorem weight_le_of_sublist {front path : Path}
    (sublist : front.Sublist path) : weight front ≤ weight path :=
  sublist.countP_le

theorem size_append (front back : List Path) :
    size (front ++ back) = size front + size back := by
  simp [size]

theorem size_components (path : Path) :
    size (components path) = weight path := by
  induction length : path.length using Nat.strong_induction_on
    generalizing path with
  | _ n induction =>
      rcases exists_last_slash path with clean | ⟨front, back, rfl, clean⟩
      · by_cases empty : path = []
        · subst empty
          rfl
        · rw [components_segment ⟨empty, clean⟩, weight_segment clean]
          simp [size]
      · have shorter : front.length < n := by
          simp only [List.length_append, List.length_cons] at length
          omega
        have last : size (components back) = weight back := by
          have short : back.length < n := by
            simp only [List.length_append, List.length_cons] at length
            omega
          exact induction back.length short back rfl
        rw [components_append_cons, size_append, weight_append, weight_slash,
          induction front.length shorter front rfl, last]

theorem weight_normalizePath (path : Path) :
    weight (normalizePath path) = weight (trim path) := by
  rw [← size_components, components_normalizePath, size_components]

theorem weight_trim_le (path : Path) : weight (trim path) ≤ weight path := by
  have front : (path.dropWhile isWhitespace).Sublist path :=
    (List.dropWhile_suffix _).sublist
  have back : (trim path).Sublist (path.dropWhile isWhitespace) :=
    (List.rdropWhile_prefix _ _).sublist
  exact weight_le_of_sublist (back.trans front)

theorem dropWhile_eq_of_weight {p : Char → Bool} (other : p '/' = false)
    {path : Path} (kept : weight path ≤ weight (path.dropWhile p)) :
    path.dropWhile p = path := by
  cases path with
  | nil => rfl
  | cons c rest =>
      by_cases dropped : p c = true
      · have different : c ≠ '/' := by
          intro same
          rw [same, other] at dropped
          exact Bool.noConfusion dropped
        have shorter : weight (rest.dropWhile p) ≤ weight rest :=
          weight_le_of_sublist (List.dropWhile_suffix _).sublist
        have longer : weight (c :: rest) = weight rest + 1 := by
          simp [weight, different]
        rw [List.dropWhile_cons_of_pos dropped] at kept
        omega
      · exact List.dropWhile_cons_of_neg dropped

/-- Trimming that keeps the weight keeps the path: no `/` is whitespace. -/
theorem trim_eq_of_weight {path : Path}
    (kept : weight path ≤ weight (trim path)) : trim path = path := by
  have other : isWhitespace '/' = false := by decide
  have back : (trim path).Sublist (path.dropWhile isWhitespace) :=
    (List.rdropWhile_prefix _ _).sublist
  have front : path.dropWhile isWhitespace = path :=
    dropWhile_eq_of_weight other (kept.trans (weight_le_of_sublist back))
  have reversed : path.reverse.dropWhile isWhitespace = path.reverse := by
    apply dropWhile_eq_of_weight other
    simp only [trim, front, List.rdropWhile, weight, List.countP_reverse]
      at kept ⊢
    exact kept
  simp only [trim, front, List.rdropWhile, reversed, List.reverse_reverse]

/-! ## Walks -/

theorem size_dropLast_le (position : List Path) :
    size position.dropLast ≤ size position := by
  rcases List.eq_nil_or_concat position with rfl | ⟨front, last, rfl⟩
  · rfl
  · rw [List.concat_eq_append, List.dropLast_concat, size_append]
    exact Nat.le_add_right _ _

theorem size_enter_le (position : List Path) (component : Path) :
    size (enter position component) ≤ size position + component.length := by
  unfold enter
  split
  · omega
  · split
    · have shorter := size_dropLast_le position
      omega
    · rw [size_append]
      simp [size]

theorem size_walk_le (position : List Path) (path : Path) :
    size (walk position path) ≤ size position + weight path := by
  rw [← size_components]
  unfold walk
  induction components path generalizing position with
  | nil => exact Nat.le_add_right _ _
  | cons component rest induction =>
      have first := size_enter_le position component
      have later := induction (enter position component)
      have whole : size (component :: rest) = component.length + size rest := by
        rw [size, List.flatten_cons, List.length_append]
        rfl
      rw [List.foldl_cons]
      omega

theorem foldl_enter {names : List Path}
    (real : ∀ name ∈ names, name ≠ ['.'] ∧ name ≠ ['.', '.'])
    (position : List Path) :
    names.foldl enter position = position ++ names := by
  induction names generalizing position with
  | nil => simp
  | cons name names induction =>
      obtain ⟨notSelf, notParent⟩ := real name List.mem_cons_self
      have entered : enter position name = position ++ [name] := by
        rw [enter, if_neg notSelf, if_neg notParent]
      rw [List.foldl_cons, entered, induction fun other member =>
        real other (List.mem_cons_of_mem name member)]
      simp

end Path

end OpenDal
