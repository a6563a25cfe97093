import OpenDal.Forest
import OpenDal.Raw.Path

/-!
# The immutable index

A layer that lists the keys it was given, for services that cannot list.  A
recursive listing filters the keys; a listing of one level cuts every key after
the first `/` behind the path, so a directory is listed whether or not it is a
key itself.

The results of one level are collected in a `HashSet`, which is a list without
duplicates here; in which order it is iterated is a parameter.

Walking down level by level visits the nodes of a forest.  Each path has one
parent there: what is left of it when its last name is taken off.
-/

namespace OpenDal

structure ImmutableIndexAccessor where
  vec : List Path

/-- The orders in which the hash sets of the listings are iterated. -/
structure IterationOrder where
  iterate : Path → List Path → List Path
  perm : ∀ path entries, (iterate path entries).Perm entries

namespace ImmutableIndexAccessor

def childrenFlat (self : ImmutableIndexAccessor) (path : Path) : List Path :=
  self.vec.filter fun v => path.isPrefixOf v && v != path

/-- The body of the loop over the keys in `children_hierarchy`. -/
def collect (path : Path) (res : List Path) (i : Path) : List Path :=
  if !path.isPrefixOf i then
    res
  else if i = path then
    res
  else
    match (i.drop path.length).findIdx? (· == '/') with
    | none => res.insert i
    | some idx =>
        let dirIdx := idx + 1 + path.length
        if dirIdx = i.length then
          res.insert i
        else
          res.insert (i.take dirIdx)

def childrenHierarchy (self : ImmutableIndexAccessor) (order : IterationOrder)
    (path : Path) : List Path :=
  order.iterate path (self.vec.foldl (collect path) [])

/-- `list` and `blocking_list`. -/
def list (self : ImmutableIndexAccessor) (order : IterationOrder)
    (path : Path) (recursive : Bool) : List Path :=
  let path := if path = ['/'] then [] else path
  if recursive then
    self.childrenFlat path
  else
    self.childrenHierarchy order path

/-- List a path and then walk down into every returned path that ends with
`/`; `none` when `fuel` levels are not enough. -/
def walkDown (listing : Path → List Path) : Nat → Path → Option (List Path)
  | 0, _ => none
  | fuel + 1, path => do
      let below ← (listing path).mapM fun child =>
        if Path.endsWithSlash child then do
          let deeper ← walkDown listing fuel child
          some (child :: deeper)
        else
          some [child]
      some below.flatten

/-! ## The first name behind a path -/

/-- A text up to and with its first `/`. -/
def firstName : Path → Path
  | [] => []
  | c :: rest => if c = '/' then ['/'] else c :: firstName rest

theorem firstName_isPrefix (text : Path) : firstName text <+: text := by
  induction text with
  | nil => exact List.prefix_refl []
  | cons c rest induction =>
      unfold firstName
      split
      · rename_i slash
        subst slash
        exact ⟨rest, rfl⟩
      · exact List.cons_prefix_cons.mpr ⟨rfl, induction⟩

theorem firstName_ne_nil {text : Path} (filled : text ≠ []) :
    firstName text ≠ [] := by
  cases text with
  | nil => exact absurd rfl filled
  | cons c rest =>
      unfold firstName
      split
      · exact List.cons_ne_nil _ _
      · exact List.cons_ne_nil _ _

theorem firstName_eq_or_endsWithSlash (text : Path) :
    firstName text = text ∨ Path.endsWithSlash (firstName text) = true := by
  induction text with
  | nil => exact Or.inl rfl
  | cons c rest induction =>
      unfold firstName
      split
      · exact Or.inr rfl
      · rcases induction with whole | slash
        · exact Or.inl (by rw [whole])
        · obtain ⟨stem, ends⟩ := Path.endsWithSlash_iff.mp slash
          apply Or.inr
          apply Path.endsWithSlash_iff.mpr
          exact ⟨c :: stem, by rw [ends]; rfl⟩

theorem endsWithSlash_of_prefix_firstName {text front : Path}
    (inside : front <+: firstName text)
    (slash : Path.endsWithSlash front = true) : front = firstName text := by
  induction text generalizing front with
  | nil => exact List.prefix_nil.mp inside
  | cons c rest induction =>
      unfold firstName at inside ⊢
      cases front with
      | nil => cases slash
      | cons d front =>
          split
          · rename_i isSlash
            rw [if_pos isSlash] at inside
            obtain ⟨rfl, shorter⟩ := List.cons_prefix_cons.mp inside
            rw [List.prefix_nil.mp shorter]
          · rename_i other
            rw [if_neg other] at inside
            obtain ⟨rfl, shorter⟩ := List.cons_prefix_cons.mp inside
            have ends : Path.endsWithSlash front = true := by
              obtain ⟨stem, whole⟩ := Path.endsWithSlash_iff.mp slash
              cases stem with
              | nil =>
                  rw [List.nil_append, List.cons.injEq] at whole
                  exact absurd whole.1 other
              | cons e stem =>
                  rw [List.cons_append, List.cons.injEq] at whole
                  exact Path.endsWithSlash_iff.mpr ⟨stem, whole.2⟩
            rw [induction shorter ends]

theorem firstName_of_findIdx (text : Path) :
    firstName text =
      match text.findIdx? (· == '/') with
      | none => text
      | some idx => text.take (idx + 1) := by
  induction text with
  | nil => rfl
  | cons c rest induction =>
      unfold firstName
      rw [List.findIdx?_cons]
      by_cases slash : c = '/'
      · subst slash
        rfl
      · have other : (c == '/') = false := by simp [slash]
        rw [if_neg slash, other, induction]
        cases rest.findIdx? (· == '/') with
        | none => rfl
        | some idx => rfl

/-- The entry under which `children_hierarchy` lists a key below the path. -/
def entryBelow (path key : Path) : Path :=
  path ++ firstName (key.drop path.length)

theorem collect_eq {path key : Path} (res : List Path) (below : path <+: key)
    (other : key ≠ path) :
    collect path res key = res.insert (entryBelow path key) := by
  obtain ⟨rest, rfl⟩ := below
  unfold collect entryBelow
  rw [if_neg (by simp), if_neg other, List.drop_left, firstName_of_findIdx]
  cases found : rest.findIdx? (· == '/') with
  | none => rfl
  | some idx =>
      by_cases whole : idx + 1 + path.length = (path ++ rest).length
      · have all : rest.take (idx + 1) = rest := by
          apply List.take_of_length_le
          rw [List.length_append] at whole
          omega
        simp only [if_pos whole, all]
      · have cut : (path ++ rest).take (idx + 1 + path.length) =
            path ++ rest.take (idx + 1) := by
          rw [Nat.add_comm (idx + 1), List.take_length_add_append]
        simp only [if_neg whole, cut]

theorem collect_of_not_below {path key : Path} (res : List Path)
    (outside : ¬ (path <+: key ∧ key ≠ path)) :
    collect path res key = res := by
  unfold collect
  by_cases below : path <+: key
  · have same : key = path := by
      by_contra other
      exact outside ⟨below, other⟩
    rw [if_neg (by simpa using below), if_pos same]
  · have no : path.isPrefixOf key = false := by
      rw [← Bool.not_eq_true, List.isPrefixOf_iff_prefix]
      exact below
    rw [no]
    rfl

/-! ## One level -/

theorem mem_foldl_collect {path entry : Path} {keys : List Path}
    {res : List Path} :
    entry ∈ keys.foldl (collect path) res ↔
      entry ∈ res ∨ ∃ key ∈ keys, path <+: key ∧ key ≠ path ∧
        entry = entryBelow path key := by
  induction keys generalizing res with
  | nil => simp
  | cons key keys induction =>
      rw [List.foldl_cons, induction]
      by_cases inside : path <+: key ∧ key ≠ path
      · rw [collect_eq res inside.1 inside.2, List.mem_insert_iff]
        constructor
        · intro given
          rcases given with (rfl | before) | ⟨other, member, rest⟩
          · exact Or.inr ⟨key, List.mem_cons_self, inside.1, inside.2, rfl⟩
          · exact Or.inl before
          · exact Or.inr ⟨other, List.mem_cons_of_mem _ member, rest⟩
        · intro given
          rcases given with before | ⟨other, member, below, ne, same⟩
          · exact Or.inl (Or.inr before)
          · rcases List.mem_cons.mp member with rfl | later
            · exact Or.inl (Or.inl same)
            · exact Or.inr ⟨other, later, below, ne, same⟩
      · rw [collect_of_not_below res inside]
        constructor
        · intro given
          rcases given with before | ⟨other, member, rest⟩
          · exact Or.inl before
          · exact Or.inr ⟨other, List.mem_cons_of_mem _ member, rest⟩
        · intro given
          rcases given with before | ⟨other, member, below, ne, same⟩
          · exact Or.inl before
          · rcases List.mem_cons.mp member with rfl | later
            · exact absurd ⟨below, ne⟩ inside
            · exact Or.inr ⟨other, later, below, ne, same⟩

theorem nodup_foldl_collect {path : Path} {keys res : List Path}
    (distinct : res.Nodup) : (keys.foldl (collect path) res).Nodup := by
  induction keys generalizing res with
  | nil => exact distinct
  | cons key keys induction =>
      rw [List.foldl_cons]
      apply induction
      by_cases inside : path <+: key ∧ key ≠ path
      · rw [collect_eq res inside.1 inside.2]
        exact distinct.insert
      · rw [collect_of_not_below res inside]
        exact distinct

variable {self : ImmutableIndexAccessor} {order : IterationOrder}
  {path entry key : Path}

theorem mem_childrenHierarchy :
    entry ∈ self.childrenHierarchy order path ↔
      ∃ key ∈ self.vec, path <+: key ∧ key ≠ path ∧
        entry = entryBelow path key := by
  unfold childrenHierarchy
  rw [(order.perm path _).mem_iff, mem_foldl_collect]
  simp

theorem nodup_childrenHierarchy :
    (self.childrenHierarchy order path).Nodup := by
  unfold childrenHierarchy
  rw [(order.perm path _).nodup_iff]
  exact nodup_foldl_collect List.nodup_nil

theorem mem_childrenFlat :
    key ∈ self.childrenFlat path ↔
      key ∈ self.vec ∧ path <+: key ∧ key ≠ path := by
  simp [childrenFlat]

theorem entryBelow_spec (below : path <+: key) (other : key ≠ path) :
    path <+: entryBelow path key ∧ path.length < (entryBelow path key).length ∧
      entryBelow path key <+: key ∧
      (entryBelow path key = key ∨
        Path.endsWithSlash (entryBelow path key) = true) := by
  obtain ⟨rest, rfl⟩ := below
  have filled : rest ≠ [] := by
    intro empty
    exact other (by rw [empty, List.append_nil])
  unfold entryBelow
  rw [List.drop_left]
  have positive := List.length_pos_of_ne_nil (firstName_ne_nil filled)
  refine ⟨List.prefix_append _ _, ?_, ?_, ?_⟩
  · rw [List.length_append]
    omega
  · exact (List.prefix_append_right_inj path).mpr (firstName_isPrefix rest)
  · rcases firstName_eq_or_endsWithSlash rest with whole | slash
    · exact Or.inl (by rw [whole])
    · obtain ⟨stem, ends⟩ := Path.endsWithSlash_iff.mp slash
      apply Or.inr
      apply Path.endsWithSlash_iff.mpr
      exact ⟨path ++ stem, by rw [ends, List.append_assoc]⟩

/-- Between a path and its entries there is no other directory. -/
theorem eq_of_between {middle : Path} (below : path <+: key)
    (front : path <+: middle) (inside : middle <+: entryBelow path key)
    (longer : path ≠ middle) (slash : Path.endsWithSlash middle = true) :
    middle = entryBelow path key := by
  obtain ⟨rest, rfl⟩ := below
  obtain ⟨more, rfl⟩ := front
  unfold entryBelow at inside ⊢
  rw [List.drop_left] at inside ⊢
  have filled : more ≠ [] := by
    intro empty
    exact longer (by rw [empty, List.append_nil])
  have ends : Path.endsWithSlash more = true := by
    rw [Path.endsWithSlash, List.getLast?_append_of_ne_nil _ filled] at slash
    exact slash
  rw [endsWithSlash_of_prefix_firstName
    ((List.prefix_append_right_inj path).mp inside) ends]

/-! ## The walk -/

/-- The entries that a walk from `root` visits. -/
def forest (self : ImmutableIndexAccessor) (order : IterationOrder)
    (root : Path) : Forest Path where
  children := fun path =>
    if path = root ∨ Path.endsWithSlash path = true then
      self.childrenHierarchy order path
    else
      []
  rank := fun path => self.vec.flatten.length - path.length
  rank_lt := by
    intro path child member
    split at member
    · obtain ⟨key, held, below, other, rfl⟩ :=
        mem_childrenHierarchy.mp member
      obtain ⟨_, longer, inside, _⟩ := entryBelow_spec below other
      have bound := (List.sublist_flatten_of_mem held).length_le
      have shorter := inside.length_le
      omega
    · cases member

variable {root : Path}

theorem children_forest
    (listed : path = root ∨ Path.endsWithSlash path = true) :
    (self.forest order root).children path =
      self.childrenHierarchy order path :=
  if_pos listed

theorem child_cases {child : Path}
    (member : (self.forest order root).Child path child) :
    (path = root ∨ Path.endsWithSlash path = true) ∧
      ∃ key ∈ self.vec, path <+: key ∧ key ≠ path ∧
        child = entryBelow path key := by
  unfold Forest.Child forest at member
  simp only at member
  split at member
  · rename_i listed
    exact ⟨listed, mem_childrenHierarchy.mp member⟩
  · cases member

theorem prefix_of_reaches {node : Path}
    (reaches : (self.forest order root).Reaches path node) :
    path <+: node := by
  induction reaches with
  | refl => exact List.prefix_refl path
  | tail _ child induction =>
      obtain ⟨_, key, _, below, other, rfl⟩ := child_cases child
      exact induction.trans (entryBelow_spec below other).1

/-- A shorter parent leaves no room for a longer one. -/
theorem not_both_parents {left right : Path}
    (fromRoot : (self.forest order root).Reaches root left)
    (leftKey : left <+: key) (leftOther : key ≠ left)
    (rightDir : right = root ∨ Path.endsWithSlash right = true)
    (rightFront : right <+: entryBelow left key)
    (rightShorter : right.length < (entryBelow left key).length)
    (longer : left.length < right.length) : False := by
  have spec := entryBelow_spec leftKey leftOther
  have between : left <+: right :=
    List.prefix_of_prefix_length_le spec.1 rightFront (Nat.le_of_lt longer)
  have different : left ≠ right := by
    intro same
    rw [same] at longer
    exact Nat.lt_irrefl _ longer
  rcases rightDir with rfl | slash
  · have above := (prefix_of_reaches fromRoot).length_le
    omega
  · have same := eq_of_between leftKey between rightFront different slash
    rw [← same] at rightShorter
    exact Nat.lt_irrefl _ rightShorter

theorem separated_forest (self : ImmutableIndexAccessor)
    (order : IterationOrder) (root : Path) :
    (self.forest order root).Separated root where
  distinct := by
    intro node _
    unfold forest
    simp only
    split
    · exact nodup_childrenHierarchy
    · exact List.nodup_nil
  oneParent := by
    intro left right child fromLeft fromRight leftChild rightChild
    obtain ⟨leftDir, leftKey, _, leftBelow, leftOther, same⟩ :=
      child_cases leftChild
    obtain ⟨rightDir, rightKey, _, rightBelow, rightOther, rfl⟩ :=
      child_cases rightChild
    have leftSpec := entryBelow_spec leftBelow leftOther
    have rightSpec := entryBelow_spec rightBelow rightOther
    rw [← same] at leftSpec
    rcases Nat.lt_trichotomy left.length right.length with
      shorter | equal | longer
    · exact (not_both_parents fromLeft leftBelow leftOther rightDir
        (same ▸ rightSpec.1) (same ▸ rightSpec.2.1) shorter).elim
    · exact (List.prefix_of_prefix_length_le leftSpec.1 rightSpec.1
        (Nat.le_of_eq equal)).eq_of_length equal
    · exact (not_both_parents fromRight rightBelow rightOther leftDir
        leftSpec.1 leftSpec.2.1 longer).elim

/-- Every key below a directory is reached from there. -/
theorem reaches_key (held : key ∈ self.vec)
    (listed : path = root ∨ Path.endsWithSlash path = true)
    (below : path <+: key) (other : key ≠ path) :
    (self.forest order root).Reaches path key := by
  induction distance : key.length - path.length using Nat.strongRecOn
    generalizing path with
  | _ distance induction =>
      obtain ⟨_, longer, inside, whole⟩ := entryBelow_spec below other
      have child : (self.forest order root).Child path
          (entryBelow path key) := by
        unfold Forest.Child
        rw [children_forest listed]
        exact mem_childrenHierarchy.mpr ⟨key, held, below, other, rfl⟩
      by_cases same : key = entryBelow path key
      · rw [← same] at child
        exact .single child
      · have slash := whole.resolve_left (Ne.symm same)
        have shorter := inside.length_le
        have later := induction _ (by omega) (Or.inr slash) inside same rfl
        exact Relation.ReflTransGen.head child later

theorem key_of_reaches {node : Path}
    (reaches : (self.forest order root).Reaches root node)
    (below : node ≠ root) (file : Path.endsWithSlash node = false) :
    node ∈ self.childrenFlat root := by
  rw [mem_childrenFlat]
  rcases Relation.ReflTransGen.cases_tail reaches with
    same | ⟨parent, _, child⟩
  · exact absurd same below
  · refine ⟨?_, prefix_of_reaches reaches, below⟩
    obtain ⟨_, key, held, inside, other, rfl⟩ := child_cases child
    rcases (entryBelow_spec inside other).2.2.2 with whole | slash
    · rw [whole]
      exact held
    · rw [slash] at file
      cases file

theorem exists_mapM {f : Path → Option (List Path)}
    {nodes : Path → List Path} {children : List Path}
    (each : ∀ child ∈ children, ∃ result, f child = some result ∧
      result.Perm (nodes child)) :
    ∃ results, children.mapM f = some results ∧
      results.flatten.Perm (children.flatMap nodes) := by
  induction children with
  | nil => exact ⟨[], by simp, List.Perm.nil⟩
  | cons child children induction =>
      obtain ⟨first, found, firstPerm⟩ := each child List.mem_cons_self
      obtain ⟨others, rest, restPerm⟩ := induction fun other member =>
        each other (List.mem_cons_of_mem child member)
      refine ⟨first :: others, by simp [found, rest], ?_⟩
      rw [List.flatten_cons, List.flatMap_cons]
      exact firstPerm.append restPerm

/-- With enough fuel the walk ends, and meets the nodes of the forest. -/
theorem walkDown_spec {fuel : Nat} (fromRoot : root <+: path)
    (listed : path = root ∨ Path.endsWithSlash path = true)
    (enough : (self.forest order root).rank path < fuel) :
    ∃ result, walkDown (self.childrenHierarchy order) fuel path =
        some result ∧
      result.Perm (((self.forest order root).children path).flatMap
        (self.forest order root).postOrder) := by
  induction fuel generalizing path with
  | zero => omega
  | succ fuel induction =>
      rw [children_forest listed]
      have each : ∀ child ∈ self.childrenHierarchy order path, ∃ result,
          (if Path.endsWithSlash child then do
            let deeper ← walkDown (self.childrenHierarchy order) fuel child
            some (child :: deeper)
          else
            some [child]) = some result ∧
          result.Perm ((self.forest order root).postOrder child) := by
        intro child member
        have isChild : (self.forest order root).Child path child := by
          unfold Forest.Child
          rw [children_forest listed]
          exact member
        have smaller := (self.forest order root).rank_lt isChild
        obtain ⟨_, key, _, below, other, same⟩ := child_cases isChild
        have spec := entryBelow_spec below other
        rw [← same] at spec
        by_cases slash : Path.endsWithSlash child = true
        · obtain ⟨deeper, walked, perm⟩ := induction
            (fromRoot.trans spec.1) (Or.inr slash) (by omega)
          refine ⟨child :: deeper, by simp [slash, walked], ?_⟩
          rw [Forest.postOrder_eq]
          exact (perm.cons child).trans
            (List.perm_append_singleton child _).symm
        · refine ⟨[child], by simp [slash], ?_⟩
          have leaf : (self.forest order root).children child = [] := by
            apply if_neg
            rintro (atRoot | isDir)
            · have short := fromRoot.length_le
              rw [← atRoot] at short
              omega
            · exact slash isDir
          rw [Forest.postOrder_eq, leaf]
          exact List.Perm.refl [child]
      obtain ⟨results, mapped, perm⟩ := exists_mapM each
      refine ⟨results.flatten, ?_, perm⟩
      rw [walkDown, mapped]
      rfl

/-- Walking down level by level ends, returns no path twice, and finds the
files of the recursive listing and all of its keys. -/
theorem walkDown_childrenHierarchy (order : IterationOrder)
    (distinct : self.vec.Nodup) (d : Path) :
    ∃ levels, ∀ fuel, levels ≤ fuel → ∃ result,
      walkDown (self.childrenHierarchy order) fuel d = some result ∧
      result.Nodup ∧
      (result.filter fun path => !Path.endsWithSlash path).Perm
        ((self.childrenFlat d).filter fun path => !Path.endsWithSlash path) ∧
      ∀ key ∈ self.childrenFlat d, key ∈ result := by
  refine ⟨(self.forest order d).rank d + 1, ?_⟩
  intro fuel enough
  obtain ⟨result, walked, perm⟩ :=
    walkDown_spec (List.prefix_refl d) (Or.inl rfl) enough
  have separated := separated_forest self order d
  have whole : (result ++ [d]).Perm ((self.forest order d).postOrder d) := by
    rw [Forest.postOrder_eq]
    exact perm.append_right [d]
  have all : (result ++ [d]).Nodup :=
    whole.nodup_iff.mpr separated.nodup_postOrder
  have unique : result.Nodup := (List.nodup_append.mp all).1
  have visited : ∀ path, path ∈ result ↔
      (self.forest order d).Reaches d path ∧ path ≠ d := by
    intro path
    rw [← Forest.mem_postOrder_iff, ← whole.mem_iff, List.mem_append,
      List.mem_singleton]
    constructor
    · intro member
      refine ⟨Or.inl member, ?_⟩
      intro same
      exact (List.nodup_append.mp all).2.2 path member d
        (List.mem_singleton_self d) same
    · rintro ⟨member | same, other⟩
      · exact member
      · exact absurd same other
  have keys : ∀ key ∈ self.childrenFlat d, key ∈ result := by
    intro key member
    obtain ⟨held, below, other⟩ := mem_childrenFlat.mp member
    exact (visited key).mpr ⟨reaches_key held (Or.inl rfl) below other, other⟩
  refine ⟨result, walked, unique, ?_, keys⟩
  apply (List.perm_ext_iff_of_nodup (unique.filter _)
    ((distinct.filter _).filter _)).mpr
  intro path
  rw [List.mem_filter, List.mem_filter]
  constructor
  · rintro ⟨member, file⟩
    obtain ⟨reaches, other⟩ := (visited path).mp member
    refine ⟨key_of_reaches reaches other ?_, file⟩
    simpa using file
  · rintro ⟨member, file⟩
    exact ⟨keys path member, file⟩

/-- Keys that are fronts of one another, with a directory that is no key. -/
theorem walkDown_childrenHierarchy_fronts :
    ∃ levels, ∀ fuel, levels ≤ fuel → ∃ result,
      walkDown ((⟨["a".toList, "a/".toList, "a/b/c".toList, "ab".toList]⟩ :
        ImmutableIndexAccessor).childrenHierarchy
          ⟨fun _ entries => entries, fun _ _ => .refl _⟩) fuel [] =
            some result ∧
      result.Nodup := by
  have distinct : (["a".toList, "a/".toList, "a/b/c".toList,
      "ab".toList] : List Path).Nodup := by
    decide
  obtain ⟨levels, walks⟩ := @walkDown_childrenHierarchy ⟨_⟩
    ⟨fun _ entries => entries, fun _ _ => .refl _⟩ distinct []
  refine ⟨levels, ?_⟩
  intro fuel enough
  obtain ⟨result, walked, unique, _⟩ := walks fuel enough
  exact ⟨result, walked, unique⟩

/-! ## Walking with `list` -/

end ImmutableIndexAccessor

end OpenDal
