import OpenDal.Forest
import OpenDal.Types.Entry

/-!
# Directory trees

A tree is the finite list of what exists: files and directories with their
paths, each inside an existing directory.  A service that cannot list
recursively answers with the direct children of a directory, in an order of
its own, and possibly with the directory itself among them.
-/

namespace OpenDal

structure DirTree where
  entries : List Entry
  distinct : (entries.map Entry.path).Nodup
  modes : ∀ entry ∈ entries,
    entry.metadata.mode = .dir ↔ entry.path.endsWithSlash = true
  root : ['/'] ∈ entries.map Entry.path
  parents : ∀ entry ∈ entries, entry.path ≠ ['/'] →
    entry.path.getParent ∈ entries.map Entry.path

namespace DirTree

variable (tree : DirTree)

def HasDir (dir : Path) : Prop :=
  dir ∈ tree.entries.map Entry.path ∧ dir.endsWithSlash = true

instance (dir : Path) : Decidable (tree.HasDir dir) :=
  inferInstanceAs (Decidable (_ ∧ _))

/-- The direct children of a directory. -/
def children (dir : Path) : List Entry :=
  tree.entries.filter fun entry =>
    entry.path != ['/'] && entry.path.getParent == dir

inductive Descendant (dir : Path) : Entry → Prop where
  | child {entry : Entry} (member : entry ∈ tree.children dir) :
      Descendant dir entry
  | deeper {sub entry : Entry} (above : Descendant dir sub)
      (member : entry ∈ tree.children sub.path) : Descendant dir entry

variable {tree} {dir : Path} {entry other : Entry}

theorem mem_children :
    entry ∈ tree.children dir ↔ entry ∈ tree.entries ∧
      entry.path ≠ ['/'] ∧ entry.path.getParent = dir := by
  simp [children]

theorem hasDir_root : tree.HasDir ['/'] :=
  ⟨tree.root, rfl⟩

theorem hasDir_of_mem (member : entry ∈ tree.entries)
    (isDir : entry.metadata.mode = .dir) : tree.HasDir entry.path :=
  ⟨List.mem_map_of_mem member, (tree.modes entry member).mp isDir⟩

theorem hasDir_of_child (member : entry ∈ tree.children dir) :
    tree.HasDir dir := by
  obtain ⟨exists', inner, parent⟩ := mem_children.mp member
  rw [← parent]
  exact ⟨tree.parents entry exists' inner,
    Path.endsWithSlash_getParent entry.path⟩

theorem eq_of_path_eq (member : entry ∈ tree.entries)
    (otherMember : other ∈ tree.entries) (same : entry.path = other.path) :
    entry = other :=
  List.inj_on_of_nodup_map tree.distinct member otherMember same

theorem length_lt_of_child (member : entry ∈ tree.children dir)
    (slash : entry.path.endsWithSlash = true) :
    dir.length < entry.path.length := by
  obtain ⟨_, inner, rfl⟩ := mem_children.mp member
  exact Path.length_getParent_lt inner slash

theorem path_ne_of_child (member : entry ∈ tree.children dir) :
    entry.path ≠ dir := by
  intro equal
  subst equal
  have longer := length_lt_of_child member (hasDir_of_child member).2
  omega

theorem Descendant.mem (descendant : tree.Descendant dir entry) :
    entry ∈ tree.entries := by
  cases descendant with
  | child member => exact (mem_children.mp member).1
  | deeper _ member => exact (mem_children.mp member).1

theorem Descendant.hasDir (descendant : tree.Descendant dir entry) :
    tree.HasDir dir := by
  induction descendant with
  | child member => exact hasDir_of_child member
  | deeper _ _ induction => exact induction

theorem Descendant.dirPrefix (descendant : tree.Descendant dir entry) :
    Path.dirPrefix dir <+: entry.path ∧ entry.path ≠ dir ∧
      (entry.path.endsWithSlash = true → dir.length < entry.path.length) := by
  induction descendant with
  | child member =>
      obtain ⟨_, inner, parent⟩ := mem_children.mp member
      refine ⟨?_, path_ne_of_child member, length_lt_of_child member⟩
      rw [← parent]
      exact Path.dirPrefix_getParent inner
  | @deeper sub entry _ member induction =>
      obtain ⟨_, inner, parent⟩ := mem_children.mp member
      have isDir := (hasDir_of_child member).2
      obtain ⟨reached, _, longer⟩ := induction
      have longerSub := longer isDir
      have subPrefix : Path.dirPrefix sub.path = sub.path := by
        rw [Path.dirPrefix, if_neg]
        intro root
        rw [root, List.length_singleton] at longerSub
        have dirSlash := ‹tree.Descendant dir sub›.hasDir.2
        obtain ⟨stem, rfl⟩ := Path.endsWithSlash_iff.mp dirSlash
        simp at longerSub
      have subReached : sub.path <+: entry.path := by
        rw [← subPrefix, ← parent]
        exact Path.dirPrefix_getParent inner
      have ordered := subReached.length_le
      refine ⟨reached.trans subReached, ?_, fun _ => by omega⟩
      intro same
      rw [same] at ordered
      omega

private theorem path_ne_root (slash : dir.endsWithSlash = true)
    (below : Path.dirPrefix dir <+: entry.path)
    (different : entry.path ≠ dir) : entry.path ≠ ['/'] := by
  intro root
  rw [root] at below different
  rw [Path.dirPrefix, if_neg (Ne.symm different)] at below
  obtain ⟨stem, rfl⟩ := Path.endsWithSlash_iff.mp slash
  have short := below.length_le
  simp only [List.length_append, List.length_singleton] at short
  have nothing : stem = [] := List.length_eq_zero_iff.mp (by omega)
  exact different (by simp [nothing])

/-- One step towards the directory: an entry that starts with its path is a
child, or is in another directory that does. -/
private theorem child_or_deeper (slash : dir.endsWithSlash = true)
    (member : entry ∈ tree.entries)
    (below : Path.dirPrefix dir <+: entry.path)
    (different : entry.path ≠ dir) :
    entry ∈ tree.children dir ∨ ∃ sub ∈ tree.entries,
      entry ∈ tree.children sub.path ∧ sub.path.endsWithSlash = true ∧
      Path.dirPrefix dir <+: sub.path ∧ sub.path ≠ dir := by
  have inner := path_ne_root slash below different
  by_cases parent : entry.path.getParent = dir
  · exact .inl (mem_children.mpr ⟨member, inner, parent⟩)
  · obtain ⟨sub, subMember, same⟩ :=
      List.mem_map.mp (tree.parents entry member inner)
    refine .inr ⟨sub, subMember, ?_, ?_, ?_, same ▸ parent⟩
    · exact mem_children.mpr ⟨member, inner, same.symm⟩
    · exact same ▸ Path.endsWithSlash_getParent entry.path
    · exact same ▸ Path.dirPrefix_prefix_getParent slash inner below different

private theorem descendant_of_dir_startsWith (slash : dir.endsWithSlash = true)
    (member : entry ∈ tree.entries)
    (isDir : entry.path.endsWithSlash = true)
    (below : Path.dirPrefix dir <+: entry.path)
    (different : entry.path ≠ dir) : tree.Descendant dir entry := by
  induction size : entry.path.length using Nat.strongRecOn
    generalizing entry with
  | _ size induction =>
      rcases child_or_deeper slash member below different with
        child | ⟨sub, subMember, child, subDir, subBelow, subDifferent⟩
      · exact .child child
      · have shorter := length_lt_of_child child isDir
        exact .deeper (induction _ (size ▸ shorter) subMember subDir subBelow
          subDifferent rfl) child

/-- In a tree everything that starts with the path of a directory is below
it. -/
theorem descendant_of_startsWith (slash : dir.endsWithSlash = true)
    (member : entry ∈ tree.entries)
    (below : Path.dirPrefix dir <+: entry.path)
    (different : entry.path ≠ dir) : tree.Descendant dir entry := by
  rcases child_or_deeper slash member below different with
    child | ⟨sub, subMember, child, subDir, subBelow, subDifferent⟩
  · exact .child child
  · exact .deeper (descendant_of_dir_startsWith slash subMember subDir subBelow
      subDifferent) child

end DirTree

/-! ## What a service lists -/

/-- The entry is the directory itself. -/
def Entry.isItself (entry : Entry) (dir : Path) : Bool :=
  entry.metadata.mode == .dir && entry.path == dir

/-- What the non-recursive `list` of each directory yields. -/
structure DirListing where
  tree : DirTree
  listing : Path → List Entry
  lists : ∀ {dir}, tree.HasDir dir →
    (listing dir).Perm (tree.children dir) ∨
    ∃ self : Entry, self.path = dir ∧ self.metadata.mode = .dir ∧
      (listing dir).Perm (self :: tree.children dir)

namespace DirListing

variable (listed : DirListing) {dir : Path} {entry other : Entry}

/-- Of what is listed the directory itself is not visited again. -/
def visited (dir : Path) (entries : List Entry) : List Entry :=
  entries.filter fun entry => !entry.isItself dir

variable {listed}

theorem not_isItself_of_child {tree : DirTree}
    (member : entry ∈ tree.children dir) : entry.isItself dir = false := by
  have different := DirTree.path_ne_of_child member
  simp [Entry.isItself, different]

theorem visited_listing (known : listed.tree.HasDir dir) :
    (visited dir (listed.listing dir)).Perm (listed.tree.children dir) := by
  have kept : visited dir (listed.tree.children dir) =
      listed.tree.children dir := by
    apply List.filter_eq_self.mpr
    intro entry member
    simp [not_isItself_of_child member]
  rcases listed.lists known with same | ⟨self, path, mode, same⟩
  · rw [← kept]
    exact same.filter _
  · have dropped : visited dir (self :: listed.tree.children dir) =
        listed.tree.children dir := by
      have itself : self.isItself dir = true := by
        simp [Entry.isItself, path, mode]
      rw [visited, List.filter_cons_of_neg (by simp [itself])]
      exact kept
    rw [← dropped]
    exact same.filter _

/-! ## The forest -/

/-- No path is longer than all of them together. -/
def bound (listed : DirListing) : Nat :=
  (listed.tree.entries.flatMap Entry.path).length

private theorem length_le_bound (member : entry ∈ listed.tree.entries) :
    entry.path.length ≤ listed.bound := by
  obtain ⟨front, back, split⟩ := List.append_of_mem member
  simp only [bound, split, List.flatMap_append, List.flatMap_cons,
    List.length_append]
  omega

/-- The children of an entry in the order of the listing; a directory counts
more the shorter it is. -/
def forest (listed : DirListing) : Forest Entry where
  children := fun entry =>
    if listed.tree.HasDir entry.path then
      visited entry.path (listed.listing entry.path)
    else
      []
  rank := fun entry =>
    if entry.path.endsWithSlash then
      listed.bound + 1 - entry.path.length
    else
      0
  rank_lt := by
    intro node child member
    split at member
    · rename_i known
      rw [(visited_listing known).mem_iff] at member
      obtain ⟨self, selfMember, same⟩ := List.mem_map.mp known.1
      have nodeFits := length_le_bound selfMember
      rw [same] at nodeFits
      rw [if_pos known.2]
      split
      · rename_i slash
        have longer := DirTree.length_lt_of_child member slash
        have childFits :=
          length_le_bound (DirTree.mem_children.mp member).1
        omega
      · omega
    · simp at member

theorem children_forest (known : listed.tree.HasDir entry.path) :
    listed.forest.children entry =
      visited entry.path (listed.listing entry.path) := by
  simp [forest, known]

theorem child_iff :
    listed.forest.Child entry other ↔
      other ∈ listed.tree.children entry.path := by
  by_cases known : listed.tree.HasDir entry.path
  · rw [Forest.Child, children_forest known, (visited_listing known).mem_iff]
  · constructor
    · intro child
      simp [Forest.Child, forest, known] at child
    · intro child
      exact absurd (DirTree.hasDir_of_child child) known

theorem postOrder_file (absent : ¬ listed.tree.HasDir entry.path) :
    listed.forest.postOrder entry = [entry] := by
  rw [Forest.postOrder_eq]
  simp [forest, absent]

theorem postOrder_dir (known : listed.tree.HasDir entry.path) :
    listed.forest.postOrder entry =
      (visited entry.path (listed.listing entry.path)).flatMap
        listed.forest.postOrder ++ [entry] := by
  rw [Forest.postOrder_eq, children_forest known]

/-- Below a node of the forest are the descendants of its path. -/
theorem reaches_iff :
    listed.forest.Reaches entry other ↔
      other = entry ∨ listed.tree.Descendant entry.path other := by
  constructor
  · intro reaches
    induction reaches with
    | refl => exact .inl rfl
    | tail _ child induction =>
        rw [child_iff] at child
        rcases induction with rfl | descendant
        · exact .inr (.child child)
        · exact .inr (.deeper descendant child)
  · intro given
    rcases given with rfl | descendant
    · exact .refl
    · induction descendant with
      | child member => exact .single (child_iff.mpr member)
      | deeper _ member induction => exact induction.tail (child_iff.mpr member)

/-- Below a root there is one entry for each path.  The root need not be an
entry of the tree, but nothing below it has its path. -/
private theorem eq_of_reaches {root left right : Entry}
    (fromLeft : listed.forest.Reaches root left)
    (fromRight : listed.forest.Reaches root right)
    (same : left.path = right.path) : left = right := by
  rcases reaches_iff.mp fromLeft, reaches_iff.mp fromRight with
    ⟨rfl | below, rfl | below'⟩
  · rfl
  · exact absurd same.symm below'.dirPrefix.2.1
  · exact absurd same below.dirPrefix.2.1
  · exact DirTree.eq_of_path_eq below.mem below'.mem same

theorem separated (root : Entry) : listed.forest.Separated root where
  distinct := by
    intro node reaches
    by_cases known : listed.tree.HasDir node.path
    · rw [children_forest known, (visited_listing known).nodup_iff]
      exact (List.Nodup.of_map _ listed.tree.distinct).filter _
    · simp [forest, known]
  oneParent := by
    intro left right child fromLeft fromRight leftChild rightChild
    rw [child_iff, DirTree.mem_children] at leftChild rightChild
    exact eq_of_reaches fromLeft fromRight
      (leftChild.2.2.symm.trans rightChild.2.2)

/-! ## The traversal -/

/-- Everything below a directory in post-order, and the directory itself. -/
def walk (listed : DirListing) (dir : Path) : List Entry :=
  listed.forest.postOrder ⟨dir, .new .dir⟩

theorem mem_walk :
    entry ∈ listed.walk dir ↔
      entry = ⟨dir, .new .dir⟩ ∨ listed.tree.Descendant dir entry := by
  rw [walk, Forest.mem_postOrder_iff, reaches_iff]

theorem nodup_paths_walk (dir : Path) :
    ((listed.walk dir).map Entry.path).Nodup := by
  apply List.Nodup.map_on _ (separated _).nodup_postOrder
  intro left fromLeft right fromRight same
  rw [Forest.mem_postOrder_iff] at fromLeft fromRight
  exact eq_of_reaches fromLeft fromRight same

/-- A directory comes after all of its descendants. -/
theorem pairwise_walk (dir : Path) :
    (listed.walk dir).Pairwise fun earlier later =>
      ¬ listed.tree.Descendant earlier.path later := by
  apply (separated _).pairwise_postOrder.imp
  intro earlier later apart descendant
  exact apart (reaches_iff.mpr (.inr descendant))

end DirListing

end OpenDal
