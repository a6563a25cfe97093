import Mathlib.Data.List.Nodup
import Mathlib.Logic.Relation

/-!
# Post-order of a finite forest

A forest is given by the children of its nodes, with a rank that decreases
from a node to its children.  `postOrder` is the recursive traversal that
visits a node after its children; below a node where no two nodes share a
child it meets every node once, and never a node before one that it leads to.
-/

structure Forest (α : Type) where
  children : α → List α
  rank : α → Nat
  rank_lt : ∀ {node child}, child ∈ children node → rank child < rank node

namespace Forest

variable {α : Type} (forest : Forest α)

def Child (node child : α) : Prop :=
  child ∈ forest.children node

def Reaches : α → α → Prop :=
  Relation.ReflTransGen forest.Child

def postOrder (node : α) : List α :=
  ((forest.children node).attach.flatMap fun ⟨child, member⟩ =>
    have : forest.rank child < forest.rank node := forest.rank_lt member
    postOrder child) ++ [node]
termination_by forest.rank node

variable {forest} {root node other : α}

theorem postOrder_eq (node : α) :
    forest.postOrder node =
      (forest.children node).flatMap forest.postOrder ++ [node] := by
  rw [postOrder]
  simp [List.flatMap]

theorem Reaches.rank_le (reaches : forest.Reaches node other) :
    forest.rank other ≤ forest.rank node := by
  induction reaches with
  | refl => exact Nat.le_refl _
  | tail _ child induction =>
      exact Nat.le_of_lt (Nat.lt_of_lt_of_le (forest.rank_lt child) induction)

theorem mem_postOrder_iff :
    other ∈ forest.postOrder node ↔ forest.Reaches node other := by
  induction rank : forest.rank node using Nat.strongRecOn
    generalizing node with
  | _ rank induction =>
      subst rank
      rw [postOrder_eq, List.mem_append, List.mem_flatMap,
        List.mem_singleton]
      constructor
      · intro given
        rcases given with ⟨child, member, later⟩ | rfl
        · have reaches :=
            (induction _ (forest.rank_lt member) rfl).mp later
          exact reaches.head member
        · exact .refl
      · intro reaches
        rcases Relation.ReflTransGen.cases_head reaches with
          same | ⟨child, member, later⟩
        · exact .inr same.symm
        · exact .inl ⟨child, member,
            (induction _ (forest.rank_lt member) rfl).mpr later⟩

/-! ## Nodes with one parent -/

/-- Below `root` no two nodes share a child, and no node has a child twice. -/
structure Separated (forest : Forest α) (root : α) : Prop where
  distinct : ∀ {node}, forest.Reaches root node →
    (forest.children node).Nodup
  oneParent : ∀ {left right child}, forest.Reaches root left →
    forest.Reaches root right → forest.Child left child →
    forest.Child right child → left = right

theorem Separated.of_child (separated : forest.Separated root)
    (child : forest.Child root node) : forest.Separated node where
  distinct := fun reaches => separated.distinct (reaches.head child)
  oneParent := fun left right =>
    separated.oneParent (left.head child) (right.head child)

private theorem Separated.not_child (separated : forest.Separated root)
    {first second : α} (child : forest.Child root first)
    (second' : forest.Child root second)
    (reaches : forest.Reaches first node) (again : forest.Child node second) :
    False := by
  have same : root = node :=
    separated.oneParent .refl (reaches.head child) second' again
  have smaller := forest.rank_lt child
  have bounded := Reaches.rank_le reaches
  subst same
  omega

theorem Separated.child_unique (separated : forest.Separated root)
    {left right : α} (leftChild : forest.Child root left)
    (rightChild : forest.Child root right)
    (fromLeft : forest.Reaches left node)
    (fromRight : forest.Reaches right node) : left = right := by
  -- climb from the node to the two children along the unique parents
  induction fromLeft with
  | refl =>
      rcases Relation.ReflTransGen.cases_tail fromRight with
        same | ⟨parent, reaches, child⟩
      · exact same
      · exact (separated.not_child rightChild leftChild reaches child).elim
  | @tail parent node reaches child induction =>
      rcases Relation.ReflTransGen.cases_tail fromRight with
        same | ⟨parent', reaches', child'⟩
      · subst same
        exact (separated.not_child leftChild rightChild reaches child).elim
      · have same : parent = parent' := separated.oneParent
          (reaches.head leftChild) (reaches'.head rightChild) child child'
        subst same
        exact induction reaches'

/-- No node comes before one that it leads to, and none comes twice. -/
theorem Separated.pairwise_postOrder (separated : forest.Separated root) :
    (forest.postOrder root).Pairwise fun earlier later =>
      ¬ forest.Reaches earlier later := by
  induction rank : forest.rank root using Nat.strongRecOn
    generalizing root with
  | _ rank induction =>
      subst rank
      rw [postOrder_eq, List.pairwise_append]
      refine ⟨?_, List.pairwise_singleton _ _, ?_⟩
      · rw [List.pairwise_flatMap]
        refine ⟨fun child member => induction _ (forest.rank_lt member)
          (separated.of_child member) rfl, ?_⟩
        apply List.Pairwise.imp_of_mem _ (separated.distinct .refl)
        intro left right leftChild rightChild different earlier fromLeft later
          fromRight reaches
        rw [mem_postOrder_iff] at fromLeft fromRight
        exact different (separated.child_unique leftChild rightChild
          (fromLeft.trans reaches) fromRight)
      · intro earlier member later same reaches
        rw [List.mem_singleton.mp same] at reaches
        obtain ⟨child, childMember, fromChild⟩ := List.mem_flatMap.mp member
        have smaller := forest.rank_lt childMember
        have below := Reaches.rank_le (mem_postOrder_iff.mp fromChild)
        have above := Reaches.rank_le reaches
        omega

theorem Separated.nodup_postOrder (separated : forest.Separated root) :
    (forest.postOrder root).Nodup := by
  apply separated.pairwise_postOrder.imp
  intro earlier later apart equal
  subst equal
  exact apart .refl

end Forest
