import BehaviorTree.Proofs.Execution
import Mathlib.Logic.Function.Basic

/-!
# Renamed trees

`Node.renamed f` gives every node of a tree the identity that `f` maps its own to. The renamed
tree has the nodes of the original in the same places, with the same gates and kinds.
-/

namespace BehaviorTree

variable {G : Game}

/-- The same head under another identity. -/
def Head.renamed (f : NodeId → NodeId) (head : Head G) : Head G := ⟨f head.id, head.gate⟩

namespace Node

mutual

/-- The same tree with other identities. -/
def renamed (f : NodeId → NodeId) : Node G → Node G
  | composite head kind children => composite (head.renamed f) kind (renamedAll f children)
  | decorator head kind child => decorator (head.renamed f) kind (renamedChild f child)
  | timed head duration mustComplete => timed (head.renamed f) duration mustComplete
  | action head name mustComplete leaf => action (head.renamed f) name mustComplete leaf

/-- The same trees with other identities. -/
def renamedAll (f : NodeId → NodeId) : List (Node G) → List (Node G)
  | [] => []
  | child :: rest => renamed f child :: renamedAll f rest

/-- The same tree, if there is one, with other identities. -/
def renamedChild (f : NodeId → NodeId) : Option (Node G) → Option (Node G)
  | none => none
  | some child => some (renamed f child)

end

variable {f : NodeId → NodeId}

/-- To rename several trees is to rename each. -/
theorem renamed_all_eq (children : List (Node G)) :
    renamedAll f children = children.map (renamed f) := by
  induction children with
  | nil => rfl
  | cons child rest ih => rw [renamedAll, ih, List.map_cons]

/-- To rename a tree, if there is one, is to rename what is there. -/
theorem renamed_child_eq (child : Option (Node G)) :
    renamedChild f child = child.map (renamed f) := by
  cases child <;> rfl

/-- A renamed composite has renamed children. -/
@[simp] theorem renamed_composite (head : Head G) (kind : CompositeKind)
    (children : List (Node G)) :
    (composite head kind children).renamed f =
      composite (head.renamed f) kind (children.map (renamed f)) := by
  rw [renamed, renamed_all_eq]

/-- A renamed decorator has a renamed child. -/
@[simp] theorem renamed_decorator (head : Head G) (kind : DecoratorKind)
    (child : Option (Node G)) :
    (decorator head kind child).renamed f =
      decorator (head.renamed f) kind (child.map (renamed f)) := by
  rw [renamed, renamed_child_eq]

/-- A renamed node has the new identity. -/
@[simp] theorem id_renamed (node : Node G) : (node.renamed f).id = f node.id := by
  cases node <;> rfl

/-- A renamed node has the same gate. -/
@[simp] theorem gate_renamed (node : Node G) : (node.renamed f).gate = node.gate := by
  cases node <;> rfl

/-- A renamed node is of the same family. -/
@[simp] theorem family_renamed (node : Node G) : (node.renamed f).family = node.family := by
  cases node <;> rfl

/-- A renamed node must complete if the original must. -/
@[simp] theorem must_complete_renamed (node : Node G) :
    (node.renamed f).mustComplete = node.mustComplete := by
  cases node <;> rfl

/-- The children of a renamed node are renamed. -/
theorem children_renamed (node : Node G) :
    (node.renamed f).children = node.children.map (renamed f) := by
  cases node with
  | composite head kind below => simp [children]
  | decorator head kind child => cases child <;> simp [children]
  | timed | action => rfl

/-- The renamed tree has the renamed nodes. -/
theorem preorder_renamed (node : Node G) :
    (node.renamed f).preorder = node.preorder.map (renamed f) := by
  induction node using by_family with
  | inner node _ ih =>
      have hchildren : node.children.flatMap (preorder ∘ renamed f) =
          (node.children.flatMap preorder).map (renamed f) := by
        rw [List.map_flatMap]
        exact List.flatMap_congr ih
      rw [preorder_eq, preorder_eq node, children_renamed, List.flatMap_map, List.map_cons]
      exact congrArg _ hchildren
  | leaf node hleaf =>
      rw [preorder_eq, preorder_eq node, children_renamed, children_leaf hleaf]
      rfl

/-- A tree that keeps its identities stays the same. -/
@[simp] theorem renamed_id (node : Node G) : node.renamed (fun id => id) = node := by
  induction node with
  | composite head kind children ih =>
      rw [renamed_composite, List.map_congr_left ih, List.map_id']
      rfl
  | decorator head kind child ih =>
      rw [renamed_decorator]
      cases child with
      | none => rfl
      | some node => rw [Option.map_some, ih node rfl]; rfl
  | timed | action => rfl

/-- A node has the identity of everything in it. -/
theorem contains_of_mem {node other : Node G} (h : other ∈ node.preorder) :
    node.contains other.id = true :=
  List.any_eq_true.2 ⟨other, h, beq_self_eq_true other.id⟩

end Node

namespace Tree

/-- The same tree with other identities. -/
def renamed (f : NodeId → NodeId) (tree : Tree G) : Tree G :=
  ⟨tree.head.renamed f, tree.name, tree.child.map (Node.renamed f)⟩

variable {f : NodeId → NodeId}

/-- The top of a renamed tree is the renamed top. -/
theorem to_node_renamed (tree : Tree G) : (tree.renamed f).toNode = tree.toNode.renamed f :=
  (Node.renamed_decorator tree.head (.root tree.name) tree.child).symm

/-- A tree whose identities stay is the same tree. -/
@[simp] theorem renamed_id (tree : Tree G) : tree.renamed (fun id => id) = tree := by
  have hchild : tree.child.map (Node.renamed fun id => id) = tree.child := by
    cases tree.child <;> simp
  rw [renamed, hchild]
  rfl

/-- A node of a tree is a node of the renamed tree once it is renamed too. -/
theorem mem_renamed {tree : Tree G} {node : Node G} (h : node ∈ tree.toNode.preorder) :
    node.renamed f ∈ (tree.renamed f).toNode.preorder := by
  rw [to_node_renamed, Node.preorder_renamed]
  exact List.mem_map_of_mem h

end Tree

end BehaviorTree
