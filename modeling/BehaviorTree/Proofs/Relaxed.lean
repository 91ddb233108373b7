import BehaviorTree.Proofs.Execution

/-!
# Relaxed trees

`Node.relaxed` takes the must-complete flags of a tree away. The relaxed tree has the nodes of
the original in the same places, with the same identities, gates and kinds.
-/

namespace BehaviorTree

variable {G : Game}

namespace Node

mutual

/-- The same tree with every must-complete flag false. -/
def relaxed : Node G → Node G
  | composite head kind children => composite head kind (relaxedAll children)
  | decorator head kind child => decorator head kind (relaxedChild child)
  | timed head duration _ => timed head duration false
  | action head name _ leaf => action head name false leaf

/-- The same trees with every must-complete flag false. -/
def relaxedAll : List (Node G) → List (Node G)
  | [] => []
  | child :: rest => relaxed child :: relaxedAll rest

/-- The same tree, if there is one, with every must-complete flag false. -/
def relaxedChild : Option (Node G) → Option (Node G)
  | none => none
  | some child => some (relaxed child)

end

/-- To relax several trees is to relax each. -/
theorem relaxed_all_eq (children : List (Node G)) : relaxedAll children = children.map relaxed := by
  induction children with
  | nil => rfl
  | cons child rest ih => rw [relaxedAll, ih, List.map_cons]

/-- To relax a tree, if there is one, is to relax what is there. -/
theorem relaxed_child_eq (child : Option (Node G)) : relaxedChild child = child.map relaxed := by
  cases child <;> rfl

/-- A relaxed composite has relaxed children. -/
@[simp] theorem relaxed_composite (head : Head G) (kind : CompositeKind)
    (children : List (Node G)) :
    (composite head kind children).relaxed = composite head kind (children.map relaxed) := by
  rw [relaxed, relaxed_all_eq]

/-- A relaxed decorator has a relaxed child. -/
@[simp] theorem relaxed_decorator (head : Head G) (kind : DecoratorKind)
    (child : Option (Node G)) :
    (decorator head kind child).relaxed = decorator head kind (child.map relaxed) := by
  rw [relaxed, relaxed_child_eq]

/-- A relaxed node has the same identity and gate. -/
@[simp] theorem head_relaxed (node : Node G) : node.relaxed.head = node.head := by
  cases node <;> rfl

/-- A relaxed node has the same identity. -/
@[simp] theorem id_relaxed (node : Node G) : node.relaxed.id = node.id :=
  congrArg Head.id node.head_relaxed

/-- A relaxed node has the same gate. -/
@[simp] theorem gate_relaxed (node : Node G) : node.relaxed.gate = node.gate :=
  congrArg Head.gate node.head_relaxed

/-- A relaxed node is of the same family. -/
@[simp] theorem family_relaxed (node : Node G) : node.relaxed.family = node.family := by
  cases node <;> rfl

/-- A relaxed node need not complete. -/
@[simp] theorem must_complete_relaxed (node : Node G) : node.relaxed.mustComplete = false := by
  cases node <;> rfl

/-- The children of a relaxed node are relaxed. -/
theorem children_relaxed (node : Node G) :
    node.relaxed.children = node.children.map relaxed := by
  cases node with
  | composite head kind below => simp [children]
  | decorator head kind child => cases child <;> simp [children]
  | timed | action => rfl

/-- A relaxed node is entered like the original. -/
theorem entry_relaxed (node : Node G) (rules : Rules G) :
    node.relaxed.entry rules = node.entry rules := by
  cases node <;> rfl

/-- The relaxed tree has the relaxed nodes. -/
theorem preorder_relaxed (node : Node G) : node.relaxed.preorder = node.preorder.map relaxed := by
  induction node using by_family with
  | inner node _ ih =>
      have hchildren : node.children.flatMap (preorder ∘ relaxed) =
          (node.children.flatMap preorder).map relaxed := by
        rw [List.map_flatMap]
        exact List.flatMap_congr ih
      rw [preorder_eq, preorder_eq node, children_relaxed, List.flatMap_map, List.map_cons]
      exact congrArg _ hchildren
  | leaf node hleaf =>
      rw [preorder_eq, preorder_eq node, children_relaxed, children_leaf hleaf]
      rfl

/-- A relaxed tree has the same identities. -/
theorem ids_relaxed (node : Node G) : node.relaxed.ids = node.ids := by
  rw [ids, preorder_relaxed, List.map_map]
  exact List.map_congr_left fun other _ => other.id_relaxed

/-- A relaxed tree has no identity twice if the original has none. -/
theorem Distinct.relaxed {node : Node G} (h : node.Distinct) : node.relaxed.Distinct := by
  rw [Distinct, ids_relaxed]
  exact h

end Node

/-- The same tree with every must-complete flag false. -/
def Tree.relaxed (tree : Tree G) : Tree G := { tree with child := tree.child.map Node.relaxed }

/-- The top of a relaxed tree is the relaxed top. -/
theorem Tree.to_node_relaxed (tree : Tree G) : tree.relaxed.toNode = tree.toNode.relaxed :=
  (Node.relaxed_decorator tree.head (.root tree.name) tree.child).symm

end BehaviorTree
