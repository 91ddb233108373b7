import BehaviorTree.Tree.Node
import Mathlib.Data.List.Nodup
import Mathlib.Data.List.Pairwise

/-!
# Subtrees

Facts about `Node.preorder`: which nodes stand at or below a node, and what the distinctness
of identities gives. `Node.by_children` is the induction principle of trees, with one case per
kind of node and the children of a node taken together.

Two forests are told apart: in one whose identities are `Unambiguous` a node may occur more
than once, in a `Distinct` one it may not.
-/

namespace BehaviorTree

variable {G : Game}

namespace Node

/-- To prove something of every node, prove it of each kind of node from its children. -/
@[elab_as_elim, induction_eliminator]
theorem by_children {motive : Node G → Prop}
    (composite : ∀ head kind children, (∀ child ∈ children, motive child) →
      motive (.composite head kind children))
    (decorator : ∀ head kind child, (∀ node ∈ child, motive node) →
      motive (.decorator head kind child))
    (timed : ∀ head duration mustComplete, motive (.timed head duration mustComplete))
    (action : ∀ head name mustComplete leaf, motive (.action head name mustComplete leaf)) :
    ∀ node, motive node
  | .composite head kind children =>
      composite head kind children fun child _ =>
        by_children composite decorator timed action child
  | .decorator head kind none => decorator head kind none (by simp)
  | .decorator head kind (some child) =>
      decorator head kind (some child) fun node hnode =>
        Option.some.inj hnode ▸ by_children composite decorator timed action child
  | .timed head duration mustComplete => timed head duration mustComplete
  | .action head name mustComplete leaf => action head name mustComplete leaf

/-- A leaf has no children. -/
theorem children_leaf {node : Node G} (hleaf : node.family = .action) : node.children = [] := by
  cases node with
  | composite | decorator => simp [family] at hleaf
  | timed | action => rfl

/-- To prove something of every node, prove it of composites and decorators from their
children, and of leaves. -/
@[elab_as_elim]
theorem by_family {motive : Node G → Prop}
    (inner : ∀ node, node.family ≠ .action → (∀ child ∈ node.children, motive child) →
      motive node)
    (leaf : ∀ node, node.family = .action → motive node) (node : Node G) : motive node := by
  induction node with
  | composite head kind children ih => exact inner _ (by simp [family]) ih
  | decorator head kind child ih =>
      exact inner _ (by simp [family]) fun node hnode => ih node (Option.mem_toList.1 hnode)
  | timed | action => exact leaf _ rfl

/-- The nodes of several subtrees are listed one subtree after the other. -/
theorem preorder_all_eq (children : List (Node G)) :
    preorderAll children = children.flatMap preorder := by
  induction children with
  | nil => rfl
  | cons child rest ih => simp [preorderAll, ih]

/-- The nodes of a subtree, if there is one, are those of what is there. -/
theorem preorder_child_eq (child : Option (Node G)) :
    preorderChild child = child.toList.flatMap preorder := by
  cases child <;> simp [preorderChild]

/-- A node comes first among the nodes of its subtree. -/
theorem preorder_eq (node : Node G) :
    node.preorder = node :: node.children.flatMap preorder := by
  cases node <;> simp [preorder, children, preorder_all_eq, preorder_child_eq]

/-- The nodes strictly below a node. -/
def descendants (node : Node G) : List (Node G) := node.children.flatMap preorder

/-- The identities at and below a node. -/
def ids (node : Node G) : List NodeId := node.preorder.map id

/-- A node at or below another one is that node, or is at or below one of its children. -/
theorem mem_preorder {node other : Node G} :
    other ∈ node.preorder ↔ other = node ∨ ∃ child ∈ node.children, other ∈ child.preorder := by
  rw [preorder_eq, List.mem_cons, List.mem_flatMap]

/-- A node strictly below another one is at or below one of its children. -/
theorem mem_descendants {node other : Node G} :
    other ∈ node.descendants ↔ ∃ child ∈ node.children, other ∈ child.preorder := by
  simp [descendants]

/-- A node is at or below itself. -/
theorem self_mem_preorder (node : Node G) : node ∈ node.preorder := mem_preorder.2 (.inl rfl)

/-- A child is below its parent. -/
theorem child_mem_preorder {node child : Node G} (h : child ∈ node.children) :
    child ∈ node.preorder :=
  mem_preorder.2 (.inr ⟨child, h, child.self_mem_preorder⟩)

/-- What stands below something that stands below a node stands below the node. -/
theorem preorder_trans {node middle low : Node G} (hmiddle : middle ∈ node.preorder)
    (hlow : low ∈ middle.preorder) : low ∈ node.preorder := by
  induction node using by_family with
  | inner node _ ih =>
      rcases mem_preorder.1 hmiddle with rfl | ⟨child, hchild, hmiddle⟩
      · exact hlow
      · exact mem_preorder.2 (.inr ⟨child, hchild, ih child hchild hmiddle⟩)
  | leaf node hleaf =>
      rcases mem_preorder.1 hmiddle with rfl | ⟨child, hchild, _⟩
      · exact hlow
      · simp [children_leaf hleaf] at hchild

/-- What holds of a node and goes down from parents to children holds of the whole subtree. -/
theorem forall_preorder {motive : Node G → Prop} {node : Node G} (self : motive node)
    (step : ∀ parent ∈ node.preorder, motive parent → ∀ child ∈ parent.children, motive child) :
    ∀ other ∈ node.preorder, motive other := by
  intro other hother
  induction node using by_family with
  | inner node _ ih =>
      rcases mem_preorder.1 hother with rfl | ⟨child, hchild, hother⟩
      · exact self
      · refine ih child hchild (step node node.self_mem_preorder self child hchild) ?_ hother
        exact fun parent hparent => step parent (preorder_trans (child_mem_preorder hchild) hparent)
  | leaf node hleaf =>
      rcases mem_preorder.1 hother with rfl | ⟨child, hchild, _⟩
      · exact self
      · simp [children_leaf hleaf] at hchild

/-- The identities of a tree are that of the root and those of its children. -/
theorem ids_eq (node : Node G) : node.ids = node.id :: node.children.flatMap ids := by
  rw [ids, preorder_eq, List.map_cons, List.map_flatMap]
  rfl

/-- An identity is in a tree if one of its nodes has it. -/
theorem mem_ids {node : Node G} {id : NodeId} :
    id ∈ node.ids ↔ ∃ other ∈ node.preorder, other.id = id := by
  simp [ids]

/-- A leaf has no identity below it. -/
theorem ids_leaf {node : Node G} (hleaf : node.family = .action) : node.ids = [node.id] := by
  cases node with
  | composite | decorator => simp [family] at hleaf
  | timed | action => rfl

/-- A leaf has no identity but its own. -/
theorem not_mem_ids_leaf {node : Node G} (hleaf : node.family = .action) {id : NodeId}
    (hne : id ≠ node.id) : id ∉ node.ids := by
  rw [ids_leaf hleaf, List.mem_singleton]
  exact hne

/-- A node has its own identity. -/
theorem id_mem_ids (node : Node G) : node.id ∈ node.ids :=
  mem_ids.2 ⟨node, node.self_mem_preorder, rfl⟩

/-- The identities of a part are among those of the tree. -/
theorem ids_subset {node low : Node G} (h : low ∈ node.preorder) {id : NodeId}
    (hid : id ∈ low.ids) : id ∈ node.ids := by
  obtain ⟨other, hother, rfl⟩ := mem_ids.1 hid
  exact mem_ids.2 ⟨other, preorder_trans h hother, rfl⟩

/-- What is strictly below a node is at or below it. -/
theorem mem_preorder_of_descendants {node other : Node G} (h : other ∈ node.descendants) :
    other ∈ node.preorder := mem_preorder.2 (.inr (mem_descendants.1 h))

/-- A node at or below another one is that node or strictly below it. -/
theorem mem_preorder_iff_descendants {node other : Node G} :
    other ∈ node.preorder ↔ other = node ∨ other ∈ node.descendants := by
  rw [mem_preorder, mem_descendants]

/-- What is strictly below a part of a tree is strictly below the root. -/
theorem descendants_trans {node middle low : Node G} (hmiddle : middle ∈ node.preorder)
    (hlow : low ∈ middle.descendants) : low ∈ node.descendants := by
  obtain ⟨child, hchild, hlow⟩ := mem_descendants.1 hlow
  rcases mem_preorder.1 hmiddle with rfl | ⟨top, htop, hmiddle⟩
  · exact mem_descendants.2 ⟨child, hchild, hlow⟩
  · exact mem_descendants.2 ⟨top, htop,
      preorder_trans hmiddle (preorder_trans (child_mem_preorder hchild) hlow)⟩

/-- A child has fewer nodes than its parent. -/
theorem count_child_lt {node child : Node G} (h : child ∈ node.children) :
    child.count < node.count := by
  have hsublist : child.preorder.Sublist (node.children.flatMap preorder) :=
    List.sublist_flatten_of_mem (List.mem_map_of_mem h)
  rw [count, count, preorder_eq node, List.length_cons]
  exact Nat.lt_succ_of_le hsublist.length_le

/-- There are more nodes at and below a node than at and below any node under it. -/
theorem count_lt_of_mem_descendants {node low : Node G} (h : low ∈ node.descendants) :
    low.count < node.count := by
  induction node using by_family with
  | inner node _ ih =>
      obtain ⟨child, hchild, hlow⟩ := mem_descendants.1 h
      rcases mem_preorder_iff_descendants.1 hlow with rfl | hbelow
      · exact count_child_lt hchild
      · exact Nat.lt_trans (ih child hchild hbelow) (count_child_lt hchild)
  | leaf node hleaf => simp [descendants, children_leaf hleaf] at h

/-- A node does not stand strictly below itself. -/
theorem not_mem_descendants (node : Node G) : node ∉ node.descendants :=
  fun h => Nat.lt_irrefl _ (count_lt_of_mem_descendants h)

/-- Two nodes do not stand below each other. -/
theorem eq_of_mem_preorder {node top : Node G} (htop : top ∈ node.preorder)
    (hnode : node ∈ top.preorder) : top = node := by
  rcases mem_preorder_iff_descendants.1 hnode with rfl | hbelow
  · rfl
  · exact absurd (descendants_trans htop hbelow) node.not_mem_descendants

/-! ## Distinct identities -/

/-- No identity occurs twice at or below a node. -/
def Distinct (node : Node G) : Prop := node.ids.Nodup

/-- Nothing below a node has its identity. -/
theorem Distinct.id_not_mem {node child : Node G} (h : node.Distinct)
    (hchild : child ∈ node.children) : node.id ∉ child.ids := by
  rw [Distinct, ids_eq, List.nodup_cons] at h
  intro hmem
  exact h.1 (List.mem_flatMap.2 ⟨child, hchild, hmem⟩)

/-- A child has no identity twice if its parent has none. -/
theorem Distinct.child {node child : Node G} (h : node.Distinct)
    (hchild : child ∈ node.children) : child.Distinct := by
  rw [Distinct, ids_eq, List.nodup_cons] at h
  exact (List.nodup_flatMap.1 h.2).1 child hchild

/-- Subtrees of different children share no identity. -/
theorem Distinct.children_disjoint {node : Node G} (h : node.Distinct) :
    node.children.Pairwise fun left right => ∀ id ∈ left.ids, id ∉ right.ids := by
  rw [Distinct, ids_eq, List.nodup_cons] at h
  refine (List.nodup_flatMap.1 h.2).2.imp ?_
  intro left right hdisjoint id hleft hright
  exact hdisjoint hleft hright

/-- A part has no identity twice if the tree has none. -/
theorem Distinct.of_mem_preorder {node low : Node G} (h : node.Distinct)
    (hlow : low ∈ node.preorder) : low.Distinct :=
  forall_preorder h (fun _ _ hparent _ hchild => hparent.child hchild) low hlow

/-- A node does not carry an identity from strictly below it. -/
theorem Distinct.id_not_mem_below {node low : Node G} (h : node.Distinct)
    (hlow : low ∈ node.descendants) : node.id ∉ low.ids := by
  obtain ⟨child, hchild, hlow⟩ := mem_descendants.1 hlow
  exact fun hmem => h.id_not_mem hchild (ids_subset hlow hmem)

/-- What is strictly below a node has another identity. -/
theorem Distinct.id_ne_of_mem_descendants {node low : Node G} (h : node.Distinct)
    (hlow : low ∈ node.descendants) : low.id ≠ node.id := by
  intro heq
  exact h.id_not_mem_below hlow (heq ▸ low.id_mem_ids)

/-- A leaf carries another identity than every node that is no leaf. -/
theorem Distinct.leaf_id_ne {node leaf other : Node G} (h : node.Distinct)
    (hmem : leaf ∈ node.preorder) (hleaf : leaf.family = .action) (hother : other ∈ node.preorder)
    (hinner : other.family ≠ .action) : leaf.id ≠ other.id := by
  intro heq
  obtain rfl := List.inj_on_of_nodup_map h hmem hother heq
  exact hinner hleaf

/-- Of the children of a node one only can hold an identity. -/
theorem Distinct.child_unique {node one other : Node G} (h : node.Distinct)
    (hone : one ∈ node.children) (hother : other ∈ node.children) {id : NodeId}
    (hidOne : id ∈ one.ids) (hidOther : id ∈ other.ids) : one = other := by
  by_contra hne
  have hsymm : Std.Symm fun left right : Node G => ∀ id ∈ left.ids, id ∉ right.ids :=
    ⟨fun left right hdisjoint id hright hleft => hdisjoint id hleft hright⟩
  exact h.children_disjoint.forall hone hother hne id hidOne hidOther

/-- A subtree is entered at its top only: where a child of a node outside stands in it, the
child is the top. -/
theorem Distinct.entrance {root node child top : Node G} (h : root.Distinct)
    (hnode : node ∈ root.preorder) (htop : top ∈ root.preorder) (houtside : node ∉ top.preorder)
    (hchild : child ∈ node.children) (hinside : child ∈ top.preorder) : child = top := by
  induction root using by_family with
  | inner root _ ih =>
      rcases mem_preorder.1 htop with rfl | ⟨above, habove, htop⟩
      · exact absurd hnode houtside
      have hidAbove : child.id ∈ above.ids := ids_subset htop (ids_subset hinside child.id_mem_ids)
      rcases mem_preorder.1 hnode with rfl | ⟨outer, houter, hnode⟩
      · obtain rfl := h.child_unique hchild habove child.id_mem_ids hidAbove
        exact (eq_of_mem_preorder htop hinside).symm
      · have hidOuter : child.id ∈ outer.ids :=
          ids_subset hnode (ids_subset (child_mem_preorder hchild) child.id_mem_ids)
        obtain rfl := h.child_unique houter habove hidOuter hidAbove
        exact ih outer houter (h.child houter) hnode htop
  | leaf root hleaf =>
      rcases mem_preorder.1 htop with rfl | ⟨above, habove, -⟩
      · exact absurd hnode houtside
      · simp [children_leaf hleaf] at habove

end Node

/-! ## Forests -/

/-- Every node of some trees. -/
def forestNodes (forest : List (Tree G)) : List (Node G) :=
  forest.flatMap fun tree => tree.toNode.preorder

/-- An identity names one node only, however often that node occurs. -/
def Unambiguous (forest : List (Tree G)) : Prop :=
  ∀ one ∈ forestNodes forest, ∀ other ∈ forestNodes forest, one.id = other.id → one = other

/-- No identity occurs twice in some trees. -/
def Distinct (forest : List (Tree G)) : Prop := ((forestNodes forest).map Node.id).Nodup

/-- A forest of one tree has no identity twice if the tree has none. -/
theorem Tree.distinct_forest {tree : Tree G} (h : tree.toNode.Distinct) : Distinct [tree] := by
  simpa [BehaviorTree.Distinct, forestNodes, Node.Distinct, Node.ids] using h

/-- Where no identity occurs twice it names one node only. -/
theorem Distinct.unambiguous {forest : List (Tree G)} (h : Distinct forest) :
    Unambiguous forest := by
  intro one hone other hother heq
  exact List.inj_on_of_nodup_map h hone hother heq

/-- The nodes of a tree are among those of the forest. -/
theorem mem_forest_nodes {forest : List (Tree G)} {tree : Tree G} (htree : tree ∈ forest)
    {node : Node G} (hnode : node ∈ tree.toNode.preorder) : node ∈ forestNodes forest :=
  List.mem_flatMap.2 ⟨tree, htree, hnode⟩

/-- What is below a node of a forest is in the forest. -/
theorem forest_nodes_trans {forest : List (Tree G)} {node low : Node G}
    (hnode : node ∈ forestNodes forest) (hlow : low ∈ node.preorder) :
    low ∈ forestNodes forest := by
  obtain ⟨tree, htree, hmem⟩ := List.mem_flatMap.1 hnode
  exact mem_forest_nodes htree (Node.preorder_trans hmem hlow)

/-- Where identities are unambiguous a node stands where its identity does. -/
theorem Unambiguous.mem_preorder {forest : List (Tree G)} (h : Unambiguous forest)
    {node top : Node G} (hnode : node ∈ forestNodes forest) (htop : top ∈ forestNodes forest)
    (hid : node.id ∈ top.ids) : node ∈ top.preorder := by
  obtain ⟨other, hother, heq⟩ := Node.mem_ids.1 hid
  rwa [← h other (forest_nodes_trans htop hother) node hnode heq]

/-- Where identities are unambiguous a node does not carry an identity from strictly below it. -/
theorem Unambiguous.id_not_mem_below {forest : List (Tree G)} (h : Unambiguous forest)
    {node low : Node G} (hnode : node ∈ forestNodes forest) (hlow : low ∈ node.descendants) :
    node.id ∉ low.ids := by
  intro hid
  obtain ⟨other, hother, heq⟩ := Node.mem_ids.1 hid
  have hmem : other ∈ node.preorder :=
    Node.preorder_trans (Node.mem_preorder_of_descendants hlow) hother
  obtain rfl := h other (forest_nodes_trans hnode hmem) node hnode heq
  have hbelow := Node.eq_of_mem_preorder (Node.mem_preorder_of_descendants hlow) hother
  exact other.not_mem_descendants (hbelow ▸ hlow)

/-- A tree has no identity twice if the forest has none. -/
theorem Distinct.tree {forest : List (Tree G)} (h : Distinct forest) {tree : Tree G}
    (htree : tree ∈ forest) : tree.toNode.Distinct := by
  rw [Distinct, forestNodes, List.map_flatMap] at h
  exact (List.nodup_flatMap.1 h).1 tree htree

/-- A node of a forest has no identity twice at or below it if the forest has none. -/
theorem Distinct.of_mem_forest_nodes {forest : List (Tree G)} (h : Distinct forest) {node : Node G}
    (hnode : node ∈ forestNodes forest) : node.Distinct := by
  obtain ⟨tree, htree, hmem⟩ := List.mem_flatMap.1 hnode
  exact (h.tree htree).of_mem_preorder hmem

/-- Of the trees of a forest one only can hold an identity. -/
theorem Distinct.tree_unique {forest : List (Tree G)} (h : Distinct forest) {one other : Tree G}
    (hone : one ∈ forest) (hother : other ∈ forest) {id : NodeId} (hidOne : id ∈ one.toNode.ids)
    (hidOther : id ∈ other.toNode.ids) : one = other := by
  by_contra hne
  rw [Distinct, forestNodes, List.map_flatMap] at h
  have hsymm : Std.Symm fun left right : Tree G =>
      List.Disjoint (left.toNode.preorder.map Node.id) (right.toNode.preorder.map Node.id) :=
    ⟨fun left right hdisjoint => List.disjoint_comm.1 hdisjoint⟩
  exact (List.nodup_flatMap.1 h).2.forall hone hother hne hidOne hidOther

/-- A node that holds an identity of a tree stands in the tree. -/
theorem Distinct.mem_tree {forest : List (Tree G)} (h : Distinct forest) {tree : Tree G}
    (htree : tree ∈ forest) {node : Node G} (hnode : node ∈ forestNodes forest) {id : NodeId}
    (hidNode : id ∈ node.ids) (hidTree : id ∈ tree.toNode.ids) : node ∈ tree.toNode.preorder := by
  obtain ⟨other, hother, hmem⟩ := List.mem_flatMap.1 hnode
  obtain rfl : other = tree := h.tree_unique hother htree (Node.ids_subset hmem hidNode) hidTree
  exact hmem

end BehaviorTree
