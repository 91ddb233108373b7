import BehaviorTree.Proofs.Seam

/-!
# Flattened trees

Nested composites of one kind can be flattened: one sees the same of an agent that runs a tree with
a seam as of one that runs the flattened tree, command by command the same calls in the same order,
the same status, selection and current action (`flattened_unseen`).

The flattened tree is a graft (`Seam.Flattens.grafts`): at the seam the law between the stored
positions is kept (`Seam.outer_accords`), and away from it nothing can break it.
-/

namespace BehaviorTree

variable {G : Game} {rules : Rules G} {kept kept' : NodeId → Bool} {elapsed : Nat}
  {fair : NodeId × Status → Prop} {seam : Seam} {tree flat : Tree G}

namespace Seam

/-- The outer composite of a seam with the inner one among its children. -/
def nested (seam : Seam) (kind : CompositeKind) (front middle back : List (Node G)) : Node G :=
  .composite ⟨seam.outer, none⟩ kind (front ++ .composite ⟨seam.inner, none⟩ kind middle :: back)

/-- The outer composite of a seam with the children of the inner one among its own. -/
def plain (seam : Seam) (kind : CompositeKind) (front middle back : List (Node G)) : Node G :=
  .composite ⟨seam.outer, none⟩ kind (front ++ (middle ++ back))

variable {kind : CompositeKind} {front middle back : List (Node G)}

/-- The inner composite is a child of the outer one. -/
theorem inner_mem_nested (seam : Seam) :
    .composite ⟨seam.inner, none⟩ kind middle ∈ (seam.nested kind front middle back).children :=
  List.mem_append_right front List.mem_cons_self

/-- The identities of a seam stand in the nested composite. -/
theorem ids_mem_nested (seam : Seam) :
    ∀ id ∈ seam.ids, id ∈ (seam.nested kind front middle back).ids := by
  intro id hid
  rcases List.mem_cons.1 hid with rfl | hid
  · exact (seam.nested kind front middle back).id_mem_ids
  · obtain rfl := List.mem_singleton.1 hid
    exact Node.ids_subset (Node.child_mem_preorder seam.inner_mem_nested)
      (Node.composite ⟨seam.inner, none⟩ kind middle).id_mem_ids

/-- No leaf is lost. -/
theorem leaf_mem_plain (seam : Seam) {leaf : Node G}
    (hmem : leaf ∈ (seam.nested kind front middle back).preorder) (hleaf : leaf.family = .action) :
    leaf ∈ (seam.plain kind front middle back).preorder := by
  have hbelow : ∀ {top : Node G}, leaf ∈ top.preorder → top.family ≠ .action →
      ∃ child ∈ top.children, leaf ∈ child.preorder := by
    intro top htop hinner
    rcases Node.mem_preorder.1 htop with rfl | hchild
    · exact absurd hleaf hinner
    · exact hchild
  obtain ⟨child, hchild, hlow⟩ := hbelow hmem (by simp [nested, Node.family])
  refine Node.mem_preorder.2 (.inr ?_)
  rcases List.mem_append.1 hchild with hfront | hrest
  · exact ⟨child, List.mem_append_left _ hfront, hlow⟩
  rcases List.mem_cons.1 hrest with rfl | hback
  · obtain ⟨low, hmiddle, hlow⟩ := hbelow hlow (by simp [Node.family])
    exact ⟨low, List.mem_append_right front (List.mem_append_left back hmiddle), hlow⟩
  · exact ⟨child, List.mem_append_right front (List.mem_append_right middle hback), hlow⟩

/-- A flattened node is one in which the two composites are replaced by one. -/
theorem Flattens.grafts {node node' : Node G} (h : seam.Flattens node node') :
    ∃ kind advance, kind.advance? = some advance ∧ ∃ front middle back,
      front.length = seam.position ∧ middle.length = seam.width ∧
        (seam.nested kind front middle back).Grafts (seam.plain kind front middle back)
          node node' := by
  induction h with
  | here hkind front middle back =>
      exact ⟨_, _, hkind, front, middle, back, rfl, rfl, .here⟩
  | composite h head kind front back ih =>
      obtain ⟨_, _, hkind, _, _, _, hposition, hwidth, hgrafts⟩ := ih
      exact ⟨_, _, hkind, _, _, _, hposition, hwidth, hgrafts.composite head kind front back⟩
  | decorator h head kind ih =>
      obtain ⟨_, _, hkind, _, _, _, hposition, hwidth, hgrafts⟩ := ih
      exact ⟨_, _, hkind, _, _, _, hposition, hwidth, hgrafts.decorator head kind⟩

/-- What stands around the inner composite shares no identity with the two composites. -/
theorem around (hdistinct : (seam.nested kind front middle back).Distinct)
    (hmem : seam.nested kind front middle back ∈ tree.toNode.preorder)
    (hshares : ∀ leaf ∈ tree.toNode.preorder, leaf.family = .action →
      flat.contains leaf.id = true)
    (hposition : front.length = seam.position) (hwidth : middle.length = seam.width) :
    seam.Around tree flat front middle back := by
  have hmid : .composite ⟨seam.inner, none⟩ kind middle ∈
      (seam.nested kind front middle back).children := seam.inner_mem_nested
  have hinner := (Node.composite (⟨seam.inner, none⟩ : Head G) kind middle).id_mem_ids
  have houter : seam.outer ∉ (Node.composite ⟨seam.inner, none⟩ kind middle).ids :=
    hdistinct.id_not_mem hmid
  obtain ⟨hfront, hback⟩ := hdistinct.siblings
  have haloof : ∀ other ∈ (seam.nested kind front middle back).preorder,
      seam.outer ∉ other.ids → seam.inner ∉ other.ids → other.Aloof seam.ids tree flat := by
    intro other hother hnotOuter hnotInner
    refine .of_not_mem (Node.preorder_trans hmem hother) hshares fun id hid => ?_
    rcases List.mem_cons.1 hid with rfl | hid
    · exact hnotOuter
    · obtain rfl := List.mem_singleton.1 hid
      exact hnotInner
  refine ⟨hposition, hwidth, ?_, fun child hchild => ?_, fun child hchild => ?_,
    fun child hchild => ?_⟩
  · exact fun heq => houter (heq ▸ hinner)
  · have hchild' : child ∈ (seam.nested kind front middle back).children :=
      List.mem_append_left _ hchild
    exact haloof child (Node.child_mem_preorder hchild') (hdistinct.id_not_mem hchild')
      (hfront child hchild seam.inner hinner)
  · have hlow : child ∈ (Node.composite ⟨seam.inner, none⟩ kind middle).preorder :=
      Node.child_mem_preorder hchild
    exact haloof child (Node.preorder_trans (Node.child_mem_preorder hmid) hlow)
      (fun hid => houter (Node.ids_subset hlow hid)) ((hdistinct.child hmid).id_not_mem hchild)
  · have hchild' : child ∈ (seam.nested kind front middle back).children :=
      List.mem_append_right front (List.mem_cons_of_mem _ hchild)
    exact haloof child (Node.child_mem_preorder hchild') (hdistinct.id_not_mem hchild')
      (hback child hchild seam.inner hinner)

/-- A leaf carries another identity than the two composites. -/
theorem leaf_not_mem_ids (hdistinct : (seam.nested kind front middle back).Distinct)
    {leaf : Node G} (hmem : leaf ∈ (seam.nested kind front middle back).preorder)
    (hleaf : leaf.family = .action) : leaf.id ∉ seam.ids := by
  intro hid
  rcases List.mem_cons.1 hid with hid | hid
  · exact hdistinct.leaf_id_ne hmem hleaf (Node.self_mem_preorder _) (by simp [nested, Node.family])
      hid
  · exact hdistinct.leaf_id_ne hmem hleaf (Node.child_mem_preorder seam.inner_mem_nested)
      (by simp [Node.family]) (List.mem_singleton.1 hid)

/-- A tree and one that it is flattened to are executed in accord. -/
theorem Flattens.graft (h : seam.Flattens tree.toNode flat.toNode) (hrules : rules.Local [tree])
    (hshallow : rules.Shallow) (hdistinct : tree.toNode.Distinct) :
    Graft fair rules seam.ids tree flat (Agent.Linked seam) := by
  obtain ⟨kind, advance, hkind, front, middle, back, hposition, hwidth, hgrafts⟩ := h.grafts
  have hnested : (seam.nested kind front middle back).Distinct :=
    hdistinct.of_mem_preorder hgrafts.old_mem
  refine hgrafts.graft hrules hshallow hdistinct seam.linked_local (fun _ => seam.leaf_mem_plain)
    (fun id hid _ => seam.ids_mem_nested id hid) (fun _ => leaf_not_mem_ids hnested)
    fun kept kept' elapsed => ?_
  exact outer_accords hrules (around hnested hgrafts.old_mem
    (hgrafts.shares fun _ => seam.leaf_mem_plain) hposition hwidth) hkind

end Seam

/-- New agents with the two trees are linked across the seam. -/
theorem Agent.fresh_with_linked (entity : EntityId) (seam : Seam) (tree flat : Tree G) :
    Linked seam (Agent.freshWith entity tree) (Agent.freshWith entity flat) :=
  ⟨rfl, nofun, nofun, nofun⟩

/-- Where a composite without a gate stands directly in another one of its kind, also without a
gate, nobody sees whether it is replaced by its children: whatever the rest of the tree, one sees
the same of an agent that runs the tree as of one that runs the flattened tree, command by command
the same calls of leaves and conditions in the same order, the same status, the same selection and
the same current action. -/
theorem flattened_unseen (hrules : rules.Local [tree]) (hshallow : rules.Shallow)
    (hdistinct : tree.toNode.Distinct) (hflat : seam.Flattens tree.toNode flat.toNode)
    {commands : List (Command G)} (hcommands : ∀ command ∈ commands, command.LeavesTree)
    (entity : EntityId) (kept : NodeId → Bool) :
    Command.scenes rules kept (.setBehavior kept tree :: commands) (Agent.fresh entity) =
      Command.scenes rules kept (.setBehavior kept flat :: commands) (Agent.fresh entity) :=
  (hflat.graft hrules hshallow hdistinct).unseen hcommands entity kept
    (Agent.fresh_with_linked entity seam tree flat) fun _ _ => trivial

/-- A sequence of a leaf, a sequence of two leaves, and a last leaf. -/
def nestedTree : Tree (Game.clocked Unit) where
  head := ⟨⟨6⟩, none⟩
  name := "nested"
  child := some (.composite ⟨⟨5⟩, none⟩ .sequence
    [.action ⟨⟨0⟩, none⟩ "First" true (),
      .composite ⟨⟨4⟩, none⟩ .sequence
        [.action ⟨⟨1⟩, none⟩ "Second" false (), .timed ⟨⟨2⟩, none⟩ 3 false],
      .action ⟨⟨3⟩, none⟩ "Last" false ()])

/-- The leaves of `nestedTree` in one sequence. -/
def plainTree : Tree (Game.clocked Unit) where
  head := ⟨⟨6⟩, none⟩
  name := "nested"
  child := some (.composite ⟨⟨5⟩, none⟩ .sequence
    [.action ⟨⟨0⟩, none⟩ "First" true (), .action ⟨⟨1⟩, none⟩ "Second" false (),
      .timed ⟨⟨2⟩, none⟩ 3 false, .action ⟨⟨3⟩, none⟩ "Last" false ()])

/-- The example tree is flattened at the place of its inner sequence. -/
theorem nested_tree_flattens :
    Seam.Flattens ⟨⟨5⟩, ⟨4⟩, 1, 2⟩ nestedTree.toNode plainTree.toNode :=
  .decorator (.here (rfl : CompositeKind.sequence.advance? = some .finished) [_] [_, _] [_]) _ _

/-- The inner sequence runs over several updates and is resumed at its second child. -/
theorem flattened_unseen_nested :
    let commands := [1, 2, 2, 2, 1].map (Command.update fun _ => false)
    let scenes := Command.scenes (Rules.clocked deadline) (fun _ => false)
      (.setBehavior (fun _ => false) nestedTree :: commands) (Agent.fresh 7)
    scenes.map (·.status) = [.unknown, .running, .running, .running, .finished, .running] ∧
      scenes = Command.scenes (Rules.clocked deadline) (fun _ => false)
        (.setBehavior (fun _ => false) plainTree :: commands) (Agent.fresh 7) := by
  intro commands scenes
  have hcommands : ∀ command ∈ commands, command.LeavesTree := by
    simp [commands, Command.LeavesTree]
  refine ⟨by rfl, ?_⟩
  exact flattened_unseen (Rules.clocked_local deadline [nestedTree])
    (Rules.clocked_shallow deadline) (by unfold Node.Distinct; decide) nested_tree_flattens
    hcommands 7 _

end BehaviorTree
