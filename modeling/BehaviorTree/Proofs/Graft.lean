import BehaviorTree.Proofs.Beside

/-!
# Grafts

In a tree one subtree may be replaced by another (`Node.Grafts`). If the two subtrees are executed
in accord, so are the trees from there upwards, as long as what the subtrees keep for themselves is
kept under identities that the rest of the tree does not use (`Node.Grafts.accords`).

What is in accord cannot be told apart: one sees the same of an agent that runs one of the two trees
as of one that runs the other, command by command the same calls of leaves and conditions in the
same order, the same status, selection and current action (`Graft.unseen`).
-/

namespace BehaviorTree

variable {G : Game} {rules : Rules G} {kept kept' : NodeId → Bool} {elapsed : Nat}
  {fair : NodeId × Status → Prop} {ids : List NodeId} {tree flat : Tree G}
  {law : Agent G → Agent G → Prop}

/-! ## Gates -/

/-- Conditions of the game know nodes by their identity and do not look at what is below. -/
def Rules.Shallow (rules : Rules G) : Prop :=
  ∀ test (one other : Node G), other.id = one.id → rules.test test other = rules.test test one

/-- Leaves that go by the clock alone have no conditions that could look below a node. -/
theorem Rules.clocked_shallow {Leaf : Type} (answer : Leaf → Nat → Status) :
    (Rules.clocked answer).Shallow := nofun

/-- Before a game that is shallow, nodes with the same head approach their gates alike. -/
theorem Node.approach_congr (hshallow : rules.Shallow) {node node' : Node G}
    (hhead : node'.head = node.head) (hentry : node'.entry rules = node.entry rules) :
    node'.approach rules = node.approach rules := by
  have hid : node'.id = node.id := congrArg Head.id hhead
  have hopen : node'.open rules = node.open rules := by
    rw [Node.open, Node.open, gate, gate, hhead]
    cases node.head.gate with
    | none => rfl
    | some condition => exact condition.evaluate_congr (fun test => hshallow test _ _ hid) hid
  rw [approach, approach, freshen, freshen, hid, hentry, hopen]

/-! ## Replacing a subtree -/

/-- In a node one subtree is replaced by another. -/
inductive Node.Grafts (old new : Node G) : Node G → Node G → Prop where
  | here : Grafts old new old new
  | composite {child child' : Node G} (h : Grafts old new child child') (head : Head G)
      (kind : CompositeKind) (front back : List (Node G)) :
      Grafts old new (.composite head kind (front ++ child :: back))
        (.composite head kind (front ++ child' :: back))
  | decorator {child child' : Node G} (h : Grafts old new child child') (head : Head G)
      (kind : DecoratorKind) :
      Grafts old new (.decorator head kind (some child)) (.decorator head kind (some child'))

/-- The subtrees beside a child share no identity with it. -/
theorem Node.Distinct.siblings {head : Head G} {kind : CompositeKind} {front back : List (Node G)}
    {child : Node G} (h : (Node.composite head kind (front ++ child :: back)).Distinct) :
    (∀ other ∈ front, ∀ id ∈ child.ids, id ∉ other.ids) ∧
      ∀ other ∈ back, ∀ id ∈ child.ids, id ∉ other.ids := by
  have hdisjoint := h.children_disjoint
  rw [Node.children, List.pairwise_append, List.pairwise_cons] at hdisjoint
  obtain ⟨-, ⟨hbehind, -⟩, hbefore⟩ := hdisjoint
  exact ⟨fun other hother id hchild hid =>
      hbefore other hother child List.mem_cons_self id hid hchild,
    fun other hother id hchild hid => hbehind other hother id hchild hid⟩

namespace Node.Grafts

variable {old new node node' : Node G}

/-- The subtree that is replaced stands in the node. -/
theorem old_mem (h : old.Grafts new node node') : old ∈ node.preorder := by
  induction h with
  | here => exact old.self_mem_preorder
  | composite h head kind front back ih =>
      exact preorder_trans (child_mem_preorder (List.mem_append_right front List.mem_cons_self)) ih
  | decorator h head kind ih =>
      exact preorder_trans (child_mem_preorder (List.mem_singleton_self _)) ih

/-- The subtree that takes its place stands in the other node. -/
theorem new_mem (h : old.Grafts new node node') : new ∈ node'.preorder := by
  induction h with
  | here => exact new.self_mem_preorder
  | composite h head kind front back ih =>
      exact preorder_trans (child_mem_preorder (List.mem_append_right front List.mem_cons_self)) ih
  | decorator h head kind ih =>
      exact preorder_trans (child_mem_preorder (List.mem_singleton_self _)) ih

/-- A graft can be undone. -/
theorem symm (h : old.Grafts new node node') : new.Grafts old node' node := by
  induction h with
  | here => exact .here
  | composite h head kind front back ih => exact ih.composite head kind front back
  | decorator h head kind ih => exact ih.decorator head kind

/-- No leaf is lost if none is lost in the subtree. -/
theorem leaf_mem (h : old.Grafts new node node')
    (hkept : ∀ leaf ∈ old.preorder, leaf.family = .action → leaf ∈ new.preorder) {leaf : Node G}
    (hmem : leaf ∈ node.preorder) (hleaf : leaf.family = .action) : leaf ∈ node'.preorder := by
  induction h with
  | here => exact hkept leaf hmem hleaf
  | composite h head kind front back ih =>
      rcases mem_preorder.1 hmem with rfl | ⟨child, hchild, hlow⟩
      · cases hleaf
      refine mem_preorder.2 (.inr ?_)
      rcases List.mem_append.1 hchild with hfront | hrest
      · exact ⟨child, List.mem_append_left _ hfront, hlow⟩
      rcases List.mem_cons.1 hrest with rfl | hback
      · exact ⟨_, List.mem_append_right front List.mem_cons_self, ih hlow⟩
      · exact ⟨child, List.mem_append_right front (List.mem_cons_of_mem _ hback), hlow⟩
  | decorator h head kind ih =>
      rcases mem_preorder.1 hmem with rfl | ⟨child, hchild, hlow⟩
      · cases hleaf
      obtain rfl := List.mem_singleton.1 hchild
      exact mem_preorder.2 (.inr ⟨_, List.mem_singleton_self _, ih hlow⟩)

/-- The new subtree has no identity of a node that is above or beside the old one. -/
theorem ids_subset_old (h : old.Grafts new node node') (hdistinct : node'.Distinct) {id : NodeId}
    (hnew : id ∈ new.ids) (hmem : id ∈ node.ids) : id ∈ old.ids := by
  induction h with
  | here => exact hmem
  | @composite child child' h head kind front back ih =>
      have hmid : child' ∈ front ++ child' :: back := List.mem_append_right front List.mem_cons_self
      have hchild' : id ∈ child'.ids := ids_subset h.new_mem hnew
      obtain ⟨hfront, hback⟩ := hdistinct.siblings
      rw [ids_eq, List.mem_cons, List.mem_flatMap] at hmem
      rcases hmem with rfl | ⟨other, hother, hid⟩
      · exact absurd hchild' (hdistinct.id_not_mem hmid)
      rcases List.mem_append.1 hother with hother | hother
      · exact absurd hid (hfront other hother id hchild')
      rcases List.mem_cons.1 hother with rfl | hother
      · exact ih (hdistinct.child hmid) hid
      · exact absurd hid (hback other hother id hchild')
  | @decorator child child' h head kind ih =>
      have hmid : child' ∈ (some child').toList := List.mem_singleton_self child'
      rw [ids_eq, List.mem_cons, List.mem_flatMap] at hmem
      rcases hmem with rfl | ⟨other, hother, hid⟩
      · exact absurd (ids_subset h.new_mem hnew) (hdistinct.id_not_mem hmid)
      · obtain rfl := List.mem_singleton.1 hother
        exact ih (hdistinct.child hmid) hid

/-- A node that holds the subtree is executed in accord with the one in which it is replaced, if the
subtrees are. -/
theorem accords (h : old.Grafts new node node') (hrules : rules.Local [tree])
    (hshallow : rules.Shallow) (hlaw : LocalLaw ids law) (hmem : node ∈ tree.toNode.preorder)
    (hdistinct : node.Distinct) (hids : ∀ id ∈ ids, id ∈ node.ids → id ∈ old.ids)
    (hshares : ∀ leaf ∈ tree.toNode.preorder, leaf.family = .action →
      flat.contains leaf.id = true)
    (hold : old.InAccord fair rules kept kept' elapsed (Agent.Joined ids tree flat law) new) :
    node.InAccord fair rules kept kept' elapsed (Agent.Joined ids tree flat law) node' := by
  -- What is kept under the identities belongs to the subtree, and the nodes above and beside the
  -- subtree have identities of their own.
  have hattuned : ∀ {above child : Node G}, above ∈ tree.toNode.preorder → above.Distinct →
      (∀ id ∈ ids, id ∈ above.ids → id ∈ old.ids) → above.family ≠ .action →
      child ∈ above.children → old ∈ child.preorder →
      above.Attuned rules (Agent.Joined ids tree flat law) kept kept' := by
    intro above child habove hdistinct hids hinner hchild hbelow
    refine hlaw.attuned hrules habove (fun hid => ?_) fun hleaf => absurd hleaf hinner
    exact hdistinct.id_not_mem hchild (ids_subset hbelow (hids _ hid above.id_mem_ids))
  induction h with
  | here => exact hold
  | @composite child child' h head kind front back ih =>
      have hmid : child ∈ front ++ child :: back := List.mem_append_right front List.mem_cons_self
      have hbelow : child ∈ (Node.composite head kind (front ++ child :: back)).preorder :=
        child_mem_preorder hmid
      obtain ⟨hfront, hback⟩ := hdistinct.siblings
      have hsibling : ∀ other ∈ front ++ child :: back, (∀ id ∈ child.ids, id ∉ other.ids) →
          other.InAccord fair rules kept kept' elapsed (Agent.Joined ids tree flat law) other := by
        intro other hother hdisjoint
        have hlow : other ∈ (Node.composite head kind (front ++ child :: back)).preorder :=
          child_mem_preorder hother
        refine (Aloof.of_not_mem (preorder_trans hmem hlow) hshares fun id hid hother => ?_).accords
          hrules hlaw
        exact hdisjoint id (ids_subset h.old_mem (hids id hid (ids_subset hlow hother))) hother
      refine composite_accords (hattuned hmem hdistinct hids (by simp [family]) hmid h.old_mem)
        (approach_congr hshallow rfl rfl)
        (List.rel_append (List.forall₂_same.2 fun other hother => ?_)
          (.cons ?_ (List.forall₂_same.2 fun other hother => ?_)))
      · exact hsibling other (List.mem_append_left _ hother) (hfront other hother)
      · exact ih (preorder_trans hmem hbelow) (hdistinct.child hmid)
          fun id hid hchild => hids id hid (ids_subset hbelow hchild)
      · exact hsibling other (List.mem_append_right front (List.mem_cons_of_mem _ hother))
          (hback other hother)
  | @decorator child child' h head kind ih =>
      have hmid : child ∈ (some child).toList := List.mem_singleton_self child
      have hbelow : child ∈ (Node.decorator head kind (some child)).preorder :=
        child_mem_preorder hmid
      refine decorator_accords (hattuned hmem hdistinct hids (by simp [family]) hmid h.old_mem)
        (approach_congr hshallow rfl rfl) (.some ?_)
      exact ih (preorder_trans hmem hbelow) (hdistinct.child hmid)
        fun id hid hchild => hids id hid (ids_subset hbelow hchild)

end Node.Grafts

/-! ## Updates -/

namespace Agent.Joined

variable {law : Agent G → Agent G → Prop} {one other : Agent G}

/-- An action that is held counts as the current one on both sides. -/
theorem current_action?_eq (h : Joined ids tree flat law one other) (kept : NodeId → Bool) :
    other.currentAction? kept = one.currentAction? kept := by
  rw [currentAction?, currentAction?, h.held_action?_eq]
  cases hheld : one.heldAction? with
  | none => rfl
  | some action =>
      obtain ⟨hone, hother⟩ := h.toBeside.alive (h.held action hheld) kept
      simp [Option.filter, hone, hother]

/-- The same action goes first on both sides. -/
theorem pressing_action?_eq (h : Joined ids tree flat law one other) (kept : NodeId → Bool) :
    other.pressingAction? kept = one.pressingAction? kept := by
  rw [pressingAction?, pressingAction?, h.current_action?_eq]

/-- The beginning of a tick leaves agents joined. -/
theorem next_tick (h : Joined ids tree flat law one other) (hlaw : LocalLaw ids law) :
    Joined ids tree flat law one.nextTick other.nextTick where
  toBeside :=
    { h.toBeside with ticks := congrArg (· + 1) h.ticks, entries := h.entries, held := h.held }
  law := hlaw.move h.law (fun _ _ _ => rfl) fun _ _ _ => rfl

/-- Agents stay joined when an update stores the same status for both. -/
theorem with_status (h : Joined ids tree flat law one other) (hlaw : LocalLaw ids law)
    (status : Status) :
    Joined ids tree flat law (one.withStatus status) (other.withStatus status) where
  toBeside := { h.toBeside with status := rfl, entries := h.entries, held := h.held }
  law := hlaw.move h.law (fun _ _ _ => rfl) fun _ _ _ => rfl

/-- Agents stay joined when both are paused or woken. -/
theorem pause (h : Joined ids tree flat law one other) (hlaw : LocalLaw ids law) (paused : Bool) :
    Joined ids tree flat law { one with paused } { other with paused } where
  toBeside := { h.toBeside with paused := rfl, entries := h.entries, held := h.held }
  law := hlaw.move h.law (fun _ _ _ => rfl) fun _ _ _ => rfl

end Agent.Joined

/-- Two trees that are executed in accord under a game that cannot tell, with leaves that use none
of the identities. -/
structure Graft (fair : NodeId × Status → Prop) (rules : Rules G) (ids : List NodeId)
    (tree flat : Tree G) (law : Agent G → Agent G → Prop) : Prop where
  locality : rules.Local [tree]
  obeyed : LocalLaw ids law
  apart : ∀ leaf, tree.Shares flat leaf → leaf.id ∉ ids
  root : ∀ kept kept' elapsed, tree.toNode.InAccord fair rules kept kept' elapsed
    (Agent.Joined ids tree flat law) flat.toNode

namespace Node.Grafts

variable {old new : Node G}

/-- The leaves of the tree stand in the other one as well if those of the subtree do. -/
theorem shares (h : old.Grafts new tree.toNode flat.toNode)
    (hkept : ∀ leaf ∈ old.preorder, leaf.family = .action → leaf ∈ new.preorder) :
    ∀ leaf ∈ tree.toNode.preorder, leaf.family = .action → flat.contains leaf.id = true :=
  fun leaf hmem hleaf =>
    List.any_eq_true.2 ⟨leaf, h.leaf_mem hkept hmem hleaf, beq_self_eq_true leaf.id⟩

/-- A subtree may be replaced by one that is executed in accord, if the identities are those of
inner nodes of it or do not stand in the tree. -/
theorem graft (h : old.Grafts new tree.toNode flat.toNode) (hrules : rules.Local [tree])
    (hshallow : rules.Shallow) (hdistinct : tree.toNode.Distinct) (hlaw : LocalLaw ids law)
    (hkept : ∀ leaf ∈ old.preorder, leaf.family = .action → leaf ∈ new.preorder)
    (hids : ∀ id ∈ ids, id ∈ tree.toNode.ids → id ∈ old.ids)
    (hapart : ∀ leaf ∈ old.preorder, leaf.family = .action → leaf.id ∉ ids)
    (hold : ∀ kept kept' elapsed,
      old.InAccord fair rules kept kept' elapsed (Agent.Joined ids tree flat law) new) :
    Graft fair rules ids tree flat law where
  locality := hrules
  obeyed := hlaw
  apart leaf hleaf hid := by
    have hleafId : leaf.id ∈ tree.toNode.ids := mem_ids.2 ⟨leaf, hleaf.mem, rfl⟩
    obtain ⟨low, hlow, heq⟩ := mem_ids.1 (hids leaf.id hid hleafId)
    obtain rfl :=
      List.inj_on_of_nodup_map hdistinct (preorder_trans h.old_mem hlow) hleaf.mem heq
    exact hapart low hlow hleaf.family hid
  root kept kept' elapsed := h.accords hrules hshallow hlaw tree.toNode.self_mem_preorder hdistinct
    hids (h.shares hkept) (hold kept kept' elapsed)

end Node.Grafts

namespace Graft

/-- A leaf that both trees share is in accord with itself. -/
theorem leaf_accords (h : Graft fair rules ids tree flat law) {action : Node G}
    (hshares : tree.Shares flat action) :
    action.InAccord fair rules kept kept' elapsed (Agent.Joined ids tree flat law) action :=
  Node.leaf_accords (h.obeyed.attuned h.locality hshares.mem (h.apart action hshares)
    fun _ => hshares.contains) hshares.family

/-- Joined agents are abreast of each other. -/
theorem abreast (h : Graft fair rules ids tree flat law) (kept : NodeId → Bool) :
    Agent.Abreast fair (Agent.Joined ids tree flat law) rules kept kept tree flat := by
  have hshares : ∀ {one other : Agent G}, Agent.Joined ids tree flat law one other →
      ∀ action ∈ one.pressingAction? kept, tree.Shares flat action :=
    fun hjoined action hpressing => hjoined.held action
      (Agent.current_action?_eq_some.1 (Agent.pressing_action?_eq_some.1 hpressing).1).1
  exact {
    status := fun hjoined => hjoined.status
    paused := fun hjoined => hjoined.paused
    attached := fun hjoined => hjoined.attached
    attached' := fun hjoined => hjoined.attached'
    pressing := fun hjoined => hjoined.pressing_action?_eq kept
    nextTick := fun hjoined => hjoined.next_tick h.obeyed
    withStatus := fun hjoined => hjoined.with_status h.obeyed
    root := fun elapsed => h.root _ _ elapsed
    concord := fun hjoined action hpressing =>
      h.obeyed.concord (h.apart action (hshares hjoined action hpressing))
    action := fun hjoined action hpressing _ => h.leaf_accords (hshares hjoined action hpressing) }

end Graft

/-! ## Runs -/

/-- A glimpse of a command that takes in the current action of the agent after it. -/
structure Scene (G : Game) extends Glimpse where
  current : Option (Node G)

namespace Command

/-- What one sees of commands, one after the other. -/
def scenes (rules : Rules G) (kept : NodeId → Bool) : List (Command G) → Agent G → List (Scene G)
  | [], _ => []
  | command :: rest, agent =>
      let outcome := command.play rules agent
      ⟨⟨outcome.agent.status, calls outcome.notes, outcome.agent.selection⟩,
          outcome.agent.currentAction? kept⟩ ::
        scenes rules kept rest outcome.agent

/-- What one sees of an agent that is given a tree and then commanded. -/
theorem scenes_set_behavior (kept : NodeId → Bool) (tree : Tree G) (commands : List (Command G))
    (entity : EntityId) :
    scenes rules kept (.setBehavior kept tree :: commands) (Agent.fresh entity) =
      ⟨⟨.unknown, [], []⟩, none⟩ :: scenes rules kept commands (Agent.freshWith entity tree) := by
  obtain ⟨hagent, hnotes⟩ := Agent.set_behavior_apply kept tree (Agent.fresh entity)
  rw [scenes, play, Play.map_apply]
  simp only [hagent, calls_of_reports hnotes]
  rfl

variable {one other : Agent G}

/-- Commands that leave the tree alone are carried out in accord. -/
theorem play_accords (h : Graft fair rules ids tree flat law) {command : Command G}
    (hcommand : command.LeavesTree) :
    (command.play rules).AccordsWhile fair (Agent.Joined ids tree flat law)
      (command.play rules) := by
  cases command with
  | update kept elapsed =>
      rw [play, map_eq_pure_bind]
      exact ((h.abreast kept).update_accords elapsed).bind fun _ => (Play.accords_pure ()).guarded
  | setBehavior | takeBehavior => exact hcommand.elim
  | setSelection selection =>
      exact (Play.accords_change fun hjoined => ⟨hjoined.toBeside.select fun _ => selection,
        h.obeyed.move hjoined.law (fun _ _ _ => rfl) fun _ _ _ => rfl⟩).guarded
  | setPaused paused =>
      exact (Play.accords_change fun hjoined => hjoined.pause h.obeyed paused).guarded

/-- What one sees of joined agents is the same, command by command, as long as executions are
fair. -/
theorem scenes_eq (h : Graft fair rules ids tree flat law) {commands : List (Command G)}
    (hcommands : ∀ command ∈ commands, command.LeavesTree) (kept : NodeId → Bool)
    (hjoined : Agent.Joined ids tree flat law one other)
    (hfair : ∀ execution ∈ executions (playAll rules commands one).notes, fair execution) :
    scenes rules kept commands one = scenes rules kept commands other := by
  induction commands generalizing one other with
  | nil => rfl
  | cons command rest ih =>
      obtain ⟨hcommand, hrest⟩ := List.forall_mem_cons.1 hcommands
      rw [playAll, Play.bind_apply, executions_append, List.forall_mem_append] at hfair
      obtain ⟨-, hcalls, hplayed⟩ := play_accords h hcommand one other hjoined hfair.1
      rw [scenes, scenes, ih hrest hplayed hfair.2]
      simp only [hplayed.status, hplayed.selection, hplayed.current_action?_eq, hcalls]

end Command

/-- New agents with the two trees stand beside each other. -/
theorem Agent.fresh_with_beside (entity : EntityId) (ids : List NodeId) (tree flat : Tree G) :
    (Agent.freshWith entity tree).Beside ids tree flat (Agent.freshWith entity flat) where
  entity := rfl
  status := rfl
  selection := rfl
  paused := rfl
  ticks := rfl
  attached := rfl
  attached' := rfl
  entries _ _ _ := rfl
  held := nofun

/-- Nobody sees which of two such trees a new agent runs, as long as executions are fair. -/
theorem Graft.unseen (h : Graft fair rules ids tree flat law) {commands : List (Command G)}
    (hcommands : ∀ command ∈ commands, command.LeavesTree) (entity : EntityId)
    (kept : NodeId → Bool) (hlaw : law (Agent.freshWith entity tree) (Agent.freshWith entity flat))
    (hfair : ∀ execution ∈ executions (Command.playAll rules
      (.setBehavior kept tree :: commands) (Agent.fresh entity)).notes, fair execution) :
    Command.scenes rules kept (.setBehavior kept tree :: commands) (Agent.fresh entity) =
      Command.scenes rules kept (.setBehavior kept flat :: commands) (Agent.fresh entity) := by
  rw [Command.scenes_set_behavior, Command.scenes_set_behavior]
  refine congrArg (_ :: ·) (Command.scenes_eq h hcommands kept
    ⟨Agent.fresh_with_beside entity ids tree flat, hlaw⟩ fun execution hexecution => hfair _ ?_)
  rw [Command.playAll, Play.bind_apply, executions_append, Command.play, Play.map_apply,
    (Agent.set_behavior_apply kept tree (Agent.fresh entity)).1]
  exact List.mem_append_right _ hexecution

end BehaviorTree
