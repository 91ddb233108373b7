import BehaviorTree.Proofs.Accord
import BehaviorTree.Proofs.FastPath
import BehaviorTree.Proofs.Locality

/-!
# Agents beside each other

Two trees may differ in nodes that carry identities of their own. `Agent.Beside` relates an agent
that runs one of them with an agent that runs the other: they differ in what is kept under these
identities alone. A law about what is kept there is obeyed whatever goes on elsewhere
(`Agent.Joined`), so nodes with other identities are executed in accord.
-/

namespace BehaviorTree

variable {G : Game} {α : Type}

/-! ## Regions -/

/-- The entries under some identities, except for the current action, which is under an entity. -/
def Region.among (ids : List NodeId) : Region G := fun slot key =>
  slot ≠ .currentAction ∧ ∃ id ∈ ids, id.raw = key

/-- The current action and everything that is not kept under some identities. -/
def Region.beyond (ids : List NodeId) : Region G := fun slot key => ¬ among ids slot key

namespace Region

variable {ids : List NodeId} {id : NodeId} {slot : Slot G}

/-- An entry under one of the identities is among them, unless it is the current action. -/
theorem among_of_mem (hid : id ∈ ids) (hslot : slot ≠ .currentAction) : among ids slot id.raw :=
  ⟨hslot, id, hid, rfl⟩

/-- No entry under another identity is among them. -/
theorem not_among (hid : id ∉ ids) (slot : Slot G) : ¬ among ids slot id.raw := by
  rintro ⟨-, other, hother, hraw⟩
  exact hid (NodeId.raw_inj.1 hraw ▸ hother)

/-- Every entry under another identity is beyond them. -/
theorem beyond_of_not_mem (hid : id ∉ ids) (slot : Slot G) : beyond ids slot id.raw :=
  not_among hid slot

/-- The current action is beyond all identities. -/
theorem beyond_current (ids : List NodeId) (key : Nat) :
    beyond ids (.currentAction : Slot G) key := fun h => h.1 rfl

/-- An entry under one of the identities is not beyond them, unless it is the current action. -/
theorem not_beyond (hid : id ∈ ids) (hslot : slot ≠ .currentAction) :
    ¬ beyond ids slot id.raw := not_not.2 (among_of_mem hid hslot)

end Region

/-! ## Agents on the two sides -/

/-- A leaf of a tree whose identity stands in another tree as well. -/
structure Tree.Shares (tree flat : Tree G) (leaf : Node G) : Prop where
  family : leaf.family = .action
  mem : leaf ∈ tree.toNode.preorder
  contains : flat.contains leaf.id = true

namespace Agent

/-- An agent that runs a tree, and one that runs another tree and differs from it in what is kept
under some identities alone. -/
structure Beside (ids : List NodeId) (tree flat : Tree G) (one other : Agent G) : Prop where
  entity : other.entity = one.entity
  status : other.status = one.status
  selection : other.selection = one.selection
  paused : other.paused = one.paused
  ticks : other.ticks = one.ticks
  attached : one.behavior = some tree
  attached' : other.behavior = some flat
  entries : one.Spares (.among ids) other
  held : ∀ action, one.heldAction? = some action → tree.Shares flat action

namespace Beside

variable {ids : List NodeId} {tree flat : Tree G} {one other one' other' : Agent G}
  {kept kept' : NodeId → Bool}

/-- Agents beside each other hold the same action. -/
theorem held_action?_eq (h : one.Beside ids tree flat other) :
    other.heldAction? = one.heldAction? :=
  h.entries.held_action?_eq h.entity fun h => h.1 rfl

/-- What stays agreed but for the identities leaves agents beside each other. -/
theorem step (h : one.Beside ids tree flat other) (hone : one.Stands one')
    (hother : other.Stands other') (hselection : other'.selection = one'.selection)
    (hentries : one'.Spares (.among ids) other')
    (hheld : ∀ action, one'.heldAction? = some action → tree.Shares flat action) :
    one'.Beside ids tree flat other' where
  entity := by rw [hother.entity, hone.entity, h.entity]
  status := by rw [hother.status, hone.status, h.status]
  selection := hselection
  paused := by rw [hother.paused, hone.paused, h.paused]
  ticks := by rw [hother.ticks, hone.ticks, h.ticks]
  attached := by rw [hone.behavior, h.attached]
  attached' := by rw [hother.behavior, h.attached']
  entries := hentries
  held := hheld

/-- What is kept under the identities may change on each side on its own. -/
theorem apart (h : one.Beside ids tree flat other) (hone : one.Stands one')
    (hother : other.Stands other') (hselection : one'.selection = one.selection)
    (hselection' : other'.selection = other.selection) (hspares : one.Spares (.among ids) one')
    (hspares' : other.Spares (.among ids) other') : one'.Beside ids tree flat other' := by
  refine h.step hone hother (by rw [hselection, hselection', h.selection])
    ((hspares.symm.trans h.entries).trans hspares') ?_
  rw [hspares.held_action?_eq hone.entity fun h => h.1 rfl]
  exact h.held

/-- Agents stay beside each other when both remember the same. -/
theorem remember (h : one.Beside ids tree flat other) (slot : Slot G)
    (hslot : slot ≠ .currentAction) (key : Nat) (value : slot.Value) :
    (one.remember slot key value).Beside ids tree flat (other.remember slot key value) := by
  have hheld : (one.remember slot key value).heldAction? = one.heldAction? :=
    one.get?_remember_of_ne slot value fun heq => hslot heq.1.symm
  refine h.step ⟨rfl, rfl, rfl, rfl, rfl, rfl⟩ ⟨rfl, rfl, rfl, rfl, rfl, rfl⟩ h.selection
    (h.entries.remember slot key value) ?_
  rw [hheld]
  exact h.held

/-- Agents stay beside each other when both forget the same. -/
theorem forget (h : one.Beside ids tree flat other) (slot : Slot G) (hslot : slot ≠ .currentAction)
    (key : Nat) : (one.forget slot key).Beside ids tree flat (other.forget slot key) := by
  have hheld : (one.forget slot key).heldAction? = one.heldAction? :=
    one.get?_forget_of_ne fun heq => hslot heq.1.symm
  refine h.step ⟨rfl, rfl, rfl, rfl, rfl, rfl⟩ ⟨rfl, rfl, rfl, rfl, rfl, rfl⟩ h.selection
    (h.entries.forget slot key) ?_
  rw [hheld]
  exact h.held

/-- Agents stay beside each other when both record the same. -/
theorem record (h : one.Beside ids tree flat other) (id : NodeId) (status : Status) :
    (one.record id status).Beside ids tree flat (other.record id status) :=
  h.step ⟨rfl, rfl, rfl, rfl, rfl, rfl⟩ ⟨rfl, rfl, rfl, rfl, rfl, rfl⟩ h.selection h.entries h.held

/-- Agents stay beside each other when their selections are changed alike. -/
theorem select (h : one.Beside ids tree flat other) (change : List EntityId → List EntityId) :
    (one.select change).Beside ids tree flat (other.select change) :=
  h.step ⟨rfl, rfl, rfl, rfl, rfl, rfl⟩ ⟨rfl, rfl, rfl, rfl, rfl, rfl⟩ (congrArg change h.selection)
    h.entries h.held

/-! ### The current action -/

/-- The action that is held is in use on both sides. -/
theorem alive (h : one.Beside ids tree flat other) {action : Node G}
    (hshares : tree.Shares flat action) (kept : NodeId → Bool) :
    one.alive kept action.id = true ∧ other.alive kept action.id = true := by
  have htree : tree.contains action.id = true :=
    List.any_eq_true.2 ⟨action, hshares.mem, beq_self_eq_true _⟩
  simp [Agent.alive, owns, h.attached, h.attached', htree, hshares.contains]

/-- Agents stay beside each other when a leaf that both trees share becomes the current action. -/
theorem remember_action (h : one.Beside ids tree flat other) {action : Node G}
    (hshares : tree.Shares flat action) :
    (one.remember .currentAction one.entity action).Beside ids tree flat
      (other.remember .currentAction other.entity action) := by
  rw [h.entity]
  refine h.step ⟨rfl, rfl, rfl, rfl, rfl, rfl⟩ ⟨rfl, rfl, rfl, rfl, rfl, rfl⟩ h.selection
    (h.entries.remember .currentAction one.entity action) fun held hheld => ?_
  have hself : (one.remember .currentAction one.entity action).heldAction? = some action :=
    one.context.get?_set_self .currentAction one.entity action
  rw [← Option.some.inj (hself.symm.trans hheld)]
  exact hshares

/-- Agents stay beside each other when both hold a leaf that both trees share. -/
theorem hold (h : one.Beside ids tree flat other) {action : Node G}
    (hshares : tree.Shares flat action) :
    (one.hold kept action).Beside ids tree flat (other.hold kept' action) := by
  unfold Agent.hold
  rw [h.held_action?_eq]
  cases hheld : one.heldAction? with
  | none => exact h.remember_action hshares
  | some held =>
      have hone := (h.alive (h.held held hheld) kept).1
      have hother := (h.alive (h.held held hheld) kept').2
      simp only [hone, hother]
      split
      · exact h
      · exact h.remember_action hshares

/-- Agents stay beside each other when both release an action. -/
theorem release (h : one.Beside ids tree flat other) (id : NodeId) :
    (one.release id).Beside ids tree flat (other.release id) := by
  have hforget : (one.forget .currentAction one.entity).Beside ids tree flat
      (other.forget .currentAction other.entity) := by
    rw [h.entity]
    refine h.step ⟨rfl, rfl, rfl, rfl, rfl, rfl⟩ ⟨rfl, rfl, rfl, rfl, rfl, rfl⟩ h.selection
      (h.entries.forget .currentAction one.entity) fun held hheld => ?_
    have hnone : (one.forget .currentAction one.entity).heldAction? = none :=
      one.context.get?_remove_self .currentAction one.entity
    exact absurd (hnone.symm.trans hheld) (by simp)
  unfold Agent.release
  rw [h.held_action?_eq]
  cases one.heldAction? with
  | none => exact h
  | some held =>
      dsimp only
      split
      · exact hforget
      · exact h

/-- Agents stay beside each other when a leaf that both trees share is followed up. -/
theorem follow (h : one.Beside ids tree flat other) {action : Node G}
    (hshares : tree.Shares flat action) (status : Status) :
    (one.follow kept action status).Beside ids tree flat (other.follow kept' action status) := by
  cases status with
  | running => exact h.hold hshares
  | finished | failed => exact h.release action.id
  | unknown | canNotExecute => exact h

/-! ### Games -/

/-- Agents beside each other keep the same under every other identity. -/
theorem get?_eq (h : one.Beside ids tree flat other) {id : NodeId} (hid : id ∉ ids)
    (slot : Slot G) : other.context.get? slot id.raw = one.context.get? slot id.raw :=
  h.entries slot id.raw (Region.not_among hid slot)

/-- What is local to a node with another identity does the same on both sides. -/
theorem local_to (h : one.Beside ids tree flat other) {id : NodeId} (hid : id ∉ ids)
    {play : Play G α} (hplay : play.LocalTo id) :
    (play other).value = (play one).value ∧ (play other).notes = (play one).notes ∧
      (play one).agent.Beside ids tree flat (play other).agent := by
  have hsame : one.SameAt id other :=
    ⟨h.entity, h.ticks, h.selection, fun slot _ => h.get?_eq hid slot⟩
  obtain ⟨hvalue, hnotes, hafter⟩ := hplay.reads hsame
  have hwrites := hplay.writes one
  have hwrites' := hplay.writes other
  refine ⟨hvalue, hnotes, h.step hwrites.stands hwrites'.stands hafter.selection ?_ ?_⟩
  · intro slot key hout
    by_cases hin : slot.IsOpen ∧ key = id.raw
    · obtain ⟨hopen, rfl⟩ := hin
      exact hafter.entries slot hopen
    · rw [hwrites'.spares slot key hin, hwrites.spares slot key hin]
      exact h.entries slot key hout
  · rw [hwrites.spares.held_action?_eq hwrites.stands.entity fun hin => hin.1]
    exact h.held

end Beside

/-- Agents beside each other that obey a law. -/
structure Joined (ids : List NodeId) (tree flat : Tree G) (law : Agent G → Agent G → Prop)
    (one other : Agent G) : Prop extends one.Beside ids tree flat other where
  law : law one other

end Agent

/-- A law that speaks of nothing but what is kept under some identities. -/
structure LocalLaw (ids : List NodeId) (law : Agent G → Agent G → Prop) : Prop where
  move : ∀ {one other one' other' : Agent G}, law one other → one.Spares (.beyond ids) one' →
    other.Spares (.beyond ids) other' → law one' other'

/-- The law that what is kept under some identities has stayed the same on both sides since some
moment. -/
def Agent.Since (ids : List NodeId) (start start' one other : Agent G) : Prop :=
  start.Spares (.beyond ids) one ∧ start'.Spares (.beyond ids) other

/-- To have stayed the same since some moment is a matter of what is kept under the identities
alone. -/
theorem Agent.since_local (ids : List NodeId) (start start' : Agent G) :
    LocalLaw ids (Since ids start start') where
  move h hone hother := ⟨h.1.trans hone, h.2.trans hother⟩

/-! ## Nodes with other identities -/

section Aloof

variable {ids : List NodeId} {tree flat : Tree G} {law : Agent G → Agent G → Prop}
  {rules : Rules G} {kept kept' : NodeId → Bool} {elapsed : Nat} {node : Node G} {id : NodeId}
  {fair : NodeId × Status → Prop}

/-- Where the identities are others, agents that are joined by a local law read and write alike. -/
theorem LocalLaw.concord (hlaw : LocalLaw ids law) (hid : id ∉ ids) :
    Concord (Agent.Joined ids tree flat law) id where
  entity h := h.entity
  selection h := h.selection
  entry h slot _ := h.get?_eq hid slot
  select h change :=
    ⟨h.toBeside.select change, hlaw.move h.law (fun _ _ _ => rfl) fun _ _ _ => rfl⟩
  remember {one other} h slot hslot value :=
    ⟨h.toBeside.remember slot hslot id.raw value,
      hlaw.move h.law (one.spares_remember _ slot value (Region.beyond_of_not_mem hid slot))
        (other.spares_remember _ slot value (Region.beyond_of_not_mem hid slot))⟩
  forget {one other} h slot hslot :=
    ⟨h.toBeside.forget slot hslot id.raw,
      hlaw.move h.law (one.spares_forget _ (Region.beyond_of_not_mem hid slot))
        (other.spares_forget _ (Region.beyond_of_not_mem hid slot))⟩
  record h status :=
    ⟨h.toBeside.record id status, hlaw.move h.law (fun _ _ _ => rfl) fun _ _ _ => rfl⟩
  release {one other} h :=
    ⟨h.toBeside.release id, hlaw.move h.law (one.spares_release _ id (Region.beyond_current ids _))
      (other.spares_release _ id (Region.beyond_current ids _))⟩

/-- A play that is local to another identity is in accord with itself. -/
theorem Play.LocalTo.accords {play : Play G α} (hplay : play.LocalTo id) (hid : id ∉ ids)
    (hlaw : LocalLaw ids law) : play.Accords (Agent.Joined ids tree flat law) play := by
  intro one other h
  obtain ⟨hvalue, hnotes, hagents⟩ := h.toBeside.local_to hid hplay
  have hspares : ∀ agent : Agent G, agent.Spares (.beyond ids) (play agent).agent := fun agent =>
    (hplay.writes agent).spares.mono fun slot _ hin =>
      hin.2 ▸ Region.beyond_of_not_mem hid slot
  exact ⟨hvalue, congrArg calls hnotes, hagents, hlaw.move h.law (hspares one) (hspares other)⟩

/-- A node of the tree with another identity is attuned. -/
theorem LocalLaw.attuned (hlaw : LocalLaw ids law) (hrules : rules.Local [tree])
    (hnode : node ∈ tree.toNode.preorder) (hid : node.id ∉ ids)
    (hshares : node.family = .action → flat.contains node.id = true) :
    node.Attuned rules (Agent.Joined ids tree flat law) kept kept' where
  concord := hlaw.concord hid
  rules :=
    { enter := fun leaf => (hrules.enter leaf node.id).accords hid hlaw
      act := fun leaf elapsed => (hrules.act leaf node.id elapsed).accords hid hlaw
      test := fun test => (hrules.test test node).accords hid hlaw
      sift := fun name sieve hsieve =>
        (hrules.sift node (mem_forest_nodes (List.mem_singleton_self tree) hnode) name sieve
          hsieve).accords hid hlaw }
  follow hleaf one other h status :=
    ⟨h.toBeside.follow ⟨hleaf, hnode, hshares hleaf⟩ status,
      hlaw.move h.law (one.spares_follow kept _ node status (Region.beyond_current ids _))
        (other.spares_follow kept' _ node status (Region.beyond_current ids _))⟩

/-- What stands in a tree under other identities, with leaves that stand in another tree as
well. -/
structure Node.Aloof (ids : List NodeId) (tree flat : Tree G) (node : Node G) : Prop where
  mem : node ∈ tree.toNode.preorder
  apart : ∀ id ∈ node.ids, id ∉ ids
  shares : ∀ leaf ∈ node.preorder, leaf.family = .action → flat.contains leaf.id = true

/-- A node of a tree that has none of the identities stands aloof from them. -/
theorem Node.Aloof.of_not_mem (hmem : node ∈ tree.toNode.preorder)
    (hshares : ∀ leaf ∈ tree.toNode.preorder, leaf.family = .action →
      flat.contains leaf.id = true)
    (hids : ∀ id ∈ ids, id ∉ node.ids) : node.Aloof ids tree flat where
  mem := hmem
  apart id hid hin := hids id hin hid
  shares leaf hleaf := hshares leaf (preorder_trans hmem hleaf)

/-- A subtree under other identities is executed in accord on both sides. -/
theorem Node.Aloof.accords (h : node.Aloof ids tree flat) (hrules : rules.Local [tree])
    (hlaw : LocalLaw ids law) :
    node.InAccord fair rules kept kept' elapsed (Agent.Joined ids tree flat law) node := by
  refine Node.execute_accords fun other hother => ?_
  exact hlaw.attuned hrules (Node.preorder_trans h.mem hother)
    (h.apart other.id (Node.mem_ids.2 ⟨other, hother, rfl⟩)) (h.shares other hother)

end Aloof

end BehaviorTree
