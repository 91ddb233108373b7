import BehaviorTree.Proofs.Course
import BehaviorTree.Proofs.Pairing

/-!
# The surroundings of an agent

What others keep in use reaches an update in one place only: a must-complete action that the agent
still holds counts as long as somebody has it in use. Two surroundings in which that action is
alive alike therefore make no difference (`Agent.update_surroundings`).

The proof runs the same agent in both surroundings side by side. `Agent.Agrees` is the relation
that the two runs keep, and `Rules.Steady` what it takes of the logic of a game.
-/

namespace BehaviorTree

variable {G : Game} {α : Type}

/-! ## Steady rules -/

/-- The entity of an agent stays, and no action is held that was not held before. -/
def Passage.steady : Passage G where
  allows before _ after :=
    after.entity = before.entity ∧ ∀ action ∈ after.heldAction?, action ∈ before.heldAction?
  stay _ := ⟨rfl, fun _ h => h⟩
  join hfirst hsecond :=
    ⟨hsecond.1.trans hfirst.1, fun action h => hfirst.2 action (hsecond.2 action h)⟩

/-- The logic of a game leaves entities alone and has no agent hold an action. It may do anything
else to an agent, such as pausing it or taking its tree away. -/
structure Rules.Steady (rules : Rules G) : Prop where
  enter : ∀ leaf id, (rules.enter leaf id).Keeps .steady
  act : ∀ leaf id elapsed, (rules.act leaf id elapsed).Keeps .steady
  test : ∀ test node, (rules.test test node).Keeps .steady
  sift : ∀ sieve, (rules.sift sieve).Keeps .steady

/-- A game whose leaves answer by the clock alone is steady. -/
theorem Rules.clocked_steady {Leaf : Type} (answer : Leaf → Nat → Status) :
    (Rules.clocked answer).Steady where
  enter _ _ := Play.keeps_pure ()
  act _ _ _ := Play.keeps_pure _
  test := nofun
  sift := nofun

/-! ## The same agent in two surroundings -/

namespace Agent

/-- One agent of a given entity in two surroundings: if it holds a must-complete action, that is in
use in both of them or in none. -/
structure Agrees (inUse inUse' : NodeId → Bool) (entity : EntityId) (one other : Agent G) :
    Prop where
  same : other = one
  entity : one.entity = entity
  held : ∀ action ∈ one.heldAction?, action.mustComplete → inUse action.id = inUse' action.id

namespace Agrees

variable {inUse inUse' : NodeId → Bool} {entity : EntityId} {one other : Agent G}
  {rules : Rules G}

/-- What leaves the entity alone and has nothing held anew keeps the relation. -/
theorem step (h : one.Agrees inUse inUse' entity other) (change : Agent G → Agent G)
    (hsteady : Passage.steady.allows one [] (change one)) :
    (change one).Agrees inUse inUse' entity (change other) where
  same := congrArg change h.same
  entity := hsteady.1.trans h.entity
  held action haction := h.held action (hsteady.2 action haction)

/-- A steady play does the same in both surroundings. -/
theorem pairs_of_keeps {play : Play G α} (hplay : play.Keeps .steady) :
    play.Pairs (Agrees inUse inUse' entity) play := by
  intro first second h
  have hagents := h.step (fun agent => (play agent).agent) (hplay first)
  exact ⟨by rw [h.same], hagents⟩

/-- The logic of a steady game does the same in both surroundings. -/
theorem rules_pairs (hrules : rules.Steady) :
    rules.Pairs (fun id => id) (Agrees inUse inUse' entity) where
  enter leaf id := pairs_of_keeps (hrules.enter leaf id)
  act leaf id elapsed := pairs_of_keeps (hrules.act leaf id elapsed)
  test test node := by
    rw [node.renamed_id]
    exact pairs_of_keeps (hrules.test test node)
  sift sieve := pairs_of_keeps (hrules.sift sieve)

/-- A filter of a steady game does the same in both surroundings. -/
theorem filter_pairs (hrules : rules.Steady) (filter : Filter G) :
    (filter.run rules).Pairs (Agrees inUse inUse' entity) (filter.run rules) := by
  refine pairs_of_keeps ?_
  cases filter with
  | clear | unique | first | exclude => exact Play.keeps_change fun _ => ⟨rfl, fun _ h => h⟩
  | game name sieve => exact hrules.sift sieve

/-- To remember something at a node is steady. -/
theorem steady_remember (agent : Agent G) {slot : Slot G} (hslot : slot.IsNodal) (key : Nat)
    (value : slot.Value) : Passage.steady.allows agent [] (agent.remember slot key value) := by
  have hheld : (agent.remember slot key value).heldAction? = agent.heldAction? :=
    agent.get?_remember_of_ne slot value fun heq => by
      rw [← heq.1] at hslot
      exact hslot
  exact ⟨rfl, fun action h => hheld ▸ h⟩

/-- To forget something at a node is steady. -/
theorem steady_forget (agent : Agent G) {slot : Slot G} (hslot : slot.IsNodal) (key : Nat) :
    Passage.steady.allows agent [] (agent.forget slot key) := by
  have hheld : (agent.forget slot key).heldAction? = agent.heldAction? :=
    agent.get?_forget_of_ne fun heq => by
      rw [← heq.1] at hslot
      exact hslot
  exact ⟨rfl, fun action h => hheld ▸ h⟩

/-- To release an action is steady. -/
theorem steady_release (agent : Agent G) (id : NodeId) :
    Passage.steady.allows agent [] (agent.release id) := by
  refine ⟨(agent.stands_release id).entity, fun action h => ?_⟩
  rw [agent.held_action?_release] at h
  exact (Option.mem_filter_iff.1 h).1

/-- The engine does the same with an agent in both surroundings. -/
theorem correspondence : Correspondence (fun id => id) (Agrees (G := G) inUse inUse' entity) where
  status h := congrArg Agent.status h.same
  selection h := congrArg Agent.selection h.same
  entry h slot _ id := by rw [h.same]
  withStatus h status := h.step (·.withStatus status) ⟨rfl, fun _ h => h⟩
  select h change := h.step (·.select change) ⟨rfl, fun _ h => h⟩
  remember {one _} h slot hslot id value :=
    h.step (·.remember slot id.raw value) (steady_remember one hslot id.raw value)
  forget {one _} h slot hslot id :=
    h.step (·.forget slot id.raw) (steady_forget one hslot id.raw)
  record h id status := h.step (·.record id status) ⟨rfl, fun _ h => h⟩
  release {one _} h id := h.step (·.release id) (steady_release one id)

/-- An action that is in use in both surroundings or in none is held in both or in none. -/
theorem hold (h : one.Agrees inUse inUse' entity other) {action : Node G}
    (haction : inUse action.id = inUse' action.id) :
    (one.hold inUse action).Agrees inUse inUse' entity (other.hold inUse' action) := by
  obtain ⟨rfl, hentity, hheld⟩ := h
  have hsame : other.hold inUse' action = other.hold inUse action := by
    unfold Agent.hold
    cases heq : other.heldAction? with
    | none => rfl
    | some held =>
        -- The action that is held matters only if it has to complete, and then it is alive alike.
        have hpinned : (held.mustComplete = true ∧ other.alive inUse' held.id = true) ↔
            (held.mustComplete = true ∧ other.alive inUse held.id = true) :=
          and_congr_right fun hmust => by rw [alive, alive, hheld held heq hmust]
        simp only [hpinned]
  refine ⟨hsame, (stands_hold inUse other action).entity.trans hentity, fun held hmem => ?_⟩
  rcases held_action?_hold inUse other action with hnew | ⟨_, -, hold⟩
  · rw [hnew] at hmem
    exact fun _ => Option.some.inj hmem ▸ haction
  · rw [hold] at hmem
    exact hheld held hmem

/-- To follow up a leaf that is alive in both surroundings or in none is the same in both. -/
theorem follow (h : one.Agrees inUse inUse' entity other) {action : Node G}
    (haction : inUse action.id = inUse' action.id) (status : Status) :
    (one.follow inUse action status).Agrees inUse inUse' entity
      (other.follow inUse' action status) := by
  cases status with
  | running => exact h.hold haction
  | finished | failed => exact correspondence.release h action.id
  | unknown | canNotExecute => exact h

/-- An execution of a node pairs with itself if its nodes are in use in both surroundings or in
none. -/
theorem execute_pairs (hrules : rules.Steady) {node : Node G}
    (hnodes : ∀ below ∈ node.preorder, inUse below.id = inUse' below.id) (elapsed : Nat) :
    (node.execute rules inUse elapsed).Pairs (Agrees inUse inUse' entity)
      ((node.renamed fun id => id).execute rules inUse' elapsed) :=
  Node.execute_pairs correspondence (rules_pairs hrules) fun below hbelow =>
    { filters := fun filter _ => filter_pairs hrules filter
      follow := fun _ _ _ h status => by
        rw [below.renamed_id]
        exact h.follow (hnodes below hbelow) status }

end Agrees

end Agent

/-- There is nothing below a node that must complete. -/
theorem Node.preorder_of_must_complete {node : Node G} (h : node.mustComplete = true) :
    node.preorder = [node] := by
  cases node with
  | composite | decorator => simp [Node.mustComplete] at h
  | timed | action => rfl

/-! ## Updates -/

namespace Agent

variable {rules : Rules G} {kept kept' : NodeId → Bool} {agent : Agent G}

/-- An agent is indifferent between two surroundings if the must-complete action that it holds, if
any, is alive in both or in none. -/
def Indifferent (kept kept' : NodeId → Bool) (agent : Agent G) : Prop :=
  ∀ held ∈ agent.heldAction?, held.mustComplete →
    agent.alive kept held.id = agent.alive kept' held.id

instance (kept kept' : NodeId → Bool) (agent : Agent G) :
    Decidable (agent.Indifferent kept kept') :=
  inferInstanceAs (Decidable (∀ held ∈ agent.heldAction?, held.mustComplete →
    agent.alive kept held.id = agent.alive kept' held.id))

/-- An agent is indifferent between a surrounding and itself. -/
theorem Indifferent.refl (kept : NodeId → Bool) (agent : Agent G) :
    agent.Indifferent kept kept := fun _ _ _ => rfl

/-- An indifferent agent has the same action go ahead of the tree in both surroundings. -/
theorem Indifferent.pressing_action?_eq (h : agent.Indifferent kept kept') :
    agent.pressingAction? kept' = agent.pressingAction? kept := by
  refine Option.ext fun action => ?_
  rw [pressing_action?_eq_some, pressing_action?_eq_some, current_action?_eq_some,
    current_action?_eq_some]
  constructor
  · rintro ⟨⟨hheld, halive⟩, hmust⟩
    exact ⟨⟨hheld, (h action hheld hmust).trans halive⟩, hmust⟩
  · rintro ⟨⟨hheld, halive⟩, hmust⟩
    exact ⟨⟨hheld, (h action hheld hmust).symm.trans halive⟩, hmust⟩

/-- An update comes out the same in surroundings between which the agent is indifferent, and the
entity of the agent stays. -/
theorem update_surroundings (hrules : rules.Steady) (h : agent.Indifferent kept kept')
    (elapsed : Nat) :
    (Agent.update rules kept' elapsed agent).value = (Agent.update rules kept elapsed agent).value ∧
      (Agent.update rules kept' elapsed agent).agent =
        (Agent.update rules kept elapsed agent).agent ∧
      (Agent.update rules kept elapsed agent).agent.entity = agent.entity := by
  by_cases hidle : agent.paused = true ∨ agent.behavior = none
  · rw [update_idle hidle, update_idle hidle]
    exact ⟨rfl, rfl, rfl⟩
  have hpaused : agent.paused = false := by simpa using fun hp => hidle (.inl hp)
  obtain ⟨tree, hbehavior⟩ := Option.ne_none_iff_exists'.1 fun hb => hidle (.inr hb)
  have hheld : ∀ held ∈ agent.heldAction?, held.mustComplete →
      tree.inUse kept held.id = tree.inUse kept' held.id := by
    intro held hmem hmust
    rw [← alive_eq_in_use hbehavior, ← alive_eq_in_use hbehavior]
    exact h held hmem hmust
  have hpressing : agent.pressingAction? kept' =
      (agent.pressingAction? kept).map (Node.renamed fun id => id) := by
    rw [h.pressing_action?_eq, funext (Node.renamed_id (G := G)), Option.map_id']
  have htree : (tree.toNode.execute rules (tree.inUse kept) elapsed).Pairs
      (Agrees (tree.inUse kept) (tree.inUse kept') agent.entity)
      ((tree.toNode.renamed fun id => id).execute rules
        ((tree.renamed fun id => id).inUse kept') elapsed) := by
    rw [tree.renamed_id]
    refine Agrees.execute_pairs hrules (fun below hbelow => ?_) elapsed
    rw [Tree.in_use_of_mem hbelow, Tree.in_use_of_mem hbelow]
  have haction : ∀ action ∈ agent.pressingAction? kept,
      (action.execute rules (tree.inUse kept) elapsed).Pairs
        (Agrees (tree.inUse kept) (tree.inUse kept') agent.entity)
        ((action.renamed fun id => id).execute rules
          ((tree.renamed fun id => id).inUse kept') elapsed) := by
    intro action hmem
    obtain ⟨hcurrent, hmust⟩ := pressing_action?_eq_some.1 hmem
    rw [tree.renamed_id]
    refine Agrees.execute_pairs hrules (fun below hbelow => ?_) elapsed
    -- A must-complete action is a leaf, so it is the only node that is executed.
    rw [action.preorder_of_must_complete hmust, List.mem_singleton] at hbelow
    rw [hbelow]
    exact hheld action (current_action?_eq_some.1 hcurrent).1 hmust
  obtain ⟨hvalue, hagrees⟩ := update_pairs Agrees.correspondence ⟨rfl, rfl, hheld⟩ hpaused hpaused
    hbehavior (by rw [tree.renamed_id, hbehavior]) hpressing htree haction
  exact ⟨hvalue, hagrees.same, hagrees.entity⟩

/-- An update leaves the entity of an agent alone. -/
theorem entity_update (hrules : rules.Steady) (kept : NodeId → Bool) (elapsed : Nat)
    (agent : Agent G) : (Agent.update rules kept elapsed agent).agent.entity = agent.entity :=
  (update_surroundings hrules (.refl kept agent) elapsed).2.2

end Agent

end BehaviorTree
