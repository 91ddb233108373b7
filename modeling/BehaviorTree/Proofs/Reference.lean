import BehaviorTree.Proofs.Course
import BehaviorTree.Proofs.Works

/-!
# What an agent refers to

An agent refers to the tree that it runs and to the action that it holds. A game is loyal to a
forest if it makes agents refer to nothing outside of it; then no execution, no update and no run
on trees of the forest does (`Command.play_refers`), and every node that a run executes is one of
the forest (`Command.play_executions_within`).
-/

namespace BehaviorTree

variable {G : Game} {rules : Rules G} {kept : NodeId → Bool} {elapsed : Nat}
  {forest : List (Tree G)} {node : Node G}

/-- The tree that an agent runs and the action that it holds are from a forest. -/
structure Agent.Refers (forest : List (Tree G)) (agent : Agent G) : Prop where
  behavior : ∀ tree ∈ agent.behavior, tree ∈ forest
  held : ∀ key node, agent.context.get? .currentAction key = some node →
    node ∈ forestNodes forest

namespace Agent.Refers

variable {agent after : Agent G}

/-- What spares the held action and stays in the forest makes an agent refer to nothing else. -/
theorem of_spares (h : agent.Refers forest) {region : Region G}
    (hspares : agent.Spares region after) (hregion : ∀ key, ¬ region .currentAction key)
    (hbehavior : ∀ tree ∈ after.behavior, tree ∈ forest) : after.Refers forest where
  behavior := hbehavior
  held key node hheld := h.held key node (hspares .currentAction key (hregion key) ▸ hheld)

/-- To hold a node of the forest makes an agent refer to nothing else. -/
theorem hold (h : agent.Refers forest) (hnode : node ∈ forestNodes forest) :
    (agent.hold kept node).Refers forest := by
  have hremember : (agent.remember .currentAction agent.entity node).Refers forest := by
    refine ⟨h.behavior, fun key other hother => ?_⟩
    by_cases hkey : key = agent.entity
    · rw [hkey] at hother
      have hself := agent.context.get?_set_self (Slot.currentAction : Slot G) agent.entity node
      rw [← Option.some.inj (hself.symm.trans hother)]
      exact hnode
    · refine h.held key other ?_
      rw [← hother]
      exact (agent.get?_remember_of_ne .currentAction node (by simp [hkey])).symm
  unfold Agent.hold
  split
  · split
    · exact h
    · exact hremember
  · exact hremember

/-- To release an action makes an agent refer to nothing else. -/
theorem release (h : agent.Refers forest) (id : NodeId) : (agent.release id).Refers forest := by
  have hforget : (agent.forget .currentAction agent.entity).Refers forest := by
    refine ⟨h.behavior, fun key other hother => ?_⟩
    by_cases hkey : key = agent.entity
    · rw [hkey] at hother
      have hself := agent.context.get?_remove_self (Slot.currentAction : Slot G) agent.entity
      exact absurd (hself.symm.trans hother) (by simp)
    · refine h.held key other ?_
      rw [← hother]
      exact (agent.get?_forget_of_ne (by simp [hkey])).symm
  unfold Agent.release
  split
  · split
    · exact hforget
    · exact h
  · exact h

end Agent.Refers

/-- Doings that make an agent refer to nothing outside a forest. -/
def Passage.referring (forest : List (Tree G)) : Passage G where
  allows before _ after := before.Refers forest → after.Refers forest
  stay _ := id
  join hfirst hsecond h := hsecond (hfirst h)

/-- What the engine does at a node of the forest makes an agent refer to nothing else. -/
theorem Passage.referring_works (hnode : node ∈ forestNodes forest) (kept : NodeId → Bool) :
    (Passage.referring forest).Works kept node where
  note _ _ _ := id
  select _ _ h := ⟨h.behavior, h.held⟩
  remember agent slot value hopen _ h := by
    refine h.of_spares (agent.spares_remember (fun other _ => other = slot) slot value rfl)
      (fun _ heq => ?_) h.behavior
    rw [← heq] at hopen
    exact hopen.elim
  forget agent slot _ hheld h :=
    h.of_spares (agent.spares_forget (fun other _ => other = slot) rfl)
      (fun _ heq => hheld heq.symm) h.behavior
  follow agent status h := by
    cases status with
    | running => exact h.hold hnode
    | finished | failed => exact h.release node.id
    | unknown | canNotExecute => exact h
  release agent h := h.release node.id

/-- To settle a result makes an agent refer to nothing else. -/
theorem Passage.referring_settle (agent : Agent G) (id : NodeId) (status : Status) :
    (Passage.referring forest).allows agent [.executed id status] (agent.settle id status) :=
  fun h => h.of_spares (agent.spares_settle (fun slot _ => slot = .status) status rfl) (by simp)
    h.behavior

/-- Wherever they stand in a forest, the leaves, conditions and filters of a game make an agent
refer to nothing outside of it. -/
def Rules.Loyal (rules : Rules G) (forest : List (Tree G)) : Prop :=
  ∀ node ∈ forestNodes forest, rules.Keep (.referring forest) node

/-- Executions in a forest make an agent refer to nothing outside of it. -/
theorem Node.execute_refers (hrules : rules.Loyal forest) (kept : NodeId → Bool) (elapsed : Nat)
    (hnode : node ∈ forestNodes forest) :
    (node.execute rules kept elapsed).Keeps (.referring forest) := by
  refine (Passage.referring forest).manner.execute fun other hother => ?_
  have hmem := forest_nodes_trans hnode hother
  exact (Passage.referring_works hmem kept).suits (hrules other hmem)
    fun agent => Passage.referring_settle agent other.id

/-! ## Updates and runs -/

namespace Agent

variable {agent after : Agent G}

/-- What an agent refers to is a matter of its tree and its context. -/
theorem Refers.congr (h : agent.Refers forest) (hcontext : after.context = agent.context)
    (hbehavior : ∀ tree ∈ after.behavior, tree ∈ forest) : after.Refers forest := by
  have hspares : agent.Spares (fun _ _ => False) after := fun _ _ _ => by rw [hcontext]
  exact h.of_spares hspares (fun _ => id) hbehavior

/-- The root of the tree that an agent runs is in the forest. -/
theorem Refers.root (h : agent.Refers forest) {tree : Tree G}
    (hbehavior : agent.behavior = some tree) : tree.toNode ∈ forestNodes forest :=
  mem_forest_nodes (h.behavior tree hbehavior) tree.toNode.self_mem_preorder

/-- An action that goes ahead of the tree is in the forest. -/
theorem Refers.pressing (h : agent.Refers forest) {action : Node G}
    (hpressing : agent.pressingAction? kept = some action) : action ∈ forestNodes forest :=
  h.held agent.entity action
    (current_action?_eq_some.1 (pressing_action?_eq_some.1 hpressing).1).1

/-- An update of a loyal game makes an agent refer to nothing outside the forest. -/
theorem update_refers (hrules : rules.Loyal forest) (kept : NodeId → Bool) (elapsed : Nat) :
    (Agent.update rules kept elapsed).Keeps (.referring forest) := by
  intro agent h
  have hcourse := update_course rules kept elapsed agent
  generalize agent.updateVisits rules kept elapsed = visits at hcourse
  generalize Agent.update rules kept elapsed agent = outcome at hcourse ⊢
  have hnext : agent.nextTick.Refers forest := h.congr rfl h.behavior
  cases hcourse with
  | idle => exact h
  | @free tree root hpaused hbehavior hpressing hroot =>
      subst hroot
      have hafter := Node.execute_refers hrules (tree.inUse kept) elapsed (h.root hbehavior) _ hnext
      exact hafter.congr rfl hafter.behavior
  | @busy tree action alone hpaused hbehavior hpressing halone hrunning =>
      subst halone
      have hafter := Node.execute_refers hrules (tree.inUse kept) elapsed (h.pressing hpressing) _
        hnext
      exact hafter.congr rfl hafter.behavior
  | @ended tree action alone root final hpaused hbehavior hpressing halone hended hroot hfinal =>
      subst hfinal hroot
      have hactionRefers : alone.agent.Refers forest := by
        subst halone
        exact Node.execute_refers hrules (tree.inUse kept) elapsed (h.pressing hpressing) _ hnext
      have hwaiting : (alone.agent.withWaiting action.id alone.value).Refers forest :=
        hactionRefers.of_spares (alone.agent.spares_with_waiting (fun slot _ => slot = .completed) _
          rfl) (by simp) hactionRefers.behavior
      have hafter := Node.execute_refers hrules (tree.inUse kept) elapsed (h.root hbehavior) _
        hwaiting
      exact hafter.of_spares (Agent.spares_forget _ (fun slot _ => slot = .completed) rfl)
        (by simp) hafter.behavior

end Agent

/-- An update executes nodes of the forest only. -/
theorem Agent.update_visits_mem (kept : NodeId → Bool) (elapsed : Nat) {agent : Agent G}
    (h : agent.Refers forest) :
    ∀ visit ∈ agent.updateVisits rules kept elapsed, visit.node ∈ forestNodes forest := by
  have hcourse := update_course rules kept elapsed agent
  generalize agent.updateVisits rules kept elapsed = visits at hcourse ⊢
  generalize Agent.update rules kept elapsed agent = outcome at hcourse
  have hmem : ∀ {node : Node G}, node ∈ forestNodes forest → ∀ kept agent,
      ∀ visit ∈ node.visits rules kept elapsed agent, visit.node ∈ forestNodes forest :=
    fun hnode _ _ _ hvisit => forest_nodes_trans hnode (Node.visits_mem hvisit)
  cases hcourse with
  | idle => simp
  | free _ hbehavior => exact hmem (h.root hbehavior) _ _
  | busy _ _ hpressing => exact hmem (h.pressing hpressing) _ _
  | ended _ hbehavior hpressing =>
      exact List.forall_mem_append.2 ⟨hmem (h.pressing hpressing) _ _, hmem (h.root hbehavior) _ _⟩

namespace Command

/-- A command within the forest makes an agent refer to nothing outside of it. -/
theorem play_refers (hrules : rules.Loyal forest) {command : Command G}
    (hcommand : command.Within forest) : (command.play rules).Keeps (.referring forest) := by
  intro agent h
  cases command with
  | update kept elapsed => exact Agent.update_refers hrules kept elapsed agent h
  | setBehavior kept tree =>
      rw [play, Play.map_apply, (Agent.set_behavior_apply kept tree agent).1]
      refine h.congr rfl fun other hother => ?_
      exact Option.some.inj hother ▸ hcommand
  | takeBehavior => exact h.congr rfl (by simp [play, Agent.takeBehavior])
  | setSelection selection => exact h.congr rfl h.behavior
  | setPaused paused => exact h.congr rfl h.behavior

/-- A run executes nodes of the forest only. -/
theorem play_executions_within (hrules : rules.Loyal forest) {commands : List (Command G)}
    (hcommands : ∀ command ∈ commands, command.Within forest) {agent : Agent G}
    (h : agent.Refers forest) :
    ∀ execution ∈ playExecutions rules commands agent, execution.node ∈ forestNodes forest := by
  induction commands generalizing agent with
  | nil => simp [playExecutions]
  | cons command rest ih =>
      obtain ⟨hcommand, hrest⟩ := List.forall_mem_cons.1 hcommands
      refine List.forall_mem_append.2 ⟨fun execution hexecution => ?_,
        ih hrest (play_refers hrules hcommand agent h)⟩
      cases command with
      | update kept elapsed =>
          obtain ⟨visit, hvisit, rfl⟩ := List.mem_map.1 hexecution
          exact Agent.update_visits_mem kept elapsed h visit hvisit
      | setBehavior | takeBehavior | setSelection | setPaused => cases hexecution

end Command

end BehaviorTree
