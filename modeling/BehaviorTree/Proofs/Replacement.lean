import BehaviorTree.Proofs.Course
import BehaviorTree.Proofs.Locality

/-!
# Replaced trees

An agent that is given a tree keeps all that it remembers of former ones. With a local game none
of it is seen under the new tree (`replaced_tree_unseen`): the run is that of a new agent with the
same entity, selection, pause and tick counter, and the entries of the former trees stay as they
are. An action that the agent still holds from before makes no difference either, unless it must
be completed and others keep it in use.

The one thing that outlives a tree is the status of the agent, which is that of the last update
until the next one executes something (`status_outlives_tree`).
-/

namespace BehaviorTree

variable {G : Game} {rules : Rules G} {kept : NodeId → Bool} {elapsed : Nat}
  {forest : List (Tree G)}

namespace Agent

/-! ## From tick to tick -/

/-- The agent at another tick. -/
def atTick (agent : Agent G) (ticks : Nat) : Agent G := { agent with ticks }

variable {start one other : Agent G}

/-- What holds of what others keep in use holds when the agent's own tree is in use as well. -/
theorem Unpinned.in_use {tree : Tree G} (h : start.Unpinned forest kept) (htree : tree ∈ forest) :
    start.Unpinned forest (tree.inUse kept) := by
  intro action hheld hmem hmust
  have hcontains : tree.contains action.id = false := by
    rw [Bool.eq_false_iff]
    exact fun hcontains => hmem (mem_forest_ids_of_contains htree hcontains)
  rw [Tree.inUse, h action hheld hmem hmust, hcontains]
  rfl

/-- Agents that agree on some trees have the same action to finish first: none from elsewhere. -/
theorem Mirrors.pressing_action?_eq (h : one.Mirrors forest start other)
    (hunpinned : start.Unpinned forest kept) :
    other.pressingAction? kept = one.pressingAction? kept := by
  unfold pressingAction? currentAction?
  cases hheld : one.heldAction? with
  | none =>
      rw [h.held_of_none hheld]
      rfl
  | some action =>
      by_cases hmem : action.id ∈ forestIds forest
      · rw [h.held_of_mem hheld hmem]
        simp only [h.alive_eq]
      · -- What is held from elsewhere is out of use if it must be completed, so it does not press.
        rw [h.held_of_not_mem hheld hmem]
        have hnot : (Option.filter (fun node => one.alive kept node.id) (some action)).filter
            Node.mustComplete = none := by
          rw [Option.filter_eq_none_iff]
          intro node hnode hmust
          obtain ⟨hsame, halive⟩ := Option.filter_eq_some_iff.1 hnode
          obtain rfl := Option.some.inj hsame
          rw [h.not_alive hunpinned hheld hmem hmust] at halive
          cases halive
        exact hnot.symm

/-- An action that goes ahead of the tree is from the trees that the agents agree on. -/
theorem Mirrors.pressing_mem (h : one.Mirrors forest start other)
    (hunpinned : start.Unpinned forest kept) {action : Node G}
    (hpressing : one.pressingAction? kept = some action) : action ∈ forestNodes forest := by
  rw [← h.pressing_action?_eq hunpinned] at hpressing
  exact h.known action (current_action?_eq_some.1 (pressing_action?_eq_some.1 hpressing).1).1

/-- Agents that count a tick go on agreeing. -/
theorem Mirrors.next_tick {ticks : Nat} (h : one.Mirrors forest (start.atTick ticks) other) :
    one.nextTick.Mirrors forest (start.atTick (ticks + 1)) other.nextTick :=
  { h with
    clock := congrArg (· + 1) h.clock
    ticks := congrArg (· + 1) h.ticks }

/-- Agents go on agreeing whatever statuses they take on. -/
theorem Mirrors.with_status (h : one.Mirrors forest start other) (status status' : Status) :
    (one.withStatus status).Mirrors forest start (other.withStatus status') :=
  { h with }

/-- Agents that agree report a tick in the same way. -/
theorem Mirrors.ticked_eq (h : one.Mirrors forest start other) (status : Status) :
    other.ticked status = one.ticked status := by
  rw [ticked, ticked, h.entity]

/-- Agents that agree report the tick of an action in the same way. -/
theorem Mirrors.action_ticked_eq (h : one.Mirrors forest start other) (action : NodeId)
    (status : Status) : other.actionTicked action status = one.actionTicked action status := by
  rw [actionTicked, actionTicked, h.entity]

/-- Within a tick a node of the trees is executed in the same way for both agents. -/
theorem Mirrors.executes {ticks : Nat} (h : one.Mirrors forest (start.atTick ticks) other)
    (hrules : rules.Local forest) (hunpinned : start.Unpinned forest kept) {tree : Tree G}
    (htree : tree ∈ forest) {node : Node G} (hnode : node ∈ forestNodes forest) (elapsed : Nat) :
    (node.execute rules (tree.inUse kept) elapsed one).Mirrors forest (start.atTick ticks)
      (node.execute rules (tree.inUse kept) elapsed other) := by
  have hfree : (start.atTick ticks).Unpinned forest (tree.inUse kept) := hunpinned.in_use htree
  exact Node.execute_mirrored hrules hfree elapsed hnode one other h

/-- A result that waits for an action of the trees is found by both agents, so they pass through
their tree in the same way. -/
theorem Mirrors.hands_over {ticks : Nat} (h : one.Mirrors forest (start.atTick ticks) other)
    (hrules : rules.Local forest) (hunpinned : start.Unpinned forest kept) {tree : Tree G}
    (htree : tree ∈ forest) {action : Node G} (haction : action ∈ forestNodes forest)
    (status : Status) (elapsed : Nat) :
    (tree.toNode.execute rules (tree.inUse kept) elapsed
        (one.withWaiting action.id status)).Mirrors forest (start.atTick ticks)
      (tree.toNode.execute rules (tree.inUse kept) elapsed
        (other.withWaiting action.id status)) := by
  have hwaiting : (one.withWaiting action.id status).Mirrors forest (start.atTick ticks)
      (other.withWaiting action.id status) :=
    h.remember (mem_forest_ids haction) .completed (by simp) status
  exact hwaiting.executes hrules hunpinned htree
    (mem_forest_nodes htree tree.toNode.self_mem_preorder) elapsed

/-- Both agents drop a result that no one has claimed. -/
theorem Mirrors.drops_waiting (h : one.Mirrors forest start other) {action : Node G}
    (haction : action ∈ forestNodes forest) (status status' : Status) :
    ((one.withStatus status).forget .completed action.id.raw).Mirrors forest start
      ((other.withStatus status').forget .completed action.id.raw) :=
  (h.with_status status status').forget (mem_forest_ids haction) .completed (by simp)

/-- The same is reported when a tree is attached. -/
theorem Mirrors.set_behavior_notes (h : one.Mirrors forest start other)
    (hunpinned : start.Unpinned forest kept) (tree : Tree G) :
    (setBehavior kept tree other).notes = (setBehavior kept tree one).notes := by
  have hset : other.behaviorSet tree = one.behaviorSet tree := by
    rw [behaviorSet, behaviorSet, h.entity]
  have hreplaced : ∀ id, other.behaviorReplaced id = one.behaviorReplaced id := by
    intro id
    rw [behaviorReplaced, behaviorReplaced, h.entity]
  unfold setBehavior
  rw [Play.bind_apply, Play.bind_apply, Play.look_apply, Play.look_apply, id_eq, id_eq,
    h.pressing_action?_eq hunpinned]
  cases one.pressingAction? kept with
  | none => simp [hset]
  | some action => simp [hset, hreplaced]

/-- An agent has come to be `one` from `start` by any number of updates, and `other` agrees with it
on some trees. The status is still the one from the start, and that of `other` is unknown, until
an update has executed something. -/
structure Follows (forest : List (Tree G)) (one start other : Agent G) : Prop where
  mirrors : one.Mirrors forest (start.atTick one.ticks) other
  status : (one.ticks = start.ticks ∧ one.status = start.status ∧ other.status = .unknown) ∨
    (start.ticks < one.ticks ∧ other.status = one.status)

/-- An agent that has come from another has seen as many ticks or more. -/
theorem Follows.ticks_le (h : one.Follows forest start other) : start.ticks ≤ one.ticks := by
  rcases h.status with ⟨heq, -⟩ | ⟨hlt, -⟩
  · omega
  · omega

/-- What a tick leaves behind once its result is made the status. -/
theorem Follows.settled {ticks : Nat} (h : one.Mirrors forest (start.atTick (ticks + 1)) other)
    (hle : start.ticks ≤ ticks) (status : Status) :
    (one.withStatus status).Follows forest start (other.withStatus status) := by
  have hclock : one.ticks = ticks + 1 := h.clock
  refine ⟨?_, .inr ⟨?_, rfl⟩⟩
  · show (one.withStatus status).Mirrors forest (start.atTick one.ticks) (other.withStatus status)
    rw [hclock]
    exact h.with_status status status
  · show start.ticks < one.ticks
    omega

/-- An update does the same with both agents. -/
theorem Follows.update (h : one.Follows forest start other) (hrules : rules.Local forest)
    (hunpinned : start.Unpinned forest kept) (elapsed : Nat) :
    (Agent.update rules kept elapsed other).notes = (Agent.update rules kept elapsed one).notes ∧
      (Agent.update rules kept elapsed one).agent.Follows forest start
        (Agent.update rules kept elapsed other).agent := by
  have hpaused' : other.paused = one.paused := h.mirrors.paused
  have hbehavior' : other.behavior = one.behavior := h.mirrors.behavior
  have hpressing' : other.pressingAction? kept = one.pressingAction? kept :=
    h.mirrors.pressing_action?_eq hunpinned
  have hnext := h.mirrors.next_tick
  -- So the other agent takes the course of this one.
  have hcourse := update_course rules kept elapsed one
  generalize one.updateVisits rules kept elapsed = visits at hcourse
  generalize Agent.update rules kept elapsed one = outcome at hcourse ⊢
  cases hcourse with
  | idle hidle =>
      rw [← hpaused', ← hbehavior'] at hidle
      rw [update_idle hidle]
      exact ⟨rfl, h⟩
  | @free tree root hpaused hbehavior hpressing hroot =>
      have htree := h.mirrors.attached tree hbehavior
      have hsame := hnext.executes hrules hunpinned htree
        (mem_forest_nodes htree tree.toNode.self_mem_preorder) elapsed
      rw [← hroot] at hsame
      rw [update_free (hpaused'.trans hpaused) (hbehavior'.trans hbehavior)
        (hpressing'.trans hpressing)]
      generalize tree.toNode.execute rules _ elapsed other.nextTick = root' at hsame ⊢
      dsimp only
      rw [hsame.notes, hsame.value, (hsame.agents.with_status _ _).ticked_eq]
      exact ⟨rfl, .settled hsame.agents h.ticks_le root.value⟩
  | @busy tree action alone hpaused hbehavior hpressing halone hrunning =>
      have hsame := hnext.executes hrules hunpinned (h.mirrors.attached tree hbehavior)
        (h.mirrors.pressing_mem hunpinned hpressing) elapsed
      rw [← halone] at hsame
      rw [update_pressing_running (hpaused'.trans hpaused) (hbehavior'.trans hbehavior)
        (hpressing'.trans hpressing) (hsame.value.trans hrunning)]
      dsimp only
      rw [hsame.notes, hsame.agents.action_ticked_eq]
      exact ⟨rfl, .settled hsame.agents h.ticks_le .running⟩
  | @ended tree action alone root final hpaused hbehavior hpressing halone hended hroot hfinal =>
      have htree := h.mirrors.attached tree hbehavior
      have haction := h.mirrors.pressing_mem hunpinned hpressing
      have hsame := hnext.executes hrules hunpinned htree haction elapsed
      rw [← halone] at hsame
      rw [update_pressing_ended (hpaused'.trans hpaused) (hbehavior'.trans hbehavior)
        (hpressing'.trans hpressing) (fun hrunning => hended (hsame.value.symm.trans hrunning))]
      generalize action.execute rules _ elapsed other.nextTick = alone' at hsame ⊢
      dsimp only
      rw [hsame.value]
      have hpassed := hsame.agents.hands_over hrules hunpinned htree haction alone.value elapsed
      rw [← hroot] at hpassed
      generalize tree.toNode.execute rules _ elapsed (alone'.agent.withWaiting _ _) = root'
        at hpassed ⊢
      have hdone := hpassed.agents.drops_waiting haction root.value root'.value
      rw [← hfinal] at hdone
      rw [hpassed.value] at hdone ⊢
      rw [hsame.notes, hsame.agents.action_ticked_eq, hpassed.notes, hdone.ticked_eq]
      refine ⟨rfl, ?_⟩
      rw [hfinal] at hdone ⊢
      exact .settled hdone h.ticks_le root.value

end Agent

/-! ## Runs -/

namespace Command

/-- What others keep in use, as a command is told. -/
def kept? : Command G → Option (NodeId → Bool)
  | update kept _ | setBehavior kept _ => some kept
  | takeBehavior | setSelection _ | setPaused _ => none

variable {start one other : Agent G}

/-- Every command that attaches trees of a forest only does the same with agents that agree on
the forest. -/
theorem play_follows (hrules : rules.Local forest) {command : Command G}
    (hcommand : command.Within forest)
    (hunpinned : ∀ kept ∈ command.kept?, start.Unpinned forest kept)
    (h : one.Follows forest start other) :
    (command.play rules other).notes = (command.play rules one).notes ∧
      (command.play rules one).agent.Follows forest start (command.play rules other).agent := by
  have hagents := h.mirrors
  cases command with
  | update kept elapsed =>
      rw [play, Play.map_apply, Play.map_apply]
      exact h.update hrules (hunpinned kept rfl) elapsed
  | setBehavior kept tree =>
      have hnotes := hagents.set_behavior_notes (hunpinned kept rfl) tree
      rw [play, Play.map_apply, Play.map_apply, (Agent.set_behavior_apply kept tree one).1,
        (Agent.set_behavior_apply kept tree other).1]
      refine ⟨hnotes, ?_, h.status⟩
      exact { hagents with
        behavior := rfl
        attached := by
          intro attached htree
          exact Option.some.inj htree ▸ hcommand }
  | takeBehavior =>
      refine ⟨rfl, ?_, h.status⟩
      exact { hagents with
        behavior := rfl
        attached := by
          intro tree htree
          cases htree }
  | setSelection selection => exact ⟨rfl, { hagents with selection := rfl }, h.status⟩
  | setPaused paused => exact ⟨rfl, { hagents with paused := rfl }, h.status⟩

/-- A run under trees of a forest does the same with agents that agree on the forest. -/
theorem play_all_follows (hrules : rules.Local forest) {commands : List (Command G)}
    (hcommands : ∀ command ∈ commands, command.Within forest)
    (hunpinned : ∀ command ∈ commands, ∀ kept ∈ command.kept?, start.Unpinned forest kept)
    (h : one.Follows forest start other) :
    (playAll rules commands other).notes = (playAll rules commands one).notes ∧
      (playAll rules commands one).agent.Follows forest start
        (playAll rules commands other).agent := by
  induction commands generalizing one other with
  | nil => exact ⟨rfl, h⟩
  | cons command rest ih =>
      obtain ⟨hcommand, hrest⟩ := List.forall_mem_cons.1 hcommands
      obtain ⟨hfree, hfrees⟩ := List.forall_mem_cons.1 hunpinned
      obtain ⟨hnotes, hafter⟩ := play_follows hrules hcommand hfree h
      obtain ⟨hnotes', hafter'⟩ := ih hrest hfrees hafter
      rw [playAll, Play.bind_apply, Play.bind_apply, hnotes, hnotes']
      exact ⟨rfl, hafter'⟩

end Command

/-- A new agent agrees with itself. -/
theorem Agent.fresh_follows (entity : EntityId) :
    (Agent.fresh (G := G) entity).Follows forest (Agent.fresh entity) (Agent.fresh entity) where
  mirrors :=
    { entity := rfl
      behavior := rfl
      paused := rfl
      clock := rfl
      ticks := rfl
      selection := rfl
      attached := by simp [Agent.fresh]
      entries := fun _ _ _ _ => rfl
      outside := .refl _
      held := rfl
      known := by simp [Agent.fresh, Agent.heldAction?]
      foreign := fun _ h _ => h }
  status := .inl ⟨rfl, rfl, rfl⟩

/-- An agent that has run trees of a forest holds none but their actions, and remembers nothing
under other identities. -/
theorem Agent.Reached.keeps_to (hrules : rules.Local forest) {history : List Note}
    {agent : Agent G} (hagent : agent.Reached rules forest history) :
    (∀ action, agent.heldAction? = some action → action ∈ forestNodes forest) ∧
      ∀ id, id ∉ forestIds forest → ∀ slot : Slot G, slot ≠ .currentAction →
        agent.context.get? slot id.raw = none := by
  obtain ⟨entity, commands, hcommands, -, rfl⟩ := hagent
  have hunpinned : ∀ command ∈ commands, ∀ kept ∈ command.kept?,
      (Agent.fresh (G := G) entity).Unpinned forest kept := by
    intro _ _ _ _ action hheld
    simp [Agent.fresh, Agent.heldAction?] at hheld
  -- The run of the agent is compared with itself.
  have hsame := (Command.play_all_follows hrules hcommands hunpinned
    (Agent.fresh_follows entity)).2.mirrors
  refine ⟨hsame.known, fun id hid slot hslot => ?_⟩
  refine hsame.outside slot id.raw ?_
  rintro (hcurrent | ⟨place, hplace, heq⟩)
  · exact hslot hcurrent
  · exact hid (NodeId.raw_inj.1 heq ▸ hplace)

/-- A new agent with the entity, selection, pause and tick counter of another one. -/
def Agent.blank (agent : Agent G) : Agent G :=
  { Agent.fresh agent.entity with
    selection := agent.selection
    paused := agent.paused
    ticks := agent.ticks }

/-- An agent that is given a tree of other identities agrees with a new one on the tree. -/
theorem Agent.follows_blank {tree : Tree G} (hrules : rules.Local forest)
    (hapart : ∀ id ∈ tree.toNode.ids, id ∉ forestIds forest) {history : List Note}
    {agent : Agent G} (hagent : agent.Reached rules forest history) :
    ({ agent with behavior := some tree } : Agent G).Follows [tree] agent
      { agent.blank with behavior := some tree } := by
  obtain ⟨hheld, hnothing⟩ := hagent.keeps_to hrules
  refine ⟨?_, .inl ⟨rfl, rfl, rfl⟩⟩
  exact
    { entity := rfl
      behavior := rfl
      paused := rfl
      clock := rfl
      ticks := rfl
      selection := rfl
      attached := by simp
      entries := by
        intro id hid slot hslot
        rw [forest_ids_singleton] at hid
        exact (hnothing id (hapart id hid) slot hslot).symm
      outside := .refl _
      held := by
        symm
        rw [forest_ids_singleton]
        show agent.heldAction?.filter (fun action => action.id ∈ tree.toNode.ids) = none
        rw [Option.filter_eq_none_iff]
        intro action haction hmem
        exact hapart action.id (of_decide_eq_true hmem) (mem_forest_ids (hheld action haction))
      known := by simp [Agent.blank, Agent.fresh, Agent.heldAction?]
      foreign := fun _ h _ => h }

/-- A replaced tree leaves nothing that the new one can see. Whatever an agent has run before, from
the moment when it is given a tree of other identities everything goes as it does for a new agent
with the same entity, selection, pause and tick counter: the notes, and with them the executed
nodes and their results, the selection, and all that is stored for the nodes of the tree. So does
the status, from the first update on that executes something; before, it is still the old one.
No entry of another node changes. An action that the agent holds from before may be alive, unless
it must be completed. -/
theorem replaced_tree_unseen {tree : Tree G} (hrules : rules.Local (tree :: forest))
    (hapart : ∀ id ∈ tree.toNode.ids, id ∉ forestIds forest) {history : List Note}
    {agent : Agent G} (hagent : agent.Reached rules forest history)
    {commands : List (Command G)} (hcommands : ∀ command ∈ commands, command.Within [tree])
    (hunpinned : ∀ command ∈ commands, ∀ kept ∈ command.kept?, agent.Unpinned [tree] kept)
    (kept : NodeId → Bool) :
    let one := Command.playAll rules commands (Agent.setBehavior kept tree agent).agent
    let other := Command.playAll rules commands (Agent.setBehavior kept tree agent.blank).agent
    other.notes = one.notes ∧ other.agent.selection = one.agent.selection ∧
      other.agent.paused = one.agent.paused ∧ other.agent.ticks = one.agent.ticks ∧
      (∀ id ∈ tree.toNode.ids, ∀ slot : Slot G, slot ≠ .currentAction →
        other.agent.context.get? slot id.raw = one.agent.context.get? slot id.raw) ∧
      ((one.agent.ticks = agent.ticks ∧ one.agent.status = agent.status ∧
          other.agent.status = .unknown) ∨
        (agent.ticks < one.agent.ticks ∧ other.agent.status = one.agent.status)) ∧
      ∀ id, id ∉ tree.toNode.ids → ∀ slot : Slot G, slot ≠ .currentAction →
        one.agent.context.get? slot id.raw = agent.context.get? slot id.raw := by
  intro one other
  have hforest : rules.Local forest := hrules.mono fun _ hmem => List.mem_cons_of_mem tree hmem
  have htree : rules.Local [tree] := hrules.mono fun other hmem => by
    rw [List.mem_singleton.1 hmem]
    exact List.mem_cons_self
  obtain ⟨hnotes, hfollows⟩ := Command.play_all_follows htree hcommands hunpinned
    (Agent.follows_blank hforest hapart hagent)
  rw [← (Agent.set_behavior_apply kept tree agent).1,
    ← (Agent.set_behavior_apply kept tree agent.blank).1] at hnotes hfollows
  have hagents := hfollows.mirrors
  refine ⟨hnotes, hagents.selection, hagents.paused, hagents.ticks, ?_, hfollows.status, ?_⟩
  · intro id hid
    rw [← forest_ids_singleton] at hid
    exact hagents.entries id hid
  · intro id hid slot hslot
    refine hagents.outside slot id.raw ?_
    rintro (hcurrent | ⟨place, hplace, heq⟩)
    · exact hslot hcurrent
    · rw [forest_ids_singleton] at hplace
      exact hid (NodeId.raw_inj.1 heq ▸ hplace)

/-- Another tree, with a must-complete leaf that takes three nanoseconds. -/
def laterTree : Tree (Game.clocked Unit) where
  head := ⟨⟨5⟩, none⟩
  name := "later"
  child := some (.timed ⟨⟨4⟩, none⟩ 3 true)

/-- The errand is given up in the middle of a must-complete leaf that no one keeps in use. -/
theorem replaced_tree_unseen_errand :
    let rules := Rules.clocked deadline
    let unused := fun _ : NodeId => false
    let agent := (clockedRun deadline errandTree [1]).agent
    let commands := [.update unused 1, .setSelection [9], .update unused 5]
    let one := Command.playAll rules commands (Agent.setBehavior unused laterTree agent).agent
    let other :=
      Command.playAll rules commands (Agent.setBehavior unused laterTree agent.blank).agent
    other.notes = one.notes ∧ other.agent.status = one.agent.status ∧
      ∀ id ∈ errandTree.toNode.ids,
        one.agent.context.get? .status id.raw = agent.context.get? .status id.raw := by
  intro rules unused agent commands one other
  have hunpinned : ∀ command ∈ commands, ∀ kept ∈ command.kept?,
      agent.Unpinned [laterTree] kept := by
    intro command hcommand kept hkept action _ _ _
    simp only [commands, List.mem_cons, List.not_mem_nil, or_false] at hcommand
    rcases hcommand with rfl | rfl | rfl <;> cases hkept <;> rfl
  have hlocal : rules.Local [laterTree, errandTree] := Rules.clocked_local deadline _
  have hreached : agent.Reached rules [errandTree] (clockedRun deadline errandTree [1]).notes :=
    clocked_run_reached deadline errandTree [1]
  have hwithin : ∀ command ∈ commands, command.Within [laterTree] := by
    simp [commands, Command.Within]
  have hunseen := replaced_tree_unseen hlocal (by decide) hreached hwithin hunpinned unused
  obtain ⟨hnotes, -, -, -, -, hstatus, houtside⟩ := hunseen
  refine ⟨hnotes, ?_, ?_⟩
  · rcases hstatus with ⟨hticks, -⟩ | ⟨-, hsame⟩
    · revert hticks
      decide +kernel
    · exact hsame
  · intro id hid
    refine houtside id ?_ .status (by simp)
    revert id
    decide

/-- The status of an agent outlives the tree that it came from, while a new agent has none. -/
theorem status_outlives_tree :
    let rules := Rules.clocked deadline
    let unused := fun _ : NodeId => false
    let run := clockedRun deadline soleTree [2]
    let commands := [.setPaused true, .update unused 1]
    let one := Command.playAll rules commands (Agent.setBehavior unused laterTree run.agent).agent
    let other :=
      Command.playAll rules commands (Agent.setBehavior unused laterTree run.agent.blank).agent
    run.agent.Reached rules [soleTree] run.notes ∧ rules.Local [laterTree, soleTree] ∧
      (∀ id ∈ laterTree.toNode.ids, id ∉ forestIds [soleTree]) ∧
      run.agent.currentAction? unused = none ∧
      one.agent.status = .finished ∧ other.agent.status = .unknown := by
  intro rules unused run commands one other
  refine ⟨clocked_run_reached deadline soleTree [2], Rules.clocked_local deadline _, ?_, ?_, ?_, ?_⟩
  · decide
  · rfl
  · decide +kernel
  · decide +kernel

end BehaviorTree
