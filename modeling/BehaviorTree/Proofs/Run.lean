import BehaviorTree.Agent.Update
import BehaviorTree.Proofs.Reach

/-!
# Runs of an agent

A `Command` is one of the things that a game does with an agent between and at its updates.
A run is a list of commands, and a property that every command keeps is kept by the run
(`Command.play_all_keeps`).

An update takes one of four courses, each with an equation of its own: it is idle, the tree
is passed through, a must-complete action goes on alone, or one comes to its end and the tree
is passed through after it.
-/

namespace BehaviorTree

variable {G : Game}

/-- What a game does with an agent. What others keep in use is given anew with each command
that asks for it. -/
inductive Command (G : Game) where
  | update (kept : NodeId → Bool) (elapsed : Nat)
  | setBehavior (kept : NodeId → Bool) (tree : Tree G)
  | takeBehavior
  | setSelection (selection : List EntityId)
  | setPaused (paused : Bool)

namespace Command

/-- Carries a command out. -/
def play (rules : Rules G) : Command G → Play G Unit
  | update kept elapsed => (fun _ => ()) <$> Agent.update rules kept elapsed
  | setBehavior kept tree => (fun _ => ()) <$> Agent.setBehavior kept tree
  | takeBehavior => (fun _ => ()) <$> Agent.takeBehavior
  | setSelection selection => Play.change fun agent => agent.select fun _ => selection
  | setPaused paused => Play.change fun agent => { agent with paused }

/-- Carries commands out, one after the other. -/
def playAll (rules : Rules G) : List (Command G) → Play G Unit
  | [] => pure ()
  | command :: rest => do
      command.play rules
      playAll rules rest

/-- Whether the tree that a command attaches, if any, is one of a forest. -/
def Within (forest : List (Tree G)) : Command G → Prop
  | setBehavior _ tree => tree ∈ forest
  | update _ _ | takeBehavior | setSelection _ | setPaused _ => True

/-- What every command keeps is kept by commands one after another. -/
theorem play_all_keeps {rules : Rules G} {passage : Passage G} {commands : List (Command G)}
    (h : ∀ command ∈ commands, (command.play rules).Keeps passage) :
    (playAll rules commands).Keeps passage := by
  induction commands with
  | nil => exact Play.keeps_pure ()
  | cons command rest ih =>
      exact (h command List.mem_cons_self).bind fun _ =>
        ih fun later hlater => h later (List.mem_cons_of_mem command hlater)

end Command

/-- Commands that attach trees of a forest only have made the agent of a new one, and left
some notes on the way. -/
def Agent.Reached (rules : Rules G) (forest : List (Tree G)) (history : List Note)
    (agent : Agent G) : Prop :=
  ∃ (entity : EntityId) (commands : List (Command G)),
    (∀ command ∈ commands, command.Within forest) ∧
      history = (Command.playAll rules commands (Agent.fresh entity)).notes ∧
      agent = (Command.playAll rules commands (Agent.fresh entity)).agent

/-! ## The courses of an update -/

/-- What counts as in use while an agent passes through a tree. -/
def Tree.inUse (tree : Tree G) (kept : NodeId → Bool) : NodeId → Bool :=
  fun id => kept id || tree.contains id

namespace Agent

variable {rules : Rules G} {kept : NodeId → Bool} {elapsed : Nat} {agent : Agent G}
  {tree : Tree G} {action : Node G}

/-- The agent as it starts a tick. -/
def nextTick (agent : Agent G) : Agent G := { agent with ticks := agent.ticks + 1 }

/-- The agent with the result of a pass as its status. -/
def withStatus (agent : Agent G) (status : Status) : Agent G := { agent with status }

/-- An agent keeps the same nodes in use as long as it has the same tree. -/
theorem alive_congr {before after : Agent G} (h : after.behavior = before.behavior)
    (kept : NodeId → Bool) (id : NodeId) : after.alive kept id = before.alive kept id := by
  rw [alive, alive, owns, owns, h]

/-- The update of a paused agent, or of one without a tree, does nothing. -/
theorem update_idle (h : agent.paused = true ∨ agent.behavior = none) :
    Agent.update rules kept elapsed agent = ⟨agent.status, agent, []⟩ := by
  rw [Agent.update, Play.bind_apply, Play.look_apply]
  by_cases hpaused : agent.paused = true
  · simp [hpaused]
  · have hbehavior := h.resolve_left hpaused
    simp [hpaused, hbehavior]

/-- An update that is not idle. -/
theorem update_attached (hpaused : agent.paused = false) (hbehavior : agent.behavior = some tree) :
    Agent.update rules kept elapsed agent =
      (match agent.pressingAction? kept with
        | some action => updatePressed rules (tree.inUse kept) elapsed tree action
        | none => (do
            let _ ← pass rules (tree.inUse kept) elapsed tree
            finishTick)) agent.nextTick := by
  rw [Agent.update, Play.bind_apply, Play.look_apply]
  simp only [id_eq, hpaused, hbehavior, Bool.false_eq_true, ↓reduceIte, List.nil_append]
  cases agent.pressingAction? kept <;> rfl

/-- Without a pressing action the tree is passed through. -/
theorem update_free (hpaused : agent.paused = false) (hbehavior : agent.behavior = some tree)
    (hpressing : agent.pressingAction? kept = none) :
    Agent.update rules kept elapsed agent =
      let root := tree.toNode.execute rules (tree.inUse kept) elapsed agent.nextTick
      ⟨root.value, root.agent.withStatus root.value, root.notes ++
        [.reported (Agent.ticked (root.agent.withStatus root.value) root.value)]⟩ := by
  rw [update_attached hpaused hbehavior, hpressing]
  simp only [pass, finishTick, Play.bind_apply, Play.change_apply, Play.pure_apply,
    Play.look_apply, Play.report_apply, List.append_nil, List.nil_append]
  rfl

/-- A pressing action that is still running takes the whole update. -/
theorem update_pressing_running (hpaused : agent.paused = false)
    (hbehavior : agent.behavior = some tree) (hpressing : agent.pressingAction? kept = some action)
    (hrunning : (action.execute rules (tree.inUse kept) elapsed agent.nextTick).value = .running) :
    Agent.update rules kept elapsed agent =
      let alone := action.execute rules (tree.inUse kept) elapsed agent.nextTick
      ⟨.running, alone.agent.withStatus .running,
        alone.notes ++ [.reported (alone.agent.actionTicked action.id .running)]⟩ := by
  rw [update_attached hpaused hbehavior, hpressing]
  simp only [updatePressed, Play.bind_apply, Play.look_apply, Play.report_apply, hrunning,
    Status.is_running_iff, ↓reduceIte, Play.change_apply, Play.pure_apply, List.append_nil,
    List.nil_append]
  rfl

/-- A pressing action that ended leaves its result to the pass that follows. -/
theorem update_pressing_ended (hpaused : agent.paused = false)
    (hbehavior : agent.behavior = some tree) (hpressing : agent.pressingAction? kept = some action)
    (hended : (action.execute rules (tree.inUse kept) elapsed agent.nextTick).value ≠ .running) :
    Agent.update rules kept elapsed agent =
      let alone := action.execute rules (tree.inUse kept) elapsed agent.nextTick
      let root := tree.toNode.execute rules (tree.inUse kept) elapsed
        (alone.agent.withWaiting action.id alone.value)
      let final := (root.agent.withStatus root.value).forget .completed action.id.raw
      ⟨root.value, final,
        alone.notes ++ (.reported (alone.agent.actionTicked action.id alone.value) ::
          (root.notes ++ [.reported (final.ticked root.value)]))⟩ := by
  rw [update_attached hpaused hbehavior, hpressing]
  simp only [updatePressed, pass, finishTick, Play.bind_apply, Play.look_apply, Play.report_apply,
    hended, Status.is_running_iff, ↓reduceIte, Play.change_apply, Play.pure_apply,
    List.append_nil, List.nil_append, List.singleton_append]
  rfl

/-- An update that is not idle begins a tick and has the agent come out with its result. Whatever
else it does is done to the context, the selection and the recording. -/
theorem update_stands (hrules : rules.Modest) (kept : NodeId → Bool) (elapsed : Nat)
    (hpaused : agent.paused = false) (hbehavior : agent.behavior = some tree) :
    let outcome := Agent.update rules kept elapsed agent
    (agent.nextTick.withStatus outcome.value).Stands outcome.agent := by
  have hexecute : ∀ (node : Node G) (kept : NodeId → Bool) (agent : Agent G),
      agent.Stands (node.execute rules kept elapsed agent).agent := fun node kept agent =>
    (node.execute_reach hrules kept elapsed (fun _ hid => hid) agent).stands
  have hended : ∀ {start after : Agent G} (status : Status), start.Stands after →
      (start.withStatus status).Stands (after.withStatus status) := fun status h =>
    ⟨h.entity, h.behavior, rfl, h.paused, h.zone, h.ticks⟩
  cases hpressing : agent.pressingAction? kept with
  | none =>
      rw [update_free hpaused hbehavior hpressing]
      exact hended _ (hexecute tree.toNode _ agent.nextTick)
  | some action =>
      have halone := hexecute action (tree.inUse kept) agent.nextTick
      by_cases hrunning :
          (action.execute rules (tree.inUse kept) elapsed agent.nextTick).value = .running
      · rw [update_pressing_running hpaused hbehavior hpressing hrunning]
        exact hended _ halone
      · rw [update_pressing_ended hpaused hbehavior hpressing hrunning]
        generalize action.execute rules (tree.inUse kept) elapsed agent.nextTick = alone at *
        have hroot := hexecute tree.toNode (tree.inUse kept)
          (alone.agent.withWaiting action.id alone.value)
        have hwaiting : alone.agent.Stands (alone.agent.withWaiting action.id alone.value) :=
          ⟨rfl, rfl, rfl, rfl, rfl, rfl⟩
        have hended' := hended
          (tree.toNode.execute rules (tree.inUse kept) elapsed
            (alone.agent.withWaiting action.id alone.value)).value
          ((halone.trans hwaiting).trans hroot)
        exact hended'.trans ⟨rfl, rfl, rfl, rfl, rfl, rfl⟩

/-- An update leaves the tree of an agent alone. -/
theorem behavior_update (hrules : rules.Modest) (kept : NodeId → Bool) (elapsed : Nat)
    (agent : Agent G) :
    (Agent.update rules kept elapsed agent).agent.behavior = agent.behavior := by
  by_cases hidle : agent.paused = true ∨ agent.behavior = none
  · rw [update_idle hidle]
  · have hpaused : agent.paused = false := by simpa using fun hp => hidle (.inl hp)
    obtain ⟨tree, hbehavior⟩ := Option.ne_none_iff_exists'.1 fun hb => hidle (.inr hb)
    exact (update_stands hrules kept elapsed hpaused hbehavior).behavior

/-- A tree is attached with nothing but reports, whatever the agent was busy with. -/
theorem set_behavior_apply (kept : NodeId → Bool) (tree : Tree G) (agent : Agent G) :
    (setBehavior kept tree agent).agent = { agent with behavior := some tree } ∧
      ∀ note ∈ (setBehavior kept tree agent).notes, note.IsReport := by
  rw [setBehavior, Play.bind_apply, Play.look_apply, id_eq]
  cases agent.pressingAction? kept with
  | none => simp [Note.IsReport]
  | some action => simp [Note.IsReport]

end Agent

/-! ## Runs by the clock -/

/-- What comes of giving a new agent a tree and updating it for some lengths of time. -/
def clockedRun {Leaf : Type} (answer : Leaf → Nat → Status) (tree : Tree (Game.clocked Leaf))
    (ticks : List Nat) : Outcome (Game.clocked Leaf) Unit :=
  Command.playAll (Rules.clocked answer)
    (.setBehavior (fun _ => false) tree :: ticks.map (.update fun _ => false)) (Agent.fresh 7)

/-- A run by the clock reaches its agent by commands. -/
theorem clocked_run_reached {Leaf : Type} (answer : Leaf → Nat → Status)
    (tree : Tree (Game.clocked Leaf)) (ticks : List Nat) :
    (clockedRun answer tree ticks).agent.Reached (Rules.clocked answer) [tree]
      (clockedRun answer tree ticks).notes := by
  refine ⟨7, _, ?_, rfl, rfl⟩
  simp [Command.Within]

/-- A leaf that runs on the shortest ticks and finishes on longer ones. -/
def deadline (_ : Unit) (elapsed : Nat) : Status := if elapsed ≤ 1 then .running else .finished

/-- A leaf with a deadline answers running or finished. -/
theorem deadline_decided : (Rules.clocked deadline).Decided := by
  refine Rules.clocked_decided fun _ elapsed => ?_
  by_cases h : elapsed ≤ 1
  · exact .inl (if_pos h)
  · exact .inr (.inl (if_neg h))

/-- A must-complete leaf under a top. -/
def soleTree : Tree (Game.clocked Unit) where
  head := ⟨⟨1⟩, none⟩
  name := "sole"
  child := some (.action ⟨⟨0⟩, none⟩ "Sole" true ())

/-- The tree of a sole leaf has no identity twice. -/
theorem sole_tree_distinct : Distinct [soleTree] := by
  unfold Distinct
  decide

/-- A sequence of two must-complete leaves, the second of which takes three nanoseconds. -/
def errandTree : Tree (Game.clocked Unit) where
  head := ⟨⟨3⟩, none⟩
  name := "errand"
  child := some (.composite ⟨⟨2⟩, none⟩ .sequence
    [.action ⟨⟨0⟩, none⟩ "Deadline" true (), .timed ⟨⟨1⟩, none⟩ 3 true])

/-- The tree of the errand has no identity twice. -/
theorem errand_tree_distinct : errandTree.toNode.Distinct := by
  unfold Node.Distinct
  decide

end BehaviorTree
