import BehaviorTree.Proofs.Chronicle

/-!
# The courses of an update

`Agent.update_course` lists the four courses that an update may take, each with the nodes that
the update comes to and with its outcome. What holds of single executions is carried to updates
by cases on it: the notes of an update, and so those of a run, tell of the same executions as its
visits (`Command.executions_perm_play_visits`).

An `Execution` is a visit together with the arguments of the execution, so that its outcome can
be spoken of; `Command.playExecutions` are those of a whole run, in the order in which they
start.
-/

namespace BehaviorTree

variable {G : Game} {rules : Rules G} {kept : NodeId → Bool} {elapsed : Nat} {agent : Agent G}

namespace Agent

/-- The four courses of an update: it is idle, the tree is passed through, a pressing action has
the update for itself, or a pressing action ends and the tree is passed through after it. -/
inductive Course (rules : Rules G) (kept : NodeId → Bool) (elapsed : Nat) (agent : Agent G) :
    List (Visit G) → Outcome G Status → Prop where
  | idle (hidle : agent.paused = true ∨ agent.behavior = none) :
      Course rules kept elapsed agent [] ⟨agent.status, agent, []⟩
  | free {tree : Tree G} {root : Outcome G Status} (hpaused : agent.paused = false)
      (hbehavior : agent.behavior = some tree) (hpressing : agent.pressingAction? kept = none)
      (hroot : root = tree.toNode.execute rules (tree.inUse kept) elapsed agent.nextTick) :
      Course rules kept elapsed agent
        (tree.toNode.visits rules (tree.inUse kept) elapsed agent.nextTick)
        ⟨root.value, root.agent.withStatus root.value,
          root.notes ++ [.reported (Agent.ticked (root.agent.withStatus root.value) root.value)]⟩
  | busy {tree : Tree G} {action : Node G} {alone : Outcome G Status}
      (hpaused : agent.paused = false) (hbehavior : agent.behavior = some tree)
      (hpressing : agent.pressingAction? kept = some action)
      (halone : alone = action.execute rules (tree.inUse kept) elapsed agent.nextTick)
      (hrunning : alone.value = .running) :
      Course rules kept elapsed agent
        (action.visits rules (tree.inUse kept) elapsed agent.nextTick)
        ⟨.running, alone.agent.withStatus .running,
          alone.notes ++ [.reported (alone.agent.actionTicked action.id .running)]⟩
  | ended {tree : Tree G} {action : Node G} {alone root : Outcome G Status} {final : Agent G}
      (hpaused : agent.paused = false) (hbehavior : agent.behavior = some tree)
      (hpressing : agent.pressingAction? kept = some action)
      (halone : alone = action.execute rules (tree.inUse kept) elapsed agent.nextTick)
      (hended : alone.value ≠ .running)
      (hroot : root = tree.toNode.execute rules (tree.inUse kept) elapsed
        (alone.agent.withWaiting action.id alone.value))
      (hfinal : final = (root.agent.withStatus root.value).forget .completed action.id.raw) :
      Course rules kept elapsed agent
        (action.visits rules (tree.inUse kept) elapsed agent.nextTick ++
          tree.toNode.visits rules (tree.inUse kept) elapsed
            (alone.agent.withWaiting action.id alone.value))
        ⟨root.value, final,
          alone.notes ++ (.reported (alone.agent.actionTicked action.id alone.value) ::
            (root.notes ++ [.reported (final.ticked root.value)]))⟩

/-- An update takes one of the four courses. -/
theorem update_course (rules : Rules G) (kept : NodeId → Bool) (elapsed : Nat)
    (agent : Agent G) :
    agent.Course rules kept elapsed (agent.updateVisits rules kept elapsed)
      (Agent.update rules kept elapsed agent) := by
  unfold updateVisits
  by_cases hpaused : agent.paused = true
  · rw [if_pos hpaused, update_idle (.inl hpaused)]
    exact .idle (.inl hpaused)
  rw [if_neg hpaused]
  have hunpaused : agent.paused = false := by simpa using hpaused
  cases hbehavior : agent.behavior with
  | none =>
      rw [update_idle (.inr hbehavior)]
      exact .idle (.inr hbehavior)
  | some tree =>
      cases hpressing : agent.pressingAction? kept with
      | none =>
          rw [update_free hunpaused hbehavior hpressing]
          exact .free hunpaused hbehavior hpressing rfl
      | some action =>
          dsimp only
          by_cases hrunning :
              (action.execute rules (tree.inUse kept) elapsed agent.nextTick).value = .running
          · rw [update_pressing_running hunpaused hbehavior hpressing hrunning,
              if_pos (Status.is_running_iff.2 hrunning), List.append_nil]
            exact .busy hunpaused hbehavior hpressing rfl hrunning
          · rw [update_pressing_ended hunpaused hbehavior hpressing hrunning,
              if_neg (mt Status.is_running_iff.1 hrunning)]
            exact .ended hunpaused hbehavior hpressing rfl hrunning rfl rfl

/-- What counts as in use while an agent passes through its tree. -/
theorem alive_eq_in_use {tree : Tree G} (h : agent.behavior = some tree) (kept : NodeId → Bool) :
    agent.alive kept = tree.inUse kept := by
  funext id
  rw [alive, owns, h]
  rfl

end Agent

/-! ## Visits and notes -/

/-- What an update comes to is what its notes tell of. -/
theorem Agent.executions_perm_update_visits (hrules : rules.Modest) (kept : NodeId → Bool)
    (elapsed : Nat) (agent : Agent G) :
    ((executions (Agent.update rules kept elapsed agent).notes).map Prod.fst).Perm
      ((agent.updateVisits rules kept elapsed).map fun visit => visit.node.id) := by
  have hcourse := update_course rules kept elapsed agent
  generalize agent.updateVisits rules kept elapsed = visits at hcourse ⊢
  generalize Agent.update rules kept elapsed agent = outcome at hcourse ⊢
  cases hcourse with
  | idle => exact .refl _
  | @free tree root hpaused hbehavior hpressing hroot =>
      subst hroot
      rw [executions_append_reported]
      exact tree.toNode.executions_perm_visits hrules _ elapsed _
  | @busy tree action alone hpaused hbehavior hpressing halone hrunning =>
      subst halone
      rw [executions_append_reported]
      exact action.executions_perm_visits hrules _ elapsed _
  | @ended tree action alone root final hpaused hbehavior hpressing halone hended hroot hfinal =>
      have hfirst := action.executions_perm_visits hrules (tree.inUse kept) elapsed agent.nextTick
      rw [← halone] at hfirst
      subst hroot
      rw [executions_append, executions_reported, executions_append_reported, List.map_append,
        List.map_append]
      exact hfirst.append (tree.toNode.executions_perm_visits hrules _ elapsed _)

/-- What a run comes to is what its notes tell of. -/
theorem Command.executions_perm_play_visits (hrules : rules.Modest) (commands : List (Command G))
    (agent : Agent G) :
    ((executions (playAll rules commands agent).notes).map Prod.fst).Perm
      ((playVisits rules commands agent).map fun visit => visit.node.id) := by
  induction commands generalizing agent with
  | nil => exact .refl _
  | cons command rest ih =>
      have hcommand : ((executions (command.play rules agent).notes).map Prod.fst).Perm
          ((command.visits rules agent).map fun visit => visit.node.id) := by
        cases command with
        | update kept elapsed =>
            rw [play, Play.map_apply]
            exact agent.executions_perm_update_visits hrules kept elapsed
        | setBehavior kept tree =>
            rw [play, Play.map_apply,
              executions_eq_nil_of_reports (Agent.set_behavior_apply kept tree agent).2]
            exact .refl _
        | takeBehavior | setSelection | setPaused => exact .refl _
      rw [playAll, Play.bind_apply, playVisits, executions_append, List.map_append,
        List.map_append]
      exact hcommand.append (ih _)

/-! ## Executions -/

/-- A visit together with the arguments of the execution. -/
structure Execution (G : Game) extends Visit G where
  kept : NodeId → Bool
  elapsed : Nat

namespace Execution

/-- What comes of an execution. -/
def outcome (rules : Rules G) (execution : Execution G) : Outcome G Status :=
  execution.node.execute rules execution.kept execution.elapsed execution.agent

/-- The status that an execution returns. -/
def result (rules : Rules G) (execution : Execution G) : Status :=
  (execution.outcome rules).value

/-- The executions that an execution of a node comes to. -/
def ofNode (rules : Rules G) (kept : NodeId → Bool) (elapsed : Nat) (node : Node G)
    (agent : Agent G) : List (Execution G) :=
  (node.visits rules kept elapsed agent).map fun visit => ⟨visit, kept, elapsed⟩

/-- The executions of a command: only updates execute anything. -/
def ofCommand (rules : Rules G) : Command G → Agent G → List (Execution G)
  | .update kept elapsed, agent =>
      (agent.updateVisits rules kept elapsed).map fun visit => ⟨visit, agent.alive kept, elapsed⟩
  | .setBehavior _ _, _ | .takeBehavior, _ | .setSelection _, _ | .setPaused _, _ => []

end Execution

namespace Command

/-- The executions of commands, one after the other. -/
def playExecutions (rules : Rules G) : List (Command G) → Agent G → List (Execution G)
  | [], _ => []
  | command :: rest, agent =>
      Execution.ofCommand rules command agent ++
        playExecutions rules rest (command.play rules agent).agent

/-- The executions of a run are its visits. -/
theorem play_executions_visits (rules : Rules G) (commands : List (Command G)) (agent : Agent G) :
    (playExecutions rules commands agent).map Execution.toVisit =
      playVisits rules commands agent := by
  induction commands generalizing agent with
  | nil => rfl
  | cons command rest ih =>
      have hcommand : (Execution.ofCommand rules command agent).map Execution.toVisit =
          command.visits rules agent := by
        cases command with
        | update kept elapsed => simp [Execution.ofCommand, visits, Function.comp_def]
        | setBehavior | takeBehavior | setSelection | setPaused => rfl
      rw [playExecutions, playVisits, List.map_append, hcommand, ih]

end Command

end BehaviorTree
