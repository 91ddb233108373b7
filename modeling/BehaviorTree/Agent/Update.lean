import BehaviorTree.Agent.Execute

/-!
# Updates of an agent

`Agent.update` is one tick of an agent. A live must-complete action goes first and on its
own. Only when it stops does the tree get its turn in the same tick, and then the action
hands its result to its parent without running again.
-/

namespace BehaviorTree

variable {G : Game}

namespace Agent

/-- A new agent without a tree. -/
def fresh (entity : EntityId) : Agent G := { entity }

/-- A must-complete action that is cut off from its parent. -/
def behaviorReplaced (agent : Agent G) (action : NodeId) : Diagnostic where
  severity := .warn
  message := "behavior replaced while a must-complete action is running"
  fields := [("entity", .number agent.entity), ("action", .text action.text)]

/-- A tree that an agent was given. -/
def behaviorSet (agent : Agent G) (tree : Tree G) : Diagnostic where
  severity := .debug
  message := "behavior set"
  fields := [("entity", .number agent.entity), ("tree", .text tree.name)]

/-- A tick of a must-complete action on its own. -/
def actionTicked (agent : Agent G) (action : NodeId) (status : Status) : Diagnostic where
  severity := .trace
  message := "must-complete action tick"
  fields := [("entity", .number agent.entity), ("node", .text action.text),
    ("status", .text status.name)]

/-- A tick that executed the tree. -/
def ticked (agent : Agent G) (status : Status) : Diagnostic where
  severity := .trace
  message := "agent tick"
  fields := [("entity", .number agent.entity), ("status", .text status.name)]

/-- Gives an agent a tree and answers with the one it had. The context is left alone: its
entries are keyed by nodes, and the new tree has nodes of its own. -/
def setBehavior (kept : NodeId → Bool) (tree : Tree G) : Play G (Option (Tree G)) := do
  let agent ← Play.look id
  match agent.pressingAction? kept with
  | some action => Play.report (agent.behaviorReplaced action.id)
  | none => pure ()
  Play.report (agent.behaviorSet tree)
  Play.change fun agent => { agent with behavior := some tree }
  return agent.behavior

/-- Takes an agent's tree away and answers with it. -/
def takeBehavior : Play G (Option (Tree G)) := do
  let tree ← Play.look behavior
  Play.change fun agent => { agent with behavior := none }
  return tree

/-- Executes the top of a tree and makes its result the agent's status. -/
def pass (rules : Rules G) (kept : NodeId → Bool) (elapsed : Nat) (tree : Tree G) :
    Play G Status := do
  let status ← tree.toNode.execute rules kept elapsed
  Play.change fun agent => { agent with status }
  return status

/-- Ends a tick that executed the tree. -/
def finishTick : Play G Status := do
  let agent ← Play.look id
  Play.report (agent.ticked agent.status)
  return agent.status

/-- A tick on which a must-complete action goes first. -/
def updatePressed (rules : Rules G) (kept : NodeId → Bool) (elapsed : Nat) (tree : Tree G)
    (action : Node G) : Play G Status := do
  let status ← action.execute rules kept elapsed
  let agent ← Play.look id
  Play.report (agent.actionTicked action.id status)
  if status.isRunning then
    Play.change fun agent => { agent with status }
    return status
  else
    Play.change fun agent => agent.remember .completed action.id.raw status
    let _ ← pass rules kept elapsed tree
    Play.change fun agent => agent.forget .completed action.id.raw
    finishTick

/-- One tick. A paused agent and an agent without a tree are left untouched. While the tick
lasts, the tree it started with and the action it began with stay in use. -/
def update (rules : Rules G) (kept : NodeId → Bool) (elapsed : Nat) : Play G Status := do
  let agent ← Play.look id
  if agent.paused then return agent.status
  else match agent.behavior with
    | none => return agent.status
    | some tree =>
        Play.change fun agent => { agent with ticks := agent.ticks + 1 }
        let inUse := fun id => kept id || tree.contains id
        match agent.pressingAction? kept with
        | some action => updatePressed rules inUse elapsed tree action
        | none =>
            let _ ← pass rules inUse elapsed tree
            finishTick

end Agent

end BehaviorTree
