import BehaviorTree.Agent.Update
import BehaviorTree.Workbench.Trees

/-!
# Agents and zones at the workbench

Requests to an agent are answered with none where there is no agent.
-/

namespace BehaviorTree

variable {G : Game}

/-- An agent as it is seen at the bench: with the current action, if that is alive. -/
structure Sight (G : Game) where
  agent : Agent G
  action : Option (Node G)

/-- The agent at a place. -/
def Workbench.sight? (bench : Workbench G) (place : Place) : Option (Sight G) :=
  (bench.agentAt? place).map fun agent => ⟨agent, agent.currentAction? (bench.holds place)⟩

namespace Work

/-- The agent at a place. -/
def sight? (place : Place) : Work G (Option (Sight G)) := do return (← get).sight? place

/-- The agent at a place after it did something. -/
def watch {α : Type} (place : Place) (what : (NodeId → Bool) → Rules G → Play G α) :
    Work G (Option (α × Sight G)) := do
  match ← play place what with
  | none => return none
  | some (value, _) => return (← sight? place).map fun sight => (value, sight)

/-- Makes a new agent, without a tree if the bench has none of the name. -/
def makeAgent (name : String) (entity : EntityId) (selection : List EntityId) (traced : Bool)
    (behavior : Option String) : Work G (Option (Sight G)) := do
  let tree := behavior.bind (← get).trees.get?
  let plain : Agent G := { Agent.fresh entity with selection }
  let agent := if traced then plain.enableTrace else plain
  modify fun bench => { bench with agents := bench.agents.put name agent }
  match tree with
  | none => pure ()
  | some tree =>
      let _ ← play (.loose name) fun kept _ => Agent.setBehavior kept tree
  sight? (.loose name)

/-- Updates an agent a number of times; the answer has the agent after each time. -/
def updateAgent (place : Place) (elapsed : Nat) :
    Nat → Work G (Option (List (Status × Sight G)))
  | 0 => do return ((← get).agentAt? place).map fun _ => []
  | times + 1 => do
      match ← watch place fun kept rules => Agent.update rules kept elapsed with
      | none => return none
      | some first => return (← updateAgent place elapsed times).map (first :: ·)

/-- Executes a node of a tree for an agent, past the rules of an update. -/
def executeNode (place : Place) (name : String) (id : Option NodeId) (elapsed : Nat) :
    Work G (Option (Status × Sight G)) := do
  let node ← node name id
  watch place fun kept rules => node.execute rules kept elapsed

/-- Gives an agent a tree of the bench; the answer has the tree it had. -/
def setBehavior (place : Place) (name : String) : Work G (Option (Option (Tree G))) := do
  let tree ← tree name
  return (← play place fun kept _ => Agent.setBehavior kept tree).map Prod.fst

/-- Takes an agent's tree away; the answer has the tree. -/
def takeBehavior (place : Place) : Work G (Option (Option (Tree G))) := do
  return (← play place fun _ _ => Agent.takeBehavior).map Prod.fst

/-- Changes an agent; the answer shows something of the agent before and after. -/
def changeAgent {α : Type} (place : Place) (change : Agent G → Agent G)
    (view : Agent G → Agent G → α) : Work G (Option α) := do
  let changed ← play place fun _ _ => do
    let before ← Play.look id
    Play.change change
    return before
  return changed.map fun (before, after) => view before after

/-- Runs a filter on an agent; the answer has the name of its type and the agent. -/
def runFilter (place : Place) (sketch : FilterSketch) : Work G (Option (String × Agent G)) := do
  match ← sketchFilter sketch with
  | none => return none
  | some filter =>
      let ran ← play place fun _ rules => filter.run rules
      return ran.map fun (_, agent) => (filter.typeName, agent)

/-- The node that a condition gates: one of a tree, or else a new sequence. -/
def gated : Option (String × Option NodeId) → Work G (Node G)
  | some (name, id) => node name id
  | none => return .composite { id := ← issue } .sequence []

/-- Evaluates a condition for an agent. -/
def evaluate (place : Place) (sketch : ConditionSketch) (target : Option (String × Option NodeId)) :
    Work G (Option (Bool × Agent G)) := do
  match ← sketchCondition sketch with
  | none => return none
  | some condition =>
      let node ← gated target
      play place fun _ rules => condition.evaluate rules node

/-- Makes a new zone under a number. -/
def makeZone (number : Nat) : Work G (Zone G) := do
  let zone := Zone.fresh ⟨number⟩
  modify fun bench => { bench with zones := bench.zones.insert number zone }
  return zone

/-- Makes an agent one on its own, if there is an agent. -/
def release (name : String) (agent : Option (Agent G)) : Work G (Option (Sight G)) := do
  modify fun bench => { bench with agents := bench.agents.put? name agent }
  match agent with
  | none => return none
  | some _ => sight? (.loose name)

/-- Moves an agent into a zone. An agent that it replaces there becomes one on its own. -/
def enterZone (number : Nat) (name replaced : String) : Work G (Option (Sight G)) := do
  let zone ← zone number
  let agent ← require .agent ((← get).agents.get? name)
  let added := zone.addAgent agent
  modify fun bench => { bench with
    agents := bench.agents.drop name
    zones := bench.zones.insert number added.value.2 }
  report added.diagnostics
  release replaced added.value.1

/-- Takes an agent out of a zone; it becomes one on its own. -/
def leaveZone (number : Nat) (entity : EntityId) (name : String) :
    Work G (Option (Sight G)) := do
  let zone ← zone number
  let removed := zone.removeAgent entity
  modify fun bench => { bench with zones := bench.zones.insert number removed.value.2 }
  report removed.diagnostics
  release name removed.value.1

/-- The agents of a zone in ascending order of their entities. -/
def agentsOf (number : Nat) : Work G (List (Sight G)) := do
  let bench ← get
  let zone ← zone number
  return zone.agents.keys.filterMap fun entity => bench.sight? (.inZone number entity)

/-- Updates a zone once; the answer tells how many agents were ticked. -/
def updateZone (number elapsed : Nat) : Work G Nat := do
  let zone ← zone number
  let bench ← get
  let kept := fun id => bench.stores id || bench.othersThanZoneHold number id
  let updated := zone.update bench.rules kept elapsed
  set { bench with zones := bench.zones.insert number updated.zone }
  report (Note.diagnostics updated.notes)
  return updated.ticked

/-- Updates a zone a number of times; the answer has the number of agents ticked each time. -/
def updateZoneTimes (number elapsed : Nat) : Nat → Work G (List Nat)
  | 0 => return []
  | times + 1 => do
      let ticked ← updateZone number elapsed
      return ticked :: (← updateZoneTimes number elapsed times)

end Work

end BehaviorTree
