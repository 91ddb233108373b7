import BehaviorTree.Cache
import BehaviorTree.Directory
import BehaviorTree.Sketch
import BehaviorTree.Workbench.Part
import BehaviorTree.Zone

/-!
# The workbench

Everything a person has at hand while trying trees out: trees and loose parts under names,
agents on their own and in zones, one cache, and the registry that parts are made with.

A node is in use as long as a tree or part on the bench, the cache or the tree of some agent
holds it (`Workbench.holds`). This decides whether an agent's current action is still alive.
-/

namespace BehaviorTree

variable {G : Game}

/-- Where an agent is: on its own under a name, or in a zone under its entity. -/
inductive Place where
  | loose (name : String)
  | inZone (zone : Nat) (entity : EntityId)
  deriving DecidableEq, Repr

/-- Trees, parts, agents and zones at hand. -/
structure Workbench (G : Game) where
  registry : Registry G
  rules : Rules G
  shop : Workshop := { supply := Supply.start }
  trees : Directory (Tree G) := Directory.empty
  parts : Directory (Part G) := Directory.empty
  agents : Directory (Agent G) := Directory.empty
  zones : Table (Zone G) := Table.empty
  cache : Cache G := Cache.empty

/-- What a request names without its being there. -/
inductive Missing where
  | tree
  | part
  /-- The part that another one is to be attached to. -/
  | target
  | node
  | zone
  | agent
  deriving DecidableEq, Repr

/-- Why a request is not met. -/
inductive WorkError where
  | missing (what : Missing)
  | notLoaded (error : LoadError)
  | notAssembled (error : AssemblyError)
  deriving DecidableEq, Repr

/-- Something done at a workbench, which may fail. What was done before a failure stays. -/
abbrev Work (G : Game) (α : Type) := ExceptT WorkError (StateM (Workbench G)) α

namespace Workbench

/-- The agent at a place. -/
def agentAt? (bench : Workbench G) : Place → Option (Agent G)
  | .loose name => bench.agents.get? name
  | .inZone zone entity => (bench.zones.get? zone).bind fun zone => zone.agents.get? entity

/-- Puts the agent at a place into its new state. -/
def setAgent (bench : Workbench G) (agent : Agent G) : Place → Workbench G
  | .loose name => { bench with agents := bench.agents.put name agent }
  | .inZone number entity =>
      match bench.zones.get? number with
      | none => bench
      | some zone =>
          let zone := { zone with agents := zone.agents.insert entity agent }
          { bench with zones := bench.zones.insert number zone }

/-- Whether the trees, the parts or the cache hold a node. -/
def stores (bench : Workbench G) (id : NodeId) : Bool :=
  bench.trees.any (fun _ tree => tree.contains id) ||
    bench.parts.any (fun _ part => part.holds id) || bench.cache.holds id

/-- Whether an agent that is not at a given place holds a node. -/
def othersHold (bench : Workbench G) (place : Place) (id : NodeId) : Bool :=
  bench.agents.any (fun name agent => place != .loose name && agent.owns id) ||
    bench.zones.entries.any fun (number, zone) =>
      zone.agents.entries.any fun (entity, agent) =>
        place != .inZone number entity && agent.owns id

/-- Whether an agent outside a given zone holds a node. -/
def othersThanZoneHold (bench : Workbench G) (number : Nat) (id : NodeId) : Bool :=
  bench.agents.any (fun _ agent => agent.owns id) ||
    bench.zones.entries.any fun (other, zone) =>
      other != number && Zone.anyOwns zone.agents.entries id

/-- Whether a node is in use, apart from the agent at a given place. -/
def holds (bench : Workbench G) (place : Place) (id : NodeId) : Bool :=
  bench.stores id || bench.othersHold place id

end Workbench

namespace Work

/-- Fails for want of something. -/
def missing {α : Type} (what : Missing) : Work G α := throw (.missing what)

/-- Takes something that may be missing. -/
def require {α : Type} (what : Missing) : Option α → Work G α
  | some value => pure value
  | none => missing what

/-- Changes the notes of the workshop. -/
def addNotes (notes : List BuildNote) : Work G Unit :=
  modify fun bench =>
    { bench with shop := { bench.shop with notes := bench.shop.notes ++ notes.toArray } }

/-- Keeps diagnostics among the notes. -/
def report (diagnostics : List Diagnostic) : Work G Unit :=
  addNotes (diagnostics.map .reported)

/-- Runs a build in the workshop of the bench. -/
def build {α : Type} (plan : Build α) : Work G α := do
  let (result, shop) := (ExceptT.run plan).run (← get).shop
  modify fun bench => { bench with shop }
  match result with
  | .ok value => return value
  | .error error => throw (.notLoaded error)

/-- Runs a draft in the workshop of the bench. -/
def draft {α : Type} (plan : Draft G α) : Work G (Except SketchError α) := do
  let (result, shop) := plan.run (← get).shop
  modify fun bench => { bench with shop }
  return result

/-- Issues an identity. -/
def issue : Work G NodeId := do
  let (id, supply) := (← get).shop.supply.issue
  modify fun bench => { bench with shop := { bench.shop with supply } }
  return id

/-- The tree under a name. -/
def tree (name : String) : Work G (Tree G) := do require .tree ((← get).trees.get? name)

/-- The zone of a number. -/
def zone (number : Nat) : Work G (Zone G) := do require .zone ((← get).zones.get? number)

/-- A node of a tree: the one with a given identity, or the top. -/
def node (name : String) (id : Option NodeId) : Work G (Node G) := do
  let tree ← tree name
  match id with
  | none => return tree.toNode
  | some id => require .node (tree.toNode.find? id)

/-- Has the agent at a place do something, if there is one. -/
def play {α : Type} (place : Place) (what : (NodeId → Bool) → Rules G → Play G α) :
    Work G (Option (α × Agent G)) := do
  let bench ← get
  match bench.agentAt? place with
  | none => return none
  | some agent =>
      let outcome := what (bench.holds place) bench.rules agent
      set (bench.setAgent outcome.agent place)
      report (Note.diagnostics outcome.notes)
      return some (outcome.value, outcome.agent)

/-- Takes the notes of the workshop away. -/
def takeNotes : StateM (Workbench G) (Array BuildNote) := do
  let bench ← get
  set { bench with shop := { bench.shop with notes := Array.empty } }
  return bench.shop.notes

end Work

end BehaviorTree
