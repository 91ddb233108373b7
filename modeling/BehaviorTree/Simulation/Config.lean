import BehaviorTree.Identity
import BehaviorTree.Simulation.Path
import BehaviorTree.Yaml.Printer

/-!
# Configuration of a simulation

Which trees are loaded, which agents run them, and for how long. A configuration is written
as a document; `Config.ofText?` reads one and `Config.toValue` writes one.
-/

namespace BehaviorTree.Simulation

open Yaml (Decoder Element)

/-- An agent of a simulation. -/
structure AgentConfig where
  entity : EntityId
  /-- The name of a loaded tree. -/
  behavior : String
  paused : Bool := false
  /-- The selection to begin with. -/
  selection : List EntityId := []
  deriving DecidableEq, Repr

/-- A simulation. -/
structure Config where
  /-- Simulated milliseconds per update. -/
  tickMs : Nat := 100
  /-- The number of updates. -/
  ticks : Nat := 10
  /-- The files of tree documents. -/
  trees : List String := []
  agents : List AgentConfig := []
  /-- Whether executions are recorded and shown. -/
  trace : Bool := false
  deriving DecidableEq, Repr

namespace AgentConfig

/-- Reads an agent. -/
def decode (depth : Nat) : Element Nat → Decoder AgentConfig :=
  Decoder.record ["entity", "behavior", "paused", "selection"] depth fun depth fields => do
    let entity ← Decoder.field fields "entity" (Decoder.natural .natural64)
    let behavior ← Decoder.field fields "behavior" Decoder.text
    let paused ← Decoder.fieldOr fields "paused" false Decoder.truth
    let selection ← Decoder.fieldOr fields "selection" []
      (Decoder.list depth fun _ => Decoder.natural .natural64)
    return { entity, behavior, paused, selection }

/-- An agent as data of a document. -/
def toValue (agent : AgentConfig) : Yaml.Value :=
  .mapping [
    (.text "entity", .whole (agent.entity : Nat)),
    (.text "behavior", .text agent.behavior),
    (.text "paused", .truth agent.paused),
    (.text "selection", .sequence (agent.selection.map fun entity => .whole (entity : Nat)))]

end AgentConfig

namespace Config

/-- Reads a configuration. Whatever is missing has its default. -/
def decode : Option (Element Nat) → Decoder Config
  | none => pure {}
  | some element =>
      (Decoder.record ["tick_ms", "ticks", "trees", "agents", "trace"] Decoder.depthLimit
        fun depth fields => do
          let default : Config := {}
          let tickMs ← Decoder.fieldOr fields "tick_ms" default.tickMs (Decoder.natural .natural64)
          let ticks ← Decoder.fieldOr fields "ticks" default.ticks (Decoder.natural .natural64)
          let trees ← Decoder.fieldOr fields "trees" [] (Decoder.list depth fun _ => Decoder.text)
          let agents ← Decoder.fieldOr fields "agents" [] (Decoder.list depth AgentConfig.decode)
          let trace ← Decoder.fieldOr fields "trace" false Decoder.truth
          return { tickMs, ticks, trees, agents, trace }) element

/-- Reads a configuration out of a text. -/
def ofText? (text : String) : Option Config :=
  (Yaml.Document.ofText? text).bind (Decoder.decode? decode)

/-- A configuration as data of a document. -/
def toValue (config : Config) : Yaml.Value :=
  .mapping [
    (.text "tick_ms", .whole config.tickMs),
    (.text "ticks", .whole config.ticks),
    (.text "trees", .sequence (config.trees.map .text)),
    (.text "agents", .sequence (config.agents.map AgentConfig.toValue)),
    (.text "trace", .truth config.trace)]

/-- Writes a configuration. -/
def toText (config : Config) : String := Yaml.Printer.print config.toValue

/-- Takes the files of trees relative to a directory. -/
def resolve (base : String) (config : Config) : Config :=
  { config with trees := config.trees.map (Path.join base) }

end Config

end BehaviorTree.Simulation
