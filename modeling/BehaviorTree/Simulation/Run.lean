import BehaviorTree.Cache
import BehaviorTree.Json.Codec
import BehaviorTree.Simulation.CommandLine
import BehaviorTree.Simulation.Config
import BehaviorTree.Simulation.Demo
import BehaviorTree.Tree.Outline

/-!
# Running a simulation

What the program does for each command, apart from reading files and printing: files are
read by a function that is given, and the answer is a report with all that is to be printed.
-/

namespace BehaviorTree.Simulation

/-- Why a command failed. -/
inductive Failure where
  | unreadableConfig (path : String)
  | malformedConfig (path : String)
  | tree (path : String) (error : LoadError)
  | unknownBehavior (entity : EntityId) (name : String)
  deriving DecidableEq, Repr

namespace Failure

/-- The text of a failure. -/
def message : Failure → String
  | unreadableConfig path => "Failed to read config from " ++ path
  | malformedConfig path => "Failed to parse config from " ++ path
  | tree path _ => "Failed to load tree " ++ path
  | unknownBehavior entity name =>
      "Entity " ++ toString entity ++ " uses unknown behavior " ++ Text.quote name

/-- The text of what lies behind a failure, as far as it is told. -/
def cause : Failure → String
  | tree _ error => error.message
  | unreadableConfig _ | malformedConfig _ | unknownBehavior _ _ => ""

end Failure

/-- How a command came out. -/
inductive Ending where
  | success
  | failed (failure : Failure)
  | misused
  deriving DecidableEq, Repr

/-- The exit code of an ending. -/
def Ending.code : Ending → Nat
  | success => 0
  | failed _ => 1
  | misused => 2

/-- What a command printed, and how it came out. -/
structure Report where
  output : String
  ending : Ending

/-- The registered types, a line for each family. -/
def typesText (registry : Registry Demo.game) : String :=
  let line (title : String) (names : List String) := title ++ ", ".intercalate names ++ "\n"
  line "nodes:      " registry.nodeTypes ++ line "conditions: " registry.conditionTypes ++
    line "filters:    " registry.filterTypes

/-- The outline of a tree under the name of its file. -/
def checkText (path : String) (tree : Tree Demo.game) : String :=
  path ++ " (" ++ toString tree.count ++ " nodes)\n" ++ tree.render

/-- The row of an agent: entity, tree, status and number of ticks. -/
def row (agent : Agent Demo.game) : String :=
  let behavior := match agent.behavior with
    | none => "-"
    | some tree => tree.name
  "\t".intercalate [toString agent.entity, behavior, agent.status.name, toString agent.ticks] ++
    "\n"

/-- The recorded executions of an agent, if there is a record. -/
def traceRow (agent : Agent Demo.game) : String :=
  match agent.trace with
  | none => ""
  | some log => toString agent.entity ++ "\t" ++ log.toJson ++ "\n"

/-- The result of a simulation: a row for each agent, and their traces if asked for. -/
def resultText (trace : Bool) (zone : Zone Demo.game) : String :=
  let agents := zone.agents.values
  "entity\tbehavior\tstatus\tticks\n" ++ String.join (agents.map row) ++
    (if trace then String.join (agents.map traceRow) else "")

/-- An agent as it is configured. -/
def makeAgent (trace : Bool) (entry : AgentConfig) (tree : Tree Demo.game) : Agent Demo.game :=
  let agent : Agent Demo.game := {
    entity := entry.entity
    behavior := some tree
    selection := entry.selection
    paused := entry.paused }
  if trace then agent.enableTrace else agent

/-- Registers the configured agents in order. The first that names no loaded tree is a
failure. -/
def populate (trace : Bool) (cache : Cache Demo.game) :
    Zone Demo.game → List AgentConfig → Except Failure (Zone Demo.game)
  | zone, [] => .ok zone
  | zone, entry :: rest =>
      match cache.get? entry.behavior with
      | none => .error (.unknownBehavior entry.entity entry.behavior)
      | some tree => populate trace cache (zone.addAgent (makeAgent trace entry tree)).value.2 rest

/-- Updates a zone a number of times. -/
def updateTimes (cache : Cache Demo.game) (elapsed : Nat) :
    Nat → Zone Demo.game → Zone Demo.game
  | 0, zone => zone
  | times + 1, zone =>
      updateTimes cache elapsed times (zone.update Demo.rules cache.holds elapsed).zone

/-- The state of loading trees. -/
structure Loading where
  workshop : Workshop := { supply := Supply.start }
  cache : Cache Demo.game := Cache.empty

/-- Loads a tree into the cache. -/
def Loading.add (loading : Loading) (path : String) (content : Option String) :
    Except Failure Loading :=
  match ((loading.cache.loadFile Demo.registry content).run.run loading.workshop) with
  | (.ok (_, cache), workshop) => .ok { workshop, cache }
  | (.error error, _) => .error (.tree path error)

/-- The simulation of a configuration whose trees have been loaded. -/
def simulate (config : Config) (ticks : Nat) (cache : Cache Demo.game) : Report :=
  match populate config.trace cache (Zone.fresh ⟨0⟩) config.agents with
  | .error failure => ⟨"", .failed failure⟩
  | .ok zone =>
      let elapsed := Registry.milliseconds config.tickMs
      ⟨resultText config.trace (updateTimes cache elapsed ticks zone), .success⟩

section

variable {m : Type → Type} [Monad m]

/-- Loads trees in order, up to the first failure. -/
def loadAll (read : String → m (Option String)) :
    Loading → List String → m (Except Failure (Cache Demo.game))
  | loading, [] => pure (.ok loading.cache)
  | loading, path :: rest => do
      match loading.add path (← read path) with
      | .error failure => return .error failure
      | .ok loading => loadAll read loading rest

/-- Runs the simulation of a configuration file. -/
def runConfig (read : String → m (Option String)) (path : String) (ticks : Option Nat) :
    m Report := do
  match ← read path with
  | none => return ⟨"", .failed (.unreadableConfig path)⟩
  | some text =>
      match Config.ofText? text with
      | none => return ⟨"", .failed (.malformedConfig path)⟩
      | some config =>
          let config := config.resolve ((Path.parent? path).getD ".")
          match ← loadAll read {} config.trees with
          | .error failure => return ⟨"", .failed failure⟩
          | .ok cache => return simulate config (ticks.getD config.ticks) cache

/-- Loads tree documents and shows their outlines, up to the first failure. -/
def checkAll (read : String → m (Option String)) :
    Workshop → String → List String → m Report
  | _, output, [] => pure ⟨output, .success⟩
  | workshop, output, path :: rest => do
      let content ← read path
      match ((Blueprint.loadFile Demo.registry content).run.run workshop) with
      | (.error error, _) => return ⟨output, .failed (.tree path error)⟩
      | (.ok tree, workshop) => checkAll read workshop (output ++ checkText path tree) rest

/-- The name and the number of this program. -/
def versionText : String := "npc-sim 0.1.0\n"

/-- How the program is used. -/
def helpText : String :=
  "Headless NPC behavior tree driver\n\nUsage: npc-sim [OPTIONS] <COMMAND>\n"

/-- Does what a command asks for. -/
def perform (read : String → m (Option String)) : Command → m Report
  | .run config ticks => runConfig read config ticks
  | .check trees => checkAll read { supply := Supply.start } "" trees
  | .types => pure ⟨typesText Demo.registry, .success⟩
  | .help => pure ⟨helpText, .success⟩
  | .version => pure ⟨versionText, .success⟩
  | .usageError => pure ⟨"", .misused⟩

end

end BehaviorTree.Simulation
