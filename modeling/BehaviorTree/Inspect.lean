import BehaviorTree.Text.Quoted
import BehaviorTree.Zone

/-!
# Texts for programmers

Trees, contexts, agents and zones in one line each, with the names of their parts.
-/

namespace BehaviorTree

variable {G : Game}

/-- A name with named parts in braces; `isPartial` tells that more parts are not shown. -/
def showParts (name : String) (parts : List (String × String)) (isPartial : Bool) : String :=
  let shown := ", ".intercalate (parts.map fun (part, value) => part ++ ": " ++ value)
  name ++ " \x7b " ++ shown ++ (if isPartial then ", .. \x7d" else " \x7d")

/-- A value that may be missing. -/
def showOption {α : Type} (text : α → String) : Option α → String
  | none => "None"
  | some value => "Some(" ++ text value ++ ")"

/-- Numbers in brackets. -/
def showNumbers (numbers : List Nat) : String := Text.bracketed (numbers.map toString)

def Tree.debug (tree : Tree G) : String :=
  showParts "Root"
    [("id", tree.id.debug), ("name", Text.quote tree.name), ("nodes", toString tree.count)] false

/-- A context shows the number of its tables only. -/
def debugContext (context : Context G) : String :=
  showParts "Context" [("tables", toString context.tableCount)] false

def Agent.debug (agent : Agent G) : String :=
  showParts "Agent"
    [("entity", toString agent.entity),
      ("behavior", showOption (fun tree => Text.quote tree.name) agent.behavior),
      ("status", agent.status.name),
      ("paused", if agent.paused then "true" else "false"),
      ("zone", showOption ZoneId.debug agent.zone),
      ("selection", showNumbers agent.selection)] true

def Zone.debug (zone : Zone G) : String :=
  let agents := zone.agents.entries.map fun (entity, agent) =>
    toString entity ++ ": " ++ agent.debug
  showParts "Zone"
    [("id", zone.id.debug),
      ("agents", "\x7b" ++ ", ".intercalate agents ++ "\x7d"),
      ("ticks", toString zone.ticks)] false

end BehaviorTree
