import BehaviorTree.Agent.Play

/-!
# Filters and conditions at work

Filters act on the agent's selection. Conditions are evaluated for the node that they gate;
conjunctions and disjunctions go from left to right and stop where the rest cannot matter.
Every condition without nested ones leaves a note of its evaluation.
-/

namespace BehaviorTree

variable {G : Game}

namespace Selection

/-- Drops what has been seen before, the given entities included. -/
def dropSeen (seen : List EntityId) : List EntityId → List EntityId
  | [] => []
  | entity :: rest =>
      if entity ∈ seen then dropSeen seen rest else entity :: dropSeen (entity :: seen) rest

/-- Keeps the first occurrence of each entity. -/
def unique (selection : List EntityId) : List EntityId := dropSeen [] selection

/-- Drops one entity. -/
def exclude (entity : EntityId) (selection : List EntityId) : List EntityId :=
  selection.filter fun other => other ≠ entity

end Selection

/-- Changes the selection of an agent and nothing else. -/
def Agent.select (agent : Agent G) (change : List EntityId → List EntityId) : Agent G :=
  { agent with selection := change agent.selection }

/-- Runs a filter. -/
def Filter.run (rules : Rules G) : Filter G → Play G Unit
  | clear => Play.change fun agent => agent.select fun _ => []
  | unique => Play.change fun agent => agent.select Selection.unique
  | first count => Play.change fun agent => agent.select (List.take count)
  | exclude => Play.change fun agent => agent.select (Selection.exclude agent.entity)
  | game _ sieve => rules.sift sieve

namespace Condition

/-- A negation that nothing was attached to. -/
def emptyNegation (node : Node G) : Diagnostic where
  severity := .warn
  message := "Not condition evaluated without an inner condition"
  fields := [("node", .text node.id.text)]

/-- Notes how an evaluation came out. -/
def noted (node : Node G) (name : String) (holds : Play G Bool) : Play G Bool := do
  let answer ← holds
  Play.note (.tested node.id name answer)
  return answer

/-- Runs the filter, if any, and asks whether anything is selected. -/
def anySelected (rules : Rules G) (filter : Option (Filter G)) : Play G Bool := do
  match filter with
  | none => pure ()
  | some filter => filter.run rules
  Play.look fun agent => !agent.selection.isEmpty

mutual

/-- Evaluates a condition for the node that it gates. -/
def evaluate (rules : Rules G) (node : Node G) : Condition G → Play G Bool
  | always => noted node "True" (pure true)
  | never => noted node "False" (pure false)
  | conjunction conditions => evaluateAll rules node conditions
  | disjunction conditions => evaluateAny rules node conditions
  | negation inner => evaluateNot rules node inner
  | selection filter => noted node "Filter" (anySelected rules filter)
  | game name test => noted node name (rules.test test node)

/-- Evaluates conditions up to the first false one. -/
def evaluateAll (rules : Rules G) (node : Node G) : List (Condition G) → Play G Bool
  | [] => pure true
  | condition :: rest => do
      let holds ← evaluate rules node condition
      if holds then evaluateAll rules node rest else pure false

/-- Evaluates conditions up to the first true one. -/
def evaluateAny (rules : Rules G) (node : Node G) : List (Condition G) → Play G Bool
  | [] => pure false
  | condition :: rest => do
      let holds ← evaluate rules node condition
      if holds then pure true else evaluateAny rules node rest

/-- Evaluates the opposite of a condition. Without one there is nothing to negate. -/
def evaluateNot (rules : Rules G) (node : Node G) : Option (Condition G) → Play G Bool
  | none => do
      Play.report (emptyNegation node)
      return false
  | some condition => do
      let holds ← evaluate rules node condition
      return !holds

end

end Condition

/-- Whether a node may run: its condition holds, or it has none. -/
def Node.open (rules : Rules G) (node : Node G) : Play G Bool :=
  match node.gate with
  | none => pure true
  | some condition => condition.evaluate rules node

end BehaviorTree
