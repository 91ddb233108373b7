import BehaviorTree.Game

/-!
# Conditions and filters

A condition gates a node. A filter reshapes the selection of entities that an agent works
on. Both are data; `BehaviorTree.Agent.Evaluate` says what they do.
-/

namespace BehaviorTree

variable {G : Game}

/-- A way to narrow or replace an agent's selection. -/
inductive Filter (G : Game) where
  /-- Empties the selection. -/
  | clear
  /-- Keeps the first occurrence of each entity. -/
  | unique
  /-- Keeps the first entries. -/
  | first (count : Nat)
  /-- Drops the agent's own entity. -/
  | exclude
  /-- A filter of the game. -/
  | game (name : String) (sieve : G.Sieve)

namespace Filter

/-- The name of the kind of filter. -/
def typeName : Filter G → String
  | clear => "Clear"
  | unique => "Unique"
  | first _ => "First"
  | exclude => "Exclude"
  | game name _ => name

end Filter

/-- A gate of a node. -/
inductive Condition (G : Game) where
  | always
  | never
  /-- Holds when every nested condition does; the first false one settles it. -/
  | conjunction (conditions : List (Condition G))
  /-- Holds when a nested condition does; the first true one settles it. -/
  | disjunction (conditions : List (Condition G))
  /-- Holds when the inner condition does not. Without one it does not hold. -/
  | negation (inner : Option (Condition G))
  /-- Runs its filter, if any, and holds when the selection is not empty. -/
  | selection (filter : Option (Filter G))
  /-- A condition of the game. -/
  | game (name : String) (test : G.Test)

namespace Condition

/-- The name of the kind of condition. -/
def typeName : Condition G → String
  | always => "True"
  | never => "False"
  | conjunction _ => "And"
  | disjunction _ => "Or"
  | negation _ => "Not"
  | selection _ => "Filter"
  | game name _ => name

/-- The nested conditions, in order. -/
def nested : Condition G → List (Condition G)
  | conjunction conditions | disjunction conditions => conditions
  | negation inner => inner.toList
  | always | never | selection _ | game _ _ => []

/-- The filter of a selection condition. -/
def filter? : Condition G → Option (Filter G)
  | selection filter => filter
  | always | never | conjunction _ | disjunction _ | negation _ | game _ _ => none

/-- The name of a condition with its nested conditions in parentheses, if it has any. -/
def written (name : String) : List String → String
  | [] => name
  | inner => name ++ "(" ++ ", ".intercalate inner ++ ")"

mutual

/-- The text of a condition, as in `And(True, Filter)`. -/
def describe : Condition G → String
  | always => written "True" []
  | never => written "False" []
  | conjunction conditions => written "And" (describeAll conditions)
  | disjunction conditions => written "Or" (describeAll conditions)
  | negation inner => written "Not" (describeInner inner)
  | selection _ => written "Filter" []
  | game name _ => written name []

/-- The texts of conditions, in order. -/
def describeAll : List (Condition G) → List String
  | [] => []
  | condition :: rest => describe condition :: describeAll rest

/-- The text of an inner condition, if there is one. -/
def describeInner : Option (Condition G) → List String
  | none => []
  | some condition => [describe condition]

end

end Condition

end BehaviorTree
