import BehaviorTree.Yaml.Printer

/-!
# Blueprints

The description of a tree in a document: names of types, arguments, and which part belongs
where. `Blueprint.ofText?` reads one; whether the parts exist and fit is found out when the
tree is built.
-/

namespace BehaviorTree

/-- The description of a filter. -/
structure FilterPlan where
  kind : String
  args : List Yaml.Value

/-- The description of a condition with its filter and its nested conditions. -/
inductive ConditionPlan where
  | mk (kind : String) (args : List Yaml.Value) (filter : Option FilterPlan)
      (conditions : List ConditionPlan)

/-- The description of a node with its condition and its children. -/
inductive NodePlan where
  | mk (kind : String) (args : List Yaml.Value) (condition : Option ConditionPlan)
      (children : List NodePlan)

/-- The description of a named tree. -/
structure Blueprint where
  name : String
  tree : NodePlan

namespace Blueprint

open Yaml (Decoder Element)

/-- Reads a list of arguments. -/
def decodeArgs (depth : Nat) (fields : Decoder.Fields) : Decoder (List Yaml.Value) :=
  Decoder.fieldOr fields "args" [] (Decoder.list depth Yaml.Value.decode)

/-- Reads the description of a filter. -/
def decodeFilter (depth : Nat) : Element Nat → Decoder FilterPlan :=
  Decoder.record ["type", "args"] depth fun depth fields => do
    let kind ← Decoder.field fields "type" Decoder.text
    let args ← decodeArgs depth fields
    return { kind, args }

/-- Reads the description of a condition, in at most so many rounds. -/
def decodeCondition : Nat → Nat → Element Nat → Decoder ConditionPlan
  | 0, _ => fun _ => Decoder.fail
  | rounds + 1, depth =>
      Decoder.record ["type", "args", "conditions", "filter"] depth fun depth fields => do
        let kind ← Decoder.field fields "type" Decoder.text
        let args ← decodeArgs depth fields
        let conditions ← Decoder.fieldOr fields "conditions" []
          (Decoder.list depth (decodeCondition rounds))
        let filter ← Decoder.fieldOr fields "filter" none
          (Decoder.optional (decodeFilter depth))
        return .mk kind args filter conditions

/-- Reads the description of a node, in at most so many rounds. -/
def decodeNode : Nat → Nat → Element Nat → Decoder NodePlan
  | 0, _ => fun _ => Decoder.fail
  | rounds + 1, depth =>
      Decoder.record ["type", "args", "condition", "children"] depth fun depth fields => do
        let kind ← Decoder.field fields "type" Decoder.text
        let args ← decodeArgs depth fields
        let condition ← Decoder.fieldOr fields "condition" none
          (Decoder.optional (decodeCondition (depth + 1) depth))
        let children ← Decoder.fieldOr fields "children" []
          (Decoder.list depth (decodeNode rounds))
        return .mk kind args condition children

/-- Reads the description of a tree. Every round goes at least one structure deeper, so the
limit on depth bounds the rounds too. -/
def decode : Option (Element Nat) → Decoder Blueprint
  | none => Decoder.fail
  | some element =>
      (Decoder.record ["name", "tree"] Decoder.depthLimit fun depth fields => do
        let name ← Decoder.field fields "name" Decoder.text
        let tree ← Decoder.field fields "tree" (decodeNode (depth + 1) depth)
        return { name, tree }) element

/-- Reads a description out of a text. -/
def ofText? (text : String) : Option Blueprint :=
  (Yaml.Document.ofText? text).bind (Decoder.decode? decode)

end Blueprint

end BehaviorTree
