import BehaviorTree.Tree.Node

/-!
# Assembly

Trees are put together part by part. An operation that a part does not take fails and
leaves the part as it was; what each kind of part takes is settled here once.
-/

namespace BehaviorTree

variable {G : Game}

/-- Why a part cannot be attached. -/
inductive AssemblyError where
  /-- The kind of node takes no children. -/
  | noChildren (kind : String)
  /-- The decorator has its child already. -/
  | childAlreadySet (kind : String)
  /-- The kind of condition takes no nested conditions. -/
  | noNestedConditions (kind : String)
  /-- The negation has its inner condition already. -/
  | conditionAlreadySet (kind : String)
  /-- The kind of condition takes no filter. -/
  | noFilter (kind : String)
  deriving DecidableEq, Repr

/-- The text of an assembly error. -/
def AssemblyError.message : AssemblyError → String
  | noChildren kind => kind ++ " does not take children"
  | childAlreadySet kind => kind ++ " already has a child"
  | noNestedConditions kind => kind ++ " does not take nested conditions"
  | conditionAlreadySet kind => kind ++ " already holds its inner condition"
  | noFilter kind => kind ++ " does not take a filter"

namespace Node

/-- Adds a child: last in a composite, alone in a decorator, never in a leaf. -/
def addChild (node child : Node G) : Except AssemblyError (Node G) :=
  match node with
  | composite head kind children => .ok (composite head kind (children ++ [child]))
  | decorator head kind none => .ok (decorator head kind (some child))
  | decorator _ kind (some _) => .error (.childAlreadySet kind.typeName)
  | timed _ _ _ | action _ _ _ _ => .error (.noChildren node.typeName)

/-- Attaches a condition over an earlier one. -/
def setCondition (node : Node G) (condition : Condition G) : Node G :=
  node.setGate (some condition)

end Node

namespace Condition

/-- Adds a nested condition: last in a conjunction or disjunction, alone in a negation. -/
def addCondition (condition inner : Condition G) : Except AssemblyError (Condition G) :=
  match condition with
  | conjunction conditions => .ok (conjunction (conditions ++ [inner]))
  | disjunction conditions => .ok (disjunction (conditions ++ [inner]))
  | negation none => .ok (negation (some inner))
  | negation (some _) => .error (.conditionAlreadySet "Not")
  | always | never | selection _ | game _ _ =>
      .error (.noNestedConditions condition.typeName)

/-- Attaches a filter over an earlier one. Only a selection condition takes one. -/
def setFilter (condition : Condition G) (filter : Filter G) :
    Except AssemblyError (Condition G) :=
  match condition with
  | selection _ => .ok (selection (some filter))
  | always | never | conjunction _ | disjunction _ | negation _ | game _ _ =>
      .error (.noFilter condition.typeName)

end Condition

namespace Tree

/-- A tree without a child. -/
def named (id : NodeId) (name : String) : Tree G := ⟨{ id }, name, none⟩

/-- Gives a tree its child. -/
def addChild (tree : Tree G) (child : Node G) : Except AssemblyError (Tree G) :=
  match tree.child with
  | none => .ok { tree with child := some child }
  | some _ => .error (.childAlreadySet "Root")

/-- Attaches a condition over an earlier one. -/
def setCondition (tree : Tree G) (condition : Condition G) : Tree G :=
  { tree with head := { tree.head with gate := some condition } }

end Tree

end BehaviorTree
