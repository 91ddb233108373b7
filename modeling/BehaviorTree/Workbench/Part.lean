import BehaviorTree.Tree.Assembly

/-!
# Loose parts

Trees, nodes, conditions and filters that are not yet attached anywhere, and what can be
attached to what.
-/

namespace BehaviorTree

variable {G : Game}

/-- A part on its own. -/
inductive Part (G : Game) where
  | tree (tree : Tree G)
  | node (node : Node G)
  | condition (condition : Condition G)
  | filter (filter : Filter G)

/-- Why one part does not go into another. -/
inductive Part.Misfit where
  /-- Parts of these kinds are never put together. -/
  | wrongKinds
  | refused (error : AssemblyError)
  deriving DecidableEq, Repr

namespace Part

/-- The node that a part is, a tree being one too. -/
def node? : Part G → Option (Node G)
  | tree top => some top.toNode
  | node inner => some inner
  | condition _ | filter _ => none

/-- Whether a part holds a node. -/
def holds (part : Part G) (id : NodeId) : Bool := part.node?.any fun inner => inner.contains id

/-- The outcome of an operation of assembly. -/
def fitted {α : Type} (wrap : α → Part G) :
    Except AssemblyError α → Except Misfit (Part G)
  | .ok value => .ok (wrap value)
  | .error error => .error (.refused error)

/-- Puts a part into another one: nodes and trees below a node or tree, conditions in front
of them or into conditions, filters into conditions. -/
def attach (part target : Part G) : Except Misfit (Part G) :=
  match target, part with
  | tree top, condition gate => .ok (tree (top.setCondition gate))
  | node inner, condition gate => .ok (node (inner.setCondition gate))
  | tree top, node child => fitted tree (top.addChild child)
  | tree top, tree child => fitted tree (top.addChild child.toNode)
  | node inner, node child => fitted node (inner.addChild child)
  | node inner, tree child => fitted node (inner.addChild child.toNode)
  | condition outer, condition inner => fitted condition (outer.addCondition inner)
  | condition outer, filter sieve => fitted condition (outer.setFilter sieve)
  | tree _, filter _ | node _, filter _ | condition _, tree _ | condition _, node _
  | filter _, _ => .error .wrongKinds

end Part

end BehaviorTree
