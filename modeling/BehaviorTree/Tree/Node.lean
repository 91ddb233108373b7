import BehaviorTree.Identity
import BehaviorTree.Tree.Condition

/-!
# Nodes and trees

A tree is data: it is built once, never changes, and is shared by every agent that runs it.
Nothing an agent has to remember about a node is kept in the node.

`Node.preorder` lists a node and everything below it, each node before its children and
children in order. Looking a node up, counting and asking for membership are read off that
list.
-/

namespace BehaviorTree

variable {G : Game}

/-- How a composite goes through its children. -/
inductive CompositeKind where
  /-- In order, until one does not finish. -/
  | sequence
  /-- In order, until one does not fail. -/
  | priority
  /-- All of them, every time. -/
  | parallel
  deriving DecidableEq, Repr

/-- How a decorator reshapes the result of its child. -/
inductive DecoratorKind where
  /-- Trades success and failure. -/
  | inverter
  /-- Finishes once the child is not running. -/
  | succeed
  /-- Fails once the child is not running. -/
  | fail
  /-- Keeps running whatever the child does. -/
  | repeater
  /-- Executes the child a bounded number of times, then finishes without it. -/
  | limit (bound : Nat)
  /-- Runs until the child fails. -/
  | untilFail
  /-- Runs until the child finishes. -/
  | untilSuccess
  /-- Passes the result of the child through under a name. -/
  | root (name : String)
  deriving DecidableEq, Repr

/-- What every node has: an identity, and a gate if one was attached. -/
structure Head (G : Game) where
  id : NodeId
  gate : Option (Condition G) := none

/-- A node of a behavior tree with everything below it. -/
inductive Node (G : Game) where
  | composite (head : Head G) (kind : CompositeKind) (children : List (Node G))
  | decorator (head : Head G) (kind : DecoratorKind) (child : Option (Node G))
  /-- A leaf that runs for a duration in nanoseconds, then finishes. -/
  | timed (head : Head G) (duration : Nat) (mustComplete : Bool)
  /-- A leaf with logic of the game. -/
  | action (head : Head G) (name : String) (mustComplete : Bool) (leaf : G.Leaf)

/-- The three families of nodes. -/
inductive NodeFamily where
  | composite
  | decorator
  | action
  deriving DecidableEq, Repr

/-- The written name of a family. -/
def NodeFamily.name : NodeFamily → String
  | composite => "Composite"
  | decorator => "Decorator"
  | action => "Action"

/-- The name of a kind of composite. -/
def CompositeKind.typeName : CompositeKind → String
  | sequence => "Sequence"
  | priority => "Priority"
  | parallel => "Parallel"

/-- The name of a kind of decorator. -/
def DecoratorKind.typeName : DecoratorKind → String
  | inverter => "Inverter"
  | succeed => "Succeed"
  | fail => "Fail"
  | repeater => "Repeater"
  | limit _ => "Limit"
  | untilFail => "UntilFail"
  | untilSuccess => "UntilSuccess"
  | root _ => "Root"

namespace Node

def head : Node G → Head G
  | composite head _ _ | decorator head _ _ | timed head _ _ | action head _ _ _ => head

def id (node : Node G) : NodeId := node.head.id

/-- The condition attached to a node. -/
def gate (node : Node G) : Option (Condition G) := node.head.gate

/-- The name of the kind of node. -/
def typeName : Node G → String
  | composite _ kind _ => kind.typeName
  | decorator _ kind _ => kind.typeName
  | timed _ _ _ => "Timed"
  | action _ name _ _ => name

def family : Node G → NodeFamily
  | composite _ _ _ => .composite
  | decorator _ _ _ => .decorator
  | timed _ _ _ | action _ _ _ _ => .action

/-- Whether a running instance of the node takes an agent's updates for itself. -/
def mustComplete : Node G → Bool
  | composite _ _ _ | decorator _ _ _ => false
  | timed _ _ mustComplete | action _ _ mustComplete _ => mustComplete

/-- The nodes directly below, in order. -/
def children : Node G → List (Node G)
  | composite _ _ children => children
  | decorator _ _ child => child.toList
  | timed _ _ _ | action _ _ _ _ => []

/-- The same node behind another gate. -/
def setGate (gate : Option (Condition G)) : Node G → Node G
  | composite head kind children => composite { head with gate } kind children
  | decorator head kind child => decorator { head with gate } kind child
  | timed head duration mustComplete => timed { head with gate } duration mustComplete
  | action head name mustComplete leaf => action { head with gate } name mustComplete leaf

mutual

/-- The node and all nodes below it, each before its children. -/
def preorder : Node G → List (Node G)
  | node@(composite _ _ children) => node :: preorderAll children
  | node@(decorator _ _ child) => node :: preorderChild child
  | node@(timed _ _ _) | node@(action _ _ _ _) => [node]

/-- The nodes of several subtrees, one subtree after the other. -/
def preorderAll : List (Node G) → List (Node G)
  | [] => []
  | node :: rest => preorder node ++ preorderAll rest

/-- The nodes of a subtree, if there is one. -/
def preorderChild : Option (Node G) → List (Node G)
  | none => []
  | some node => preorder node

end

/-- The first node with an identity, from the node itself downwards. -/
def find? (node : Node G) (id : NodeId) : Option (Node G) :=
  node.preorder.find? fun other => other.id == id

/-- The number of nodes, the node itself included. -/
def count (node : Node G) : Nat := node.preorder.length

/-- Whether an identity occurs at the node or below it. -/
def contains (node : Node G) (id : NodeId) : Bool := node.preorder.any fun other => other.id == id

end Node

/-- A named tree. It is a node itself, so a tree can stand inside another one. -/
structure Tree (G : Game) where
  head : Head G
  name : String
  child : Option (Node G)

namespace Tree

def id (tree : Tree G) : NodeId := tree.head.id

/-- The tree as a node: a decorator that passes its child's result through. -/
def toNode (tree : Tree G) : Node G := .decorator tree.head (.root tree.name) tree.child

/-- The number of nodes, the top included. -/
def count (tree : Tree G) : Nat := tree.toNode.count

/-- The node with an identity below the top. -/
def find? (tree : Tree G) (id : NodeId) : Option (Node G) :=
  tree.child.bind fun child => child.find? id

/-- Whether an identity occurs in the tree. -/
def contains (tree : Tree G) (id : NodeId) : Bool := tree.toNode.contains id

end Tree

end BehaviorTree
